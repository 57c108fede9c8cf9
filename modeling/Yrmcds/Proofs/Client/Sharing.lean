/-
What clients that share a persistent connection do to each other by
coming and going.

A constructor that checks the connection and the destructor of a client
that holds it run an exchange of the extension on it (`Touches`); all
other constructions and destructions leave it as it is. An exchange
receives and discards every response before its own, a destructor
releases all locks, and both set the timeout.

# What stays

So a client keeps its responses as long as none is unread when another
client touches the connection (`Unread`), and receives nothing else as
long as no exchange is cut short (`Uncut`). Its locks survive
constructions, but not the destruction of another client (`KeepsLock`).
Its timeout survives only if it is the default one (`InForce`).

A request that is sent behind a torn frame completes that frame, and is
answered as such. Nothing is said of responses and locks from then on
(`Op.Clear`).
-/
import Yrmcds.Proofs.Client.Delivery

namespace Yrmcds

/-- Nothing is sent behind a torn frame. -/
def Op.Clear (op : Op) : Prop := ∀ ok replies, .garbled ok replies ∉ op.events

theorem Op.Clear.scope {op : Op} {scope : Link.Scope} (h : op.Clear)
    (hev : scope.events = op.events) : scope.Clear := by
  intro ok replies
  rw [hev]
  exact h ok replies

namespace Php

variable {s s' : Php} {a i o : Nat} {c c' d : PhpConn} {key : Key} {op : Op}
  {events : List Event}

-- ================================================================= visits

/-- Only object `a` calls methods; other objects come and go. -/
def Visits (a : Nat) : Op → Prop
  | .construct o _ _ => o ≠ a
  | .delete o _ => o ≠ a
  | op => op.caller = none ∨ op.caller = some a

theorem Visits.caller (hv : Visits a op) (hop : op.caller = some o) :
    o = a := by
  have hv : op.caller = none ∨ op.caller = some a := by
    cases op with
    | construct => cases hop
    | delete => cases hop
    | _ => exact hv
  rcases hv with hv | hv
  · cases hop.symm.trans hv
  · exact Option.some.inj (hop.symm.trans hv)

/-- An operation runs an exchange of the extension on connection `i`. -/
def Touches (s : Php) (i : Nat) : Op → Prop
  | .construct _ persistId _ => 0 < persistId.length
      ∧ s.ini.detectStaleConnection = true
      ∧ s.persistentList (hashKey persistId) = some i
  | .delete o _ => s.object o = some ⟨some i⟩
  | _ => False

/-- What an operation does to connection `i`, which object `a` holds. -/
inductive Visited (s : Php) (a i : Nat) (op : Op) (l : Link) : Link → Prop where
  | own {l' : Link} (hop : op.caller = some a) (hx : Link.Steps op.scope l l') :
      Visited s a i op l l'
  | aside (ht : ¬ Touches s i op) : Visited s a i op l l
  | checked {o : Nat} {persistId : List UInt8} {x : Error × Status}
      {events rest : List Event} {l' : Link}
      (hop : op = .construct o persistId events) (ht : Touches s i op)
      (hx : l.checkPersistentConnection s.timeout events = some (x, l', rest)) :
      Visited s a i op l l'
  | unlocked {o : Nat} {good : Bool} {events rest : List Event} {l' : Link}
      (hop : op = .delete o events) (ht : Touches s i op)
      (hx : l.unlockAndDrain s.timeout events = some (good, l', rest)) :
      Visited s a i op l l'

theorem Checked.visited {good : Bool} {res : Link} {persistId : List UInt8}
    (hop : op = .construct o persistId events) (hp : 0 < persistId.length)
    (hl : s.persistentList (hashKey persistId) = some i)
    (hx : Checked s c events good res) : Visited s a i op c.res res := by
  subst hop
  cases hx with
  | unchecked hd =>
      refine .aside fun ht => ?_
      cases hd.symm.trans ht.2.1
  | alive hd hx => exact .checked rfl ⟨hp, hd, hl⟩ hx
  | broken hd hx => exact .checked rfl ⟨hp, hd, hl⟩ hx

theorem Obtained.visited {persistId : List UInt8}
    {r : Except Thrown (Nat × Option Key)} (hc : s.conn i = some c)
    (hop : op = .construct o persistId events)
    (hx : Obtained s persistId events r s') (hd : s'.conn i = some d) :
    Visited s a i op c.res d.res := by
  have hlt := lt_of_conn hc
  -- a connection under another key is not looked at
  have haside : s.persistentList (hashKey persistId) ≠ some i →
      s.conn i = some d → Visited s a i op c.res d.res := by
    intro hne hd
    cases hc.symm.trans hd
    subst hop
    exact .aside fun ht => hne ht.2.2
  have hmade : ∀ {s₁ pkey rest r}, Made s₁ pkey rest r s' →
      i < s₁.heap.length → s₁.conn i = some d := by
    intro s₁ pkey rest r hm hlt
    cases hm with
    | refused => exact hd
    | orphaned => exact conn_push_cases hlt hd
    | made => exact conn_push_cases hlt hd
  cases hx with
  | reused hp hx =>
      cases hx with
      | ok hl hc' hx =>
          rcases conn_put_cases hc' hd with ⟨rfl, rfl⟩ | ⟨hne, hd⟩
          · cases hc.symm.trans hc'
            exact hx.visited hop hp hl
          · exact haside (fun h => hne (Option.some.inj (h.symm.trans hl))) hd
  | occupied hp hx =>
      cases hx with
      | occupied hl hc' hx =>
          rcases conn_put_cases hc' hd with ⟨rfl, rfl⟩ | ⟨hne, hd⟩
          · cases hc.symm.trans hc'
            exact hx.visited hop hp hl
          · exact haside (fun h => hne (Option.some.inj (h.symm.trans hl))) hd
  | listed hp _ hx hn hm =>
      have hd := hmade hm (by rw [(hx.cleared hn).heap]; exact hlt)
      cases hx with
      | notFound hl => exact haside (by rw [hl]; nofun) hd
      | broken hl hc' =>
          obtain ⟨hne, hd⟩ := conn_free_cases hc' hd
          exact haside (fun h => hne (Option.some.inj (h.symm.trans hl))) hd
      | ok => rcases hn with hn | hn <;> cases hn
      | occupied => rcases hn with hn | hn <;> cases hn
  | unlisted hp hm =>
      cases hc.symm.trans (hmade hm hlt)
      subst hop
      exact .aside fun ht => hp ht.1

/-- A step of a run of visits, seen from the connection of `a`. -/
theorem Stepped.visited (hx : Stepped s op s') (hv : Visits a op)
    (ho : s.object a = some ⟨some i⟩) (hc : s.conn i = some c)
    (hd : s'.conn i = some d) : Visited s a i op c.res d.res := by
  cases hx with
  | new =>
      cases hc.symm.trans hd
      exact .aside id
  | failed _ hx => exact hx.visited hc rfl hd
  | constructed _ _ hx => exact hx.visited hc rfl hd
  | @called _ o' j c' res hop ho' hc' hx =>
      obtain rfl := hv.caller hop
      cases ho.symm.trans ho'
      cases hc.symm.trans hc'
      rcases conn_put_cases hc hd with ⟨-, rfl⟩ | ⟨hne, -⟩
      · exact .own hop hx
      · exact absurd rfl hne
  | deleted ho' =>
      cases hc.symm.trans hd
      refine .aside fun ht => ?_
      cases ho'.symm.trans ht
  | @destructed o' j ev c' s₁ ho' hc' _ hx =>
      have haside : j ≠ i → s.conn i = some d →
          Visited s a i (.delete o' ev) c.res d.res := by
        intro hne hd
        cases hc.symm.trans hd
        refine .aside fun ht => hne ?_
        cases ho'.symm.trans ht
        rfl
      cases hx with
      | closed =>
          obtain ⟨hne, hd⟩ := conn_free_cases hc' hd
          exact haside hne.symm hd
      | evicted =>
          obtain ⟨hne, hd⟩ := conn_free_cases hc' hd
          exact haside hne.symm hd
      | kept _ hx =>
          rcases conn_put_cases hc' hd with ⟨rfl, rfl⟩ | ⟨hne, hd⟩
          · cases hc.symm.trans hc'
            exact .unlocked rfl ho' hx
          · exact haside hne.symm hd

/-- The others leave object `a` as it is. -/
theorem Stepped.object_of_visits {obj : ClientObject} (hx : Stepped s op s')
    (hv : Visits a op) (ho : s.object a = some obj) :
    s'.object a = some obj := by
  have hset : ∀ {s₁ : Php} {o' slot}, s₁.objects = s.objects → o' ≠ a →
      Slots.get (s₁.objects.set o' slot) a = some obj := by
    intro s₁ o' slot hobj hne
    rw [hobj, Slots.get_set_ne hne.symm]
    exact ho
  cases hx with
  | new => exact Slots.get_append_of_some ho
  | failed _ hx =>
      rw [Php.object, hx.objects]
      exact ho
  | constructed _ _ hx => exact hset hx.objects hv
  | called => exact ho
  | deleted => exact hset rfl hv
  | destructed _ _ _ hx => exact hset hx.objects hv

-- =================================================================== runs

/-- What `a` sees of its connection, as an invariant of a run. -/
structure Seen (I : Link → Prop) (a i : Nat) (s : Php) : Prop where
  owned : ∃ slack, Owned slack s
  inOrder : ∀ {i c}, s.conn i = some c → Link.InOrder c.res
  object : s.object a = some ⟨some i⟩
  link : ∀ c, s.conn i = some c → I c.res

/-- What every visit keeps of the connection of `a`, a run of visits
keeps. -/
theorem run_visited {I : Link → Prop} {P : Php → Op → Prop} {ops : List Op}
    (hkeep : ∀ {s op c l'}, s.conn i = some c → Link.InOrder c.res →
      Visited s a i op c.res l' → P s op → I c.res → I l')
    (h : Seen I a i s) (hv : ∀ op ∈ ops, Visits a op)
    (hg : Run.Guarded step P s ops) (hrun : s.run ops = .ok s') :
    Seen I a i s' := by
  induction ops generalizing s with
  | nil =>
      cases hrun
      exact h
  | cons op ops ih =>
      unfold run at hrun
      rw [Run.exec] at hrun
      split at hrun
      next s₁ hstep =>
        obtain ⟨slack, hown⟩ := h.owned
        have hx := stepped hown hstep
        obtain ⟨slack', hown', -⟩ := owned_step hown hx
        have hvop := hv op List.mem_cons_self
        refine ih ⟨⟨slack', hown'⟩, hx.inOrder h.inOrder,
          hx.object_of_visits hvop h.object, fun d hd => ?_⟩
          (fun op hop => hv op (List.mem_cons_of_mem _ hop))
          (hg.2 s₁ hstep) hrun
        obtain ⟨c, hc, -⟩ := hown.held (holders_pos h.object)
        exact hkeep hc (h.inOrder hc) (hx.visited hvop h.object hc hd) hg.1
          (h.link c hc)
      next => cases hrun

/-- An operation of `a`, or one that touches connection `i`. -/
def Uses (s : Php) (a i : Nat) (op : Op) : Prop :=
  op.caller = some a ∨ Touches s i op

/-- No response to a request of `a` is unread when another object touches
the connection. -/
def Unread (a i : Nat) (s : Php) (op : Op) : Prop :=
  Touches s i op → op.Clear ∧ ∀ c, s.conn i = some c →
    ∀ r ∈ c.res.floating, ¬ Link.Asked a c.res.log r

/-- No exchange on the connection is cut short. -/
def Uncut (a i : Nat) (s : Php) (op : Op) : Prop :=
  (Uses s a i op → op.Clear)
    ∧ (Touches s i op → (∀ e, .recvFailed e ∉ op.events)
      ∧ ∀ c, s.conn i = some c → Link.FewOutstanding c.res)

/-- No other holder is destroyed, and `a` does not give up its lock of
`key`. -/
def KeepsLock (key : List UInt8) (a i : Nat) (s : Php) (op : Op) : Prop :=
  (Uses s a i op → op.Clear)
    ∧ (∀ o events, op = .delete o events → ¬ Touches s i op)
    ∧ ∀ o kind events, op = .command o kind events →
      Link.releases key kind = false

/-- `a` sets no timeout, and when another object touches the connection,
the default timeout is in force and a constructor finds it alive. -/
def KeepsTimeout (i : Nat) (s : Php) (op : Op) : Prop :=
  (∀ o timeout events, op ≠ .setTimeout o timeout events)
    ∧ (Touches s i op → ∀ c, s.conn i = some c →
      Link.InForce s.timeout c.res
        ∧ ∀ o persistId events, op = .construct o persistId events →
          ∃ res rest, c.res.checkPersistentConnection s.timeout events
            = some ((.ok, Status.ok), res, rest))

section Kept

variable {l l₀ l' : Link} {n : Nat}

/-- The responses of `a` go to `a`. -/
theorem Visited.toAsker (hx : Visited s a i op c.res l') (hc : s.conn i = some c)
    (hord : Link.InOrder c.res) (hun : Unread a i s op)
    (h : Link.Delivered (Link.ToAsker a) l₀ c.res) :
    Link.Delivered (Link.ToAsker a) l₀ l' := by
  have hexchange : ∀ {scope : Link.Scope}, scope.events = op.events →
      Link.Steps scope c.res l' → Touches s i op →
      Link.Delivered (Link.ToAsker a) l₀ l' := by
    intro scope hev hs ht
    obtain ⟨hclear, hfl⟩ := hun ht
    refine (hs.delivered Link.kept_toAsker (.inl (hclear.scope hev)) hord h
      (.inr ?_)).1
    intro r hr hasked
    exact absurd hasked (hfl c hc r hr)
  cases hx with
  | own hop hs =>
      have hp : op.scope.party = .client a := Op.party_of_caller hop
      exact (hs.delivered Link.kept_toAsker (.inr fun _ _ _ => hp) hord h
        (.inr fun _ _ _ => hp)).1
  | aside => exact h
  | checked hop ht hx =>
      subst hop
      exact hexchange rfl (Link.checkPersistentConnection_steps hx) ht
  | unlocked hop ht hx =>
      subst hop
      exact hexchange rfl (Link.unlockAndDrain_steps hx) ht

/-- And `a` gets no others. -/
theorem Visited.onlyAsked (hx : Visited s a i op c.res l')
    (hc : s.conn i = some c) (hord : Link.InOrder c.res) (hun : Uncut a i s op)
    (h : Link.Delivered (Link.OnlyAsked a n) l₀ c.res
      ∧ Link.Pending (Link.OnlyAsked a n) (.client a) c.res) :
    Link.Delivered (Link.OnlyAsked a n) l₀ l'
      ∧ Link.Pending (Link.OnlyAsked a n) (.client a) l' := by
  obtain ⟨hclear, huncut⟩ := hun
  have hexchange : ∀ {scope : Link.Scope}, scope.party = .extension →
      scope.Clear → Link.Steps scope c.res l' → Link.NothingNew c.res l' →
      Link.Delivered (Link.OnlyAsked a n) l₀ l'
        ∧ Link.Pending (Link.OnlyAsked a n) (.client a) l' := by
    intro scope hp hsc hs hnew
    obtain ⟨hd, -⟩ := hs.delivered Link.kept_onlyAsked (.inl hsc) hord h.1
      (.inr fun r _ hclient => by cases hp.symm.trans hclient)
    obtain ⟨sent, _, hsince, -⟩ := hs.since
    refine ⟨hd, ?_⟩
    rcases h.2 with hv | hp
    · exact .inl (hs.invalid hv)
    · apply hnew.imp id
      intro hsub r hr
      rw [hsince.log]
      exact Link.kept_onlyAsked.mono (hord.request r (hsub r hr))
        (hp r (hsub r hr))
  cases hx with
  | own hop hs =>
      have hp : op.scope.party = .client a := Op.party_of_caller hop
      rw [← hp] at h ⊢
      exact hs.delivered Link.kept_onlyAsked
        (.inl ((hclear (.inl hop)).scope op.scope_events)) hord h.1 h.2
  | aside => exact h
  | checked hop ht hx =>
      have hclear := hclear (.inr ht)
      subst hop
      obtain ⟨hev, hw⟩ := huncut ht
      exact hexchange rfl (hclear.scope rfl) (Link.checkPersistentConnection_steps hx)
        (Link.checkPersistentConnection_uncut hord (hw c hc) ⟨hev, hclear⟩ hx)
  | unlocked hop ht hx =>
      have hclear := hclear (.inr ht)
      subst hop
      obtain ⟨hev, hw⟩ := huncut ht
      exact hexchange rfl (hclear.scope rfl) (Link.unlockAndDrain_steps hx)
        (Link.unlockAndDrain_uncut hord (hw c hc) ⟨hev, hclear⟩ hx)

theorem Visited.keepsLock {key : List UInt8} (hx : Visited s a i op c.res l')
    (hk : KeepsLock key a i s op)
    (h : Link.holdsLock key c.res.log = true) :
    Link.holdsLock key l'.log = true := by
  obtain ⟨hclear, hdelete, hcommand⟩ := hk
  have hexchange : ∀ {scope : Link.Scope}, Uses s a i op →
      scope.events = op.events → Link.Steps scope c.res l' →
      (∀ kind, scope.sends kind → Link.releases key kind = false) →
      Link.holdsLock key l'.log = true := by
    intro scope hu hev hs hkind
    have hsc : scope.Clear := (hclear hu).scope hev
    obtain ⟨sent, _, hsince, hsent, -⟩ := hs.since
    rw [hsince.log]
    exact Link.holdsLock_append h fun q hq =>
      ⟨hkind _ (hsent q hq).kind, (hsent q hq).fate hsc⟩
  cases hx with
  | own hop hs =>
      apply hexchange (.inl hop) op.scope_events hs
      intro kind hsends
      cases op with
      | command o k events =>
          cases hsends
          exact hcommand o _ events rfl
      | recv => exact hsends.elim
      | setTimeout => exact hsends.elim
      | _ => cases hop
  | aside => exact h
  | checked hop ht hx =>
      apply hexchange (.inr ht) (hop ▸ rfl)
        (Link.checkPersistentConnection_steps hx)
      rintro _ rfl
      rfl
  | unlocked hop ht => exact absurd ht (hdelete _ _ hop)

theorem Visited.keepsTimeout {rcv snd : Int}
    (hx : Visited s a i op c.res l') (hc : s.conn i = some c)
    (hk : KeepsTimeout i s op)
    (h : c.res.rcvTimeout = rcv ∧ c.res.sndTimeout = snd) :
    l'.rcvTimeout = rcv ∧ l'.sndTimeout = snd := by
  cases hx with
  | own hop hs =>
      have hn : ¬ op.scope.timeouts := by
        cases op with
        | setTimeout o timeout events => exact absurd rfl (hk.1 o timeout events)
        | recv => exact id
        | command => exact id
        | _ => cases hop
      exact ⟨(hs.timeouts hn).1.trans h.1, (hs.timeouts hn).2.trans h.2⟩
  | aside => exact h
  | checked hop ht hx =>
      obtain ⟨hforce, halive⟩ := hk.2 ht c hc
      obtain ⟨res, rest, hx'⟩ := halive _ _ _ hop
      cases hx.symm.trans hx'
      have hforce' := Link.checkPersistentConnection_inForce hx
      exact ⟨hforce'.1.trans (hforce.1.symm.trans h.1),
        hforce'.2.trans (hforce.2.symm.trans h.2)⟩
  | unlocked hop ht hx =>
      obtain ⟨hforce, -⟩ := hk.2 ht c hc
      have hforce' := Link.unlockAndDrain_inForce hforce hx
      exact ⟨hforce'.1.trans (hforce.1.symm.trans h.1),
        hforce'.2.trans (hforce.2.symm.trans h.2)⟩

end Kept

/-- How a client that holds a connection fares while others come and go. -/
structure Fares (a i : Nat) (s : Php) (ops : List Op) (l l' : Link) : Prop where
  toAsker : Run.Guarded step (Unread a i) s ops →
    Link.Delivered (Link.ToAsker a) l l'
  onlyAsked : Run.Guarded step (Uncut a i) s ops →
    Link.Delivered (Link.OnlyAsked a l.log.length) l l'
  locks : ∀ key, Run.Guarded step (KeepsLock key a i) s ops →
    Link.holdsLock key l.log = true → Link.holdsLock key l'.log = true
  timeout : Run.Guarded step (KeepsTimeout i) s ops →
    l'.rcvTimeout = l.rcvTimeout ∧ l'.sndTimeout = l.sndTimeout

/-- Every connection of a process is in order, and owned. -/
theorem run_inOrder (ini : Ini) {ops : List Op}
    (hrun : (start ini).run ops = .ok s) : (∃ slack, Owned slack s)
      ∧ ∀ i c, s.conn i = some c → Link.InOrder c.res := by
  refine Run.exec_inv (P := fun _ _ => True) (I := fun s =>
    (∃ slack, Owned slack s) ∧ ∀ i c, s.conn i = some c → Link.InOrder c.res)
    ?_ ⟨⟨_, owned_start ini⟩, fun i c hc => by cases hc⟩ Run.guarded_true hrun
  rintro s op s' ⟨⟨slack, hown⟩, hord⟩ - hstep
  have hx := stepped hown hstep
  obtain ⟨slack', hown', -⟩ := owned_step hown hx
  exact ⟨⟨slack', hown'⟩, fun i d hd => hx.inOrder (hord _ _) hd⟩

/-- A client that shares a connection keeps what others do not touch. -/
theorem run_sharing (ini : Ini) {ops₀ ops : List Op} {s s' : Php} {a i : Nat}
    {c : PhpConn} (hrun₀ : (start ini).run ops₀ = .ok s)
    (ho : s.object a = some ⟨some i⟩) (hc : s.conn i = some c)
    (hv : ∀ op ∈ ops, Visits a op) (hrun : s.run ops = .ok s') :
    s'.object a = some ⟨some i⟩ ∧ ∃ c', s'.conn i = some c'
      ∧ Fares a i s ops c.res c'.res := by
  obtain ⟨hown, hord⟩ := run_inOrder ini hrun₀
  have hseen : ∀ {I : Link → Prop}, I c.res → Seen I a i s :=
    fun hI => ⟨hown, hord _ _, ho, fun d hd => by cases hc.symm.trans hd; exact hI⟩
  have hend : Seen (fun _ => True) a i s' :=
    run_visited (fun _ _ _ _ _ => trivial) (hseen trivial) hv
      Run.guarded_true hrun
  obtain ⟨slack', hown'⟩ := hend.owned
  obtain ⟨c', hc', -⟩ := hown'.held (holders_pos hend.object)
  refine ⟨hend.object, c', hc', ?_, ?_, ?_, ?_⟩
  · intro hg
    exact (run_visited (fun hc hord hx hun h => hx.toAsker hc hord hun h)
      (hseen (Link.Delivered.refl _)) hv hg hrun).link c' hc'
  · intro hg
    have hstart : Link.Delivered (Link.OnlyAsked a c.res.log.length) c.res c.res
        ∧ Link.Pending (Link.OnlyAsked a c.res.log.length) (.client a) c.res :=
      ⟨Link.Delivered.refl _,
        .inr fun r hr _ => .inr ((hord i c hc).request r hr)⟩
    exact ((run_visited (fun hc hord hx hun h => hx.onlyAsked hc hord hun h)
      (hseen hstart) hv hg hrun).link c' hc').1
  · intro key hg hlock
    exact (run_visited (fun _ _ hx hk h => hx.keepsLock hk h)
      (hseen hlock) hv hg hrun).link c' hc'
  · intro hg
    exact (run_visited (fun hc _ hx hk h => hx.keepsTimeout hc hk h)
      (I := fun l => l.rcvTimeout = c.res.rcvTimeout
        ∧ l.sndTimeout = c.res.sndTimeout)
      (hseen ⟨rfl, rfl⟩) hv hg hrun).link c' hc'

/-- Object 0 sets a timeout and locks a key; object 1 comes and goes. -/
def lockAndVisit : List Op :=
  [.new, .construct 0 [97] [.connected, .sockopt true, .sockopt true],
    .setTimeout 0 30 [.sockopt true, .sockopt true],
    .command 0 (.lock [1] false) [.sent [Status.ok]], .new,
    .construct 1 [97] [.sockopt true, .sockopt true, .sent [Status.ok],
      .reply, .reply, .sockopt true, .sockopt true],
    .delete 1 [.sockopt true, .sockopt true, .sent [Status.ok], .reply]]

/-- Object 1 comes and gives up; object 0 receives the response. -/
def visitCutShort : List Op :=
  [.new, .construct 0 [97] [.connected, .sockopt true, .sockopt true], .new,
    .construct 1 [97] [.sockopt true, .sockopt true, .sent [Status.ok],
      .recvFailed ⟨.systemError, by decide⟩],
    .recv 0 [.reply]]

/-- Object 0 sends a part of a set; the noop of object 1 completes it, and
its constructor receives the answer, and then nothing. -/
def visitTorn : List Op :=
  [.new, .construct 0 [97] [.connected, .sockopt true, .sockopt true],
    .command 0 .other [.sendTorn], .new,
    .construct 1 [97] [.sockopt true, .sockopt true,
      .garbled true [⟨1, Status.ok, 0⟩], .reply,
      .recvFailed ⟨.systemError, by decide⟩]]

/-- A response, the lock and the timeout of a client are gone when another
one has come and gone; it gets a response it did not ask for; and a set of
which a part was sent is completed and answered to another one. -/
theorem sharing_disturbs :
    (∃ s c, (start ⟨0, 5, true⟩).run lockAndVisit = .ok s
        ∧ s.object 0 = some ⟨some 0⟩ ∧ s.conn 0 = some c
        ∧ (⟨1, Status.ok, 0⟩, .extension) ∈ c.res.taken
        ∧ Link.Asked 0 c.res.log ⟨1, Status.ok, 0⟩
        ∧ Link.holdsLock [1] c.res.log = false ∧ c.res.rcvTimeout = 5)
      ∧ (∃ s c, (start ⟨0, 5, true⟩).run visitCutShort = .ok s
        ∧ s.conn 0 = some c
        ∧ (⟨1, Status.ok, 0⟩, .client 0) ∈ c.res.taken
        ∧ ¬ Link.Asked 0 c.res.log ⟨1, Status.ok, 0⟩)
      ∧ ∃ s c, (start ⟨0, 5, true⟩).run visitTorn = .ok s
        ∧ s.conn 0 = some c
        ∧ (⟨1, Status.ok, 0⟩, .extension) ∈ c.res.taken
        ∧ Link.Asked 0 c.res.log ⟨1, Status.ok, 0⟩ := by
  refine ⟨?_, ?_, ?_⟩
  · have hends := Run.exists_of_ends
      (r := (start ⟨0, 5, true⟩).run lockAndVisit)
      (p := fun s => decide (s.object 0 = some ⟨some 0⟩)
        && (s.conn 0).any fun c : PhpConn => decide
          ((⟨1, Status.ok, 0⟩, .extension) ∈ c.res.taken
            ∧ c.res.log[0]?
              = some ⟨.lock [1] false, .client 0, .complete, [Status.ok]⟩
            ∧ Link.holdsLock [1] c.res.log = false ∧ c.res.rcvTimeout = 5))
      (by decide +kernel)
    obtain ⟨s, hrun, hs⟩ := hends
    simp only [Bool.and_eq_true, decide_eq_true_eq, Option.any_eq_true] at hs
    obtain ⟨ho, c, hc, htaken, hlog, hlock, ht⟩ := hs
    exact ⟨s, c, hrun, ho, hc, htaken, ⟨_, hlog, rfl⟩, hlock, ht⟩
  · have hends := Run.exists_of_ends
      (r := (start ⟨0, 5, true⟩).run visitCutShort)
      (p := fun s => (s.conn 0).any fun c : PhpConn => decide
        ((⟨1, Status.ok, 0⟩, .client 0) ∈ c.res.taken
          ∧ c.res.log[0]?
            = some ⟨.noop, .extension, .complete, [Status.ok]⟩))
      (by decide +kernel)
    obtain ⟨s, hrun, hs⟩ := hends
    simp only [decide_eq_true_eq, Option.any_eq_true] at hs
    obtain ⟨c, hc, htaken, hlog⟩ := hs
    refine ⟨s, c, hrun, hc, htaken, ?_⟩
    rintro ⟨q, hq, hsender⟩
    cases hlog.symm.trans hq
    cases hsender
  · have hends := Run.exists_of_ends
      (r := (start ⟨0, 5, true⟩).run visitTorn)
      (p := fun s => (s.conn 0).any fun c : PhpConn => decide
        ((⟨1, Status.ok, 0⟩, .extension) ∈ c.res.taken
          ∧ c.res.log[0]? = some ⟨.other, .client 0, .lost, []⟩))
      (by decide +kernel)
    obtain ⟨s, hrun, hs⟩ := hends
    simp only [decide_eq_true_eq, Option.any_eq_true] at hs
    obtain ⟨c, hc, htaken, hlog⟩ := hs
    exact ⟨s, c, hrun, hc, htaken, ⟨_, hlog, rfl⟩⟩

/-- Nothing is received in vain or sent behind a torn frame. -/
def smooth : Event → Bool
  | .garbled .. | .recvFailed _ => false
  | _ => true

/-- A constructor finds the connection as it should be, and alive. -/
def findsAlive (s : Php) (events : List Event) (c : PhpConn) : Bool :=
  decide (c.res.floating = [] ∧ Link.InForce s.timeout c.res)
    && (c.res.checkPersistentConnection s.timeout events).any fun x =>
      decide (x.1 = (.ok, Status.ok))

/-- What disturbs neither object 0 on connection 0 nor its lock of `[1]`. -/
def calm (s : Php) : Op → Bool
  | .setTimeout .. | .delete .. => false
  | .command _ kind events =>
      events.all smooth && !Link.releases [1] kind
  | .construct _ _ events =>
      events.all smooth && (s.conn 0).all (findsAlive s events)
  | .recv _ events => events.all smooth
  | .new => true

theorem calm_events (h : calm s op = true) :
    op.Clear ∧ ∀ e, .recvFailed e ∉ op.events := by
  have hall : op.events.all smooth = true := by
    cases op with
    | new => rfl
    | construct => exact (Bool.and_eq_true_iff.mp h).1
    | command => exact (Bool.and_eq_true_iff.mp h).1
    | recv => exact h
    | setTimeout => cases h
    | delete => cases h
  rw [List.all_eq_true] at hall
  exact ⟨fun ok replies hev => Bool.noConfusion (hall _ hev),
    fun e hev => Bool.noConfusion (hall _ hev)⟩

/-- Only a constructor touches a connection in a calm run, and finds it
alive. -/
theorem calm_touches (h : calm s op = true) (ht : Touches s 0 op)
    (hc : s.conn 0 = some c) : c.res.floating = []
      ∧ Link.InForce s.timeout c.res
      ∧ ∀ o persistId events, op = .construct o persistId events →
        ∃ res rest, c.res.checkPersistentConnection s.timeout events
          = some ((.ok, Status.ok), res, rest) := by
  cases op with
  | construct o persistId events =>
      have hx := (Bool.and_eq_true_iff.mp h).2
      rw [hc] at hx
      simp only [Option.all_some, findsAlive, Bool.and_eq_true,
        decide_eq_true_eq, Option.any_eq_true] at hx
      obtain ⟨⟨hfl, hforce⟩, ⟨x, res, rest⟩, hcheck, rfl⟩ := hx
      refine ⟨hfl, hforce, fun o' persistId' events' heq => ?_⟩
      cases heq
      exact ⟨res, rest, hcheck⟩
  | delete => cases h
  | _ => exact ht.elim

theorem calm_keeps (h : calm s op = true) : Unread 0 0 s op
    ∧ Uncut 0 0 s op ∧ KeepsLock [1] 0 0 s op ∧ KeepsTimeout 0 s op := by
  obtain ⟨hclear, hrecv⟩ := calm_events h
  have hempty : Touches s 0 op → ∀ c, s.conn 0 = some c →
      ∀ r, r ∉ c.res.floating := by
    intro ht c hc r hr
    rw [(calm_touches h ht hc).1] at hr
    cases hr
  refine ⟨fun ht => ⟨hclear, fun c hc r hr => absurd hr (hempty ht c hc r)⟩,
    ⟨fun _ => hclear,
      fun ht => ⟨hrecv, fun c hc r hr => absurd hr (hempty ht c hc r)⟩⟩,
    ⟨fun _ => hclear, ?_, ?_⟩, ?_, fun ht c hc => (calm_touches h ht hc).2⟩
  · rintro o events rfl _
    cases h
  · rintro o kind events rfl
    simpa using (Bool.and_eq_true_iff.mp h).2
  · rintro o timeout events rfl
    cases h

/-- Object 0 holds a lock and a timeout. -/
def lockAndStay : List Op :=
  [.new, .construct 0 [97] [.connected, .sockopt true, .sockopt true],
    .setTimeout 0 5 [.sockopt true, .sockopt true],
    .command 0 (.lock [1] true) [.sent []]]

/-- Object 1 comes and checks the connection, and object 0 goes on. -/
def visit : List Op :=
  [.new, .construct 1 [97] [.sockopt true, .sockopt true, .sent [Status.ok],
      .reply, .sockopt true, .sockopt true],
    .command 0 .other [.sent [Status.ok]], .recv 0 [.reply]]

theorem run_sharing_calm :
    ∃ s s' c c', (start ⟨0, 5, true⟩).run lockAndStay = .ok s
      ∧ s.run visit = .ok s' ∧ s.conn 0 = some c ∧ s'.conn 0 = some c'
      ∧ Fares 0 0 s visit c.res c'.res
      ∧ Link.holdsLock [1] c'.res.log = true ∧ c'.res.rcvTimeout = 5 := by
  obtain ⟨s, hrun₀, hs⟩ := Run.exists_of_ends
    (r := (start ⟨0, 5, true⟩).run lockAndStay)
    (p := fun s => decide (s.object 0 = some ⟨some 0⟩)
      && (s.conn 0).any (fun c : PhpConn => decide
        (Link.holdsLock [1] c.res.log = true ∧ c.res.rcvTimeout = 5))
      && Run.checks step calm s visit && Run.ends (s.run visit) fun _ => true)
    (by decide +kernel)
  simp only [Bool.and_eq_true, decide_eq_true_eq, Option.any_eq_true] at hs
  obtain ⟨⟨⟨ho, c, hc, hlock, ht⟩, hcalm⟩, hends⟩ := hs
  obtain ⟨s', hrun, -⟩ := Run.exists_of_ends hends
  have hg := Run.guarded_of_checks (fun _ _ => calm_keeps) hcalm
  have hv : ∀ op ∈ visit, Visits 0 op := by
    simp [visit, Visits, Op.caller]
  obtain ⟨-, c', hc', hfares⟩ := run_sharing _ hrun₀ ho hc hv hrun
  refine ⟨s, s', c, c', hrun₀, hrun, hc, hc', hfares, ?_, ?_⟩
  · exact hfares.locks [1] (hg.mono fun _ _ h => h.2.2.1) hlock
  · exact (hfares.timeout (hg.mono fun _ _ h => h.2.2.2)).1.trans ht

end Php

end Yrmcds
