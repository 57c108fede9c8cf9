/-
What the calls on one connection deliver, and what an exchange of the
extension leaves of it.

A call receives for its party and adds to the log (`Since`). `Kept` is a
property of responses and receivers that the log keeps, so that what may
still be received decides what will be (`Steps.delivered`). An exchange
that is not cut short leaves no response of its own (`Exchanged.nothingNew`),
and that of a destructor keeps the timeout it sets (`InForce`).
-/
import Yrmcds.Proofs.Client.Handover

namespace Yrmcds

namespace Link

variable {scope : Scope} {l l₀ l' : Link} {timeout : Int} {a : Nat}
  {events rest : List Event} {r : Reply} {key : List UInt8}

/-- The request a response answers was sent by client `a`. -/
def Asked (a : Nat) (log : List SentRequest) (r : Reply) : Prop :=
  ∃ q, log[r.request]? = some q ∧ q.sender = .client a

/-- The answers to a request that succeeds. -/
def success (silent : Bool) : List Status := if silent then [] else [Status.ok]

/-- The locks a connection holds, once the server has got this far. What it
makes of a garbled request is not known. -/
def holdsLock (key : List UInt8) : List SentRequest → Bool :=
  List.foldl (fun held q =>
    match q.fate with
    | .lost => held
    | .garbled => false
    | .complete =>
        match q.kind with
        | .lock k silent =>
            held || (decide (k = key) && decide (q.answers = success silent))
        | .unlock k silent =>
            held && !(decide (k = key) && decide (q.answers = success silent))
        | .unlockAll _ | .flush | .quit => false
        | .noop | .other => held) false

/-- A request that may give up a lock of `key`. -/
def releases (key : List UInt8) : Kind → Bool
  | .unlock k _ => k = key
  | .unlockAll _ | .flush | .quit => true
  | .noop | .lock .. | .other => false

/-- What was sent and received since `l₀`. -/
structure Since (l₀ l : Link) (sent : List SentRequest)
    (later : List (Reply × Party)) : Prop where
  log : l.log = l₀.log ++ sent
  taken : l.taken = l₀.taken ++ later

/-- Nothing is sent behind a torn frame. -/
def Scope.Clear (scope : Scope) : Prop :=
  ∀ ok replies, .garbled ok replies ∉ scope.events

/-- A request that a call may send. -/
structure Scope.MaySend (scope : Scope) (q : SentRequest) : Prop where
  kind : scope.sends q.kind
  sender : q.sender = scope.party
  fate : scope.Clear → q.fate ≠ .garbled

theorem Step.since (hs : Step scope l l') : ∃ sent later,
    Since l l' sent later ∧ (∀ q ∈ sent, scope.MaySend q)
      ∧ ∀ x ∈ later, x.2 = scope.party := by
  have hone : ∀ {q : SentRequest}, scope.MaySend q →
      ∀ x ∈ [q], scope.MaySend x := by
    intro q hq x hx
    cases List.mem_singleton.mp hx
    exact hq
  cases hs with
  | timeouts => exact ⟨[], [], ⟨by simp, by simp⟩, nofun, nofun⟩
  | failed => exact ⟨[], [], ⟨by simp, by simp⟩, nofun, nofun⟩
  | lost hk =>
      exact ⟨_, [], ⟨rfl, by simp⟩, hone ⟨hk, rfl, fun _ => nofun⟩, nofun⟩
  | sent hk =>
      exact ⟨_, [], ⟨rfl, by simp⟩, hone ⟨hk, rfl, fun _ => nofun⟩, nofun⟩
  | garbled hk hev =>
      exact ⟨_, [], ⟨rfl, by simp⟩,
        hone ⟨hk, rfl, fun hc => absurd hev (hc _ _)⟩, nofun⟩
  | received =>
      refine ⟨[], _, ⟨by simp, rfl⟩, nofun, fun x hx => ?_⟩
      cases List.mem_singleton.mp hx
      rfl

/-- What a call sends and receives. -/
theorem Steps.since (hs : Steps scope l l') : ∃ sent later,
    Since l l' sent later ∧ (∀ q ∈ sent, scope.MaySend q)
      ∧ ∀ x ∈ later, x.2 = scope.party := by
  refine hs.keep (I := fun l' => ∃ sent later, Since l l' sent later
    ∧ (∀ q ∈ sent, scope.MaySend q) ∧ ∀ x ∈ later, x.2 = scope.party) ?_
    ⟨[], [], ⟨by simp, by simp⟩, nofun, nofun⟩
  rintro l₁ l₂ hs ⟨sent, later, hsince, hsent, hlater⟩
  obtain ⟨sent', later', hsince', hsent', hlater'⟩ := hs.since
  refine ⟨sent ++ sent', later ++ later', ⟨?_, ?_⟩, ?_, ?_⟩
  · rw [hsince'.log, hsince.log, List.append_assoc]
  · rw [hsince'.taken, hsince.taken, List.append_assoc]
  · exact fun q hq => (List.mem_append.mp hq).elim (hsent q) (hsent' q)
  · exact fun x hx => (List.mem_append.mp hx).elim (hlater x) (hlater' x)

/-- An invalid connection stays invalid. -/
theorem Steps.invalid (hs : Steps scope l l') (hv : l.invalid = true) :
    l'.invalid = true := by
  refine hs.keep (I := fun l => l.invalid = true) (fun hs hv => ?_) hv
  cases hs with
  | failed _ hn => exact absurd hv hn
  | _ => exact hv

-- =============================================================== delivery

/-- A property of a response and its receiver that the log keeps. -/
structure Kept (P : List SentRequest → Reply → Party → Prop) : Prop where
  mono : ∀ {log sent r p}, r.request < log.length → P log r p →
    P (log ++ sent) r p
  new : ∀ {log q r p}, q.sender = p → r.request = log.length →
    P (log ++ [q]) r p

/-- What was received since `l₀` went to those it should go to. -/
def Delivered (P : List SentRequest → Reply → Party → Prop) (l₀ l : Link) :
    Prop :=
  ∃ sent later, Since l₀ l sent later
    ∧ ∀ r p, (r, p) ∈ later → r.request < l.log.length ∧ P l.log r p

/-- What may still be received by `p`, if anything. -/
def Pending (P : List SentRequest → Reply → Party → Prop) (p : Party)
    (l : Link) : Prop :=
  l.invalid = true ∨ ∀ r ∈ l.floating, P l.log r p

section Delivery

variable {P : List SentRequest → Reply → Party → Prop}

theorem Delivered.refl (l : Link) : Delivered P l l :=
  ⟨[], [], ⟨by simp, by simp⟩, nofun⟩

/-- The log grows, and nothing is received. -/
theorem Delivered.grow (hP : Kept P) (h : Delivered P l₀ l)
    {sent : List SentRequest} (hlog : l'.log = l.log ++ sent)
    (htaken : l'.taken = l.taken) : Delivered P l₀ l' := by
  obtain ⟨sent₀, later, hsince, hlater⟩ := h
  refine ⟨sent₀ ++ sent, later, ⟨?_, htaken.trans hsince.taken⟩, ?_⟩
  · rw [hlog, hsince.log, List.append_assoc]
  · intro r p hr
    obtain ⟨hlt, hp⟩ := hlater r p hr
    rw [hlog, List.length_append]
    exact ⟨by omega, hP.mono hlt hp⟩

/-- What comes of a request behind a torn frame may be received. -/
def Tolerates (P : List SentRequest → Reply → Party → Prop) (scope : Scope) :
    Prop :=
  scope.Clear ∨ ∀ log r, P log r scope.party

theorem Step.delivered (hP : Kept P) (ht : Tolerates P scope)
    (hs : Step scope l l')
    (h : InOrder l ∧ Delivered P l₀ l ∧ Pending P scope.party l) :
    InOrder l' ∧ Delivered P l₀ l' ∧ Pending P scope.party l' := by
  obtain ⟨hord, hd, hpend⟩ := h
  refine ⟨hs.inOrder hord, ?_⟩
  cases hs with
  | timeouts => exact ⟨hd.grow hP (List.append_nil _).symm rfl, hpend⟩
  | failed _ hv =>
      exact ⟨hd.grow hP (List.append_nil _).symm rfl,
        .inr (hpend.resolve_left hv)⟩
  | lost =>
      refine ⟨hd.grow hP rfl rfl, hpend.imp id fun hp r hr => ?_⟩
      exact hP.mono (hord.request r hr) (hp r hr)
  | garbled _ hev =>
      have hall := ht.resolve_left fun hc => hc _ _ hev
      exact ⟨hd.grow hP rfl rfl, .inr fun r _ => hall _ r⟩
  | sent =>
      refine ⟨hd.grow hP rfl rfl, hpend.imp id fun hp r hr => ?_⟩
      simp only [List.mem_append, List.mem_map] at hr
      rcases hr with hr | ⟨status, _, rfl⟩
      · exact hP.mono (hord.request r hr) (hp r hr)
      · exact hP.new rfl rfl
  | @received r floating hv hf =>
      have hp := hpend.resolve_left hv
      have hr : r ∈ l.floating := hf ▸ List.mem_cons_self
      obtain ⟨sent₀, later, hsince, hlater⟩ := hd
      refine ⟨⟨sent₀, later ++ [(r, scope.party)],
        ⟨hsince.log, ?_⟩, fun r' p' hr' => ?_⟩, .inr fun r' hr' => ?_⟩
      · rw [hsince.taken, List.append_assoc]
      · rcases List.mem_append.mp hr' with hr' | hr'
        · exact hlater r' p' hr'
        · cases List.mem_singleton.mp hr'
          exact ⟨hord.request r hr, hp r hr⟩
      · exact hp r' (hf ▸ List.mem_cons_of_mem _ hr')

/-- What a call receives, it may receive. -/
theorem Steps.delivered (hP : Kept P) (ht : Tolerates P scope)
    (hs : Steps scope l l') (hord : InOrder l) (hd : Delivered P l₀ l)
    (hpend : Pending P scope.party l) :
    Delivered P l₀ l' ∧ Pending P scope.party l' :=
  (hs.keep (Step.delivered hP ht) ⟨hord, hd, hpend⟩).2

end Delivery

theorem asked_append {log sent : List SentRequest}
    (hr : r.request < log.length) :
    Asked a (log ++ sent) r ↔ Asked a log r := by
  rw [Asked, Asked, List.getElem?_append_left hr]

theorem asked_new {log : List SentRequest} {q : SentRequest}
    (hr : r.request = log.length) :
    Asked a (log ++ [q]) r ↔ q.sender = .client a := by
  rw [Asked, hr]
  simp

/-- The responses to the requests of `a` go to `a`. -/
def ToAsker (a : Nat) (log : List SentRequest) (r : Reply) (p : Party) :
    Prop :=
  Asked a log r → p = .client a

/-- Since there were `n` requests, `a` gets responses to its own only. -/
def OnlyAsked (a n : Nat) (log : List SentRequest) (r : Reply) (p : Party) :
    Prop :=
  p = .client a → Asked a log r ∨ r.request < n

theorem kept_toAsker : Kept (ToAsker a) where
  mono hlt hp hasked := hp ((asked_append hlt).mp hasked)
  new hq hr hasked := hq.symm.trans ((asked_new hr).mp hasked)

theorem kept_onlyAsked {n : Nat} : Kept (OnlyAsked a n) where
  mono hlt hp ha := (hp ha).imp (asked_append hlt).mpr id
  new hq hr ha := .inl ((asked_new hr).mpr (hq.trans ha))

-- ============================================================== exchanges

/-- Nothing fails, and nothing is sent behind a torn frame. -/
structure Uncut (events : List Event) : Prop where
  received : ∀ e, .recvFailed e ∉ events
  clear : ∀ ok replies, .garbled ok replies ∉ events

theorem Uncut.later (h : Uncut events) (hr : rest <:+ events) : Uncut rest where
  received e he := h.received e (hr.subset he)
  clear ok replies hg := h.clear ok replies (hr.subset hg)

theorem TimeoutSet.suffix {e : Error}
    (h : TimeoutSet timeout l events e l' rest) : rest <:+ events :=
  (h.steps (show (Scope.checking events).timeouts from trivial)).2

theorem Sent.suffix {kind : Kind} {p : Party} {x : Except Failure UInt32}
    (h : Sent kind p l events x l' rest) : rest <:+ events := by
  let scope : Scope := ⟨(kind = ·), False, p, events⟩
  have hsteps : Steps scope l l' ∧ rest <:+ events :=
    h.steps rfl (List.suffix_refl _)
  exact hsteps.2

/-- A request that is sent well is not sent behind a torn frame. -/
theorem Sent.whole {kind : Kind} {p : Party} {serial : UInt32}
    (hev : Uncut events) (h : Sent kind p l events (.ok serial) l' rest) :
    l.torn = none := by
  cases h with
  | complete ht => exact ht
  | garbled => exact absurd List.mem_cons_self (hev.clear _ _)

/-- A request that is not sent has no responses. -/
theorem Sent.error {kind : Kind} {p : Party} {e : Failure}
    (hev : Uncut events) (h : Sent kind p l events (.error e) l' rest) :
    l'.floating = l.floating := by
  cases h with
  | refused => rfl
  | lost => rfl
  | garbled => exact absurd List.mem_cons_self (hev.clear _ _)

/-- A drain loop that meets no failure of `yrmcds_recv` stops early only
on an invalid connection. -/
theorem DrainedUntil.error {serial : UInt32} {x : Except Failure Reply}
    {e : Failure} (hev : Uncut events)
    (h : DrainedUntil serial l events x l' rest) (hx : x = .error e) :
    l'.invalid = true := by
  induction h with
  | failed hr =>
      cases hr with
      | invalid hv => exact hv
      | failed => exact absurd List.mem_cons_self (hev.received _)
  | skipped hr _ _ ih =>
      cases hr with
      | reply => exact ih (hev.later (List.suffix_cons ..)) hx
  | found => cases hx

/-- Nothing new floats on a connection, unless it is invalid. -/
def NothingNew (l l' : Link) : Prop :=
  l'.invalid = true ∨ ∀ r ∈ l'.floating, r ∈ l.floating

theorem NothingNew.of_eq (hf : l'.floating = l.floating) : NothingNew l l' :=
  .inr fun _ hr => hf ▸ hr

/-- An exchange that is not cut short leaves no response of its own. -/
theorem Exchanged.nothingNew {kind : Kind} {x : Except Failure Reply}
    (hord : InOrder l) (hw : FewOutstanding l)
    (hk : ∀ answers, kind.allows answers = true → answers.length = 1)
    (hev : Uncut events) (h : Exchanged kind l events x l' rest) :
    NothingNew l l' := by
  cases h with
  | unsent hs => exact .of_eq (hs.error hev)
  | drained hs hd =>
      cases x with
      | ok r =>
          obtain ⟨-, rfl⟩ :=
            Exchanged.eq hord hw (hs.whole hev) hk (.drained hs hd)
          exact .inr nofun
      | error e => exact .inl (hd.error (hev.later hs.suffix) rfl)

/-- The same behind a `yrmcds_set_timeout`. -/
theorem TimeoutSet.nothingNew {kind : Kind} {e : Error}
    {x : Except Failure Reply} {l₁ : Link} {events₁ : List Event}
    (hord : InOrder l) (hw : FewOutstanding l)
    (hk : ∀ answers, kind.allows answers = true → answers.length = 1)
    (hev : Uncut events) (hset : TimeoutSet timeout l events e l₁ events₁)
    (h : Exchanged kind l₁ events₁ x l' rest) : NothingNew l l' := by
  obtain ⟨rcv, snd, rfl⟩ := hset.frame
  have hnew : NothingNew { l with rcvTimeout := rcv, sndTimeout := snd } l' :=
    h.nothingNew (hord.timeouts rcv snd) hw hk (hev.later hset.suffix)
  exact hnew

theorem unlockAndDrain_uncut {good : Bool} (hord : InOrder l)
    (hw : FewOutstanding l) (hev : Uncut events)
    (h : l.unlockAndDrain timeout events = some (good, l', rest)) :
    NothingNew l l' := by
  obtain ⟨e, l₁, events₁, x, hset, hx, -⟩ := unlockAndDrain_cases h
  exact hset.nothingNew hord hw Kind.unlockAll_once hev hx

theorem checkPersistentConnection_uncut {x : Error × Status}
    (hord : InOrder l) (hw : FewOutstanding l)
    (hev : Uncut events)
    (h : l.checkPersistentConnection timeout events = some (x, l', rest)) :
    NothingNew l l' := by
  cases checkPersistentConnection_cases h with
  | unset hset =>
      obtain ⟨_, _, rfl⟩ := hset.frame
      exact .of_eq rfl
  | broken hset hx => exact hset.nothingNew hord hw Kind.noop_once hev hx
  | alive hset hx hset' =>
      have hnew := hset.nothingNew hord hw Kind.noop_once hev hx
      obtain ⟨_, _, rfl⟩ := hset'.frame
      exact hnew

-- ================================================================ timeouts

/-- A call that sets no timeouts. -/
theorem Steps.timeouts (hs : Steps scope l l') (hn : ¬ scope.timeouts) :
    l'.rcvTimeout = l.rcvTimeout ∧ l'.sndTimeout = l.sndTimeout := by
  refine hs.keep (I := fun l' => l'.rcvTimeout = l.rcvTimeout
    ∧ l'.sndTimeout = l.sndTimeout) (fun hs h => ?_) ⟨rfl, rfl⟩
  cases hs with
  | timeouts _ _ ht => exact absurd ht hn
  | _ => exact h

/-- Both timeouts are `timeout`. -/
def InForce (timeout : Int) (l : Link) : Prop :=
  l.rcvTimeout = timeout ∧ l.sndTimeout = timeout

instance : Decidable (InForce timeout l) := inferInstanceAs (Decidable (_ ∧ _))

/-- The exchange of a destructor keeps the timeout it sets. -/
theorem unlockAndDrain_inForce {good : Bool} (hl : InForce timeout l)
    (h : l.unlockAndDrain timeout events = some (good, l', rest)) :
    InForce timeout l' := by
  obtain ⟨e, l₁, events₁, x, hset, hx, -⟩ := unlockAndDrain_cases h
  have hl₁ : InForce timeout l₁ := by
    cases hset with
    | negative => exact hl
    | neither => exact hl
    | receiving => exact ⟨rfl, hl.2⟩
    | both => exact ⟨rfl, rfl⟩
  let scope : Scope := ⟨(.unlockAll false = ·), False, .extension, events⟩
  obtain ⟨hsteps, -⟩ : Steps scope l₁ l' ∧ _ := hx.steps rfl rfl hset.suffix
  exact ⟨(hsteps.timeouts id).1.trans hl₁.1, (hsteps.timeouts id).2.trans hl₁.2⟩

theorem checkPersistentConnection_inForce
    (h : l.checkPersistentConnection timeout events
      = some ((.ok, Status.ok), l', rest)) : InForce timeout l' := by
  obtain ⟨_, _, _, _, -, rfl⟩ := checkPersistentConnection_ok h
  exact ⟨rfl, rfl⟩

-- =================================================================== locks

theorem holdsLock_append {log sent : List SentRequest}
    (h : holdsLock key log = true)
    (hsent : ∀ q ∈ sent, releases key q.kind = false ∧ q.fate ≠ .garbled) :
    holdsLock key (log ++ sent) = true := by
  rw [holdsLock, List.foldl_append]
  change List.foldl _ (holdsLock key log) sent = true
  rw [h]
  clear h
  induction sent with
  | nil => rfl
  | cons q sent ih =>
      obtain ⟨hkind, hfate⟩ := hsent q List.mem_cons_self
      have ih := ih fun q hq => hsent q (List.mem_cons_of_mem _ hq)
      rw [List.foldl_cons]
      convert ih using 2
      split
      next => rfl
      next hg => exact absurd hg hfate
      next =>
        split
        next => rfl
        next k silent hk =>
          have hne : k ≠ key := by simpa [hk, releases] using hkind
          simp [hne]
        next hk => simp [hk, releases] at hkind
        next hk => simp [hk, releases] at hkind
        next hk => simp [hk, releases] at hkind
        next => rfl
        next => rfl

end Link

end Yrmcds
