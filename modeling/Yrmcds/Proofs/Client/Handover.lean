/-
A persistent connection that nobody holds is clean, and so is handed over
clean.

The last destructor that let go of a connection did so after an unlockall
whose response it waited for; otherwise it evicted the connection. From
then on nobody but a constructor touches it. So in every state reached, a
connection with count zero has nothing floating, the default timeout, and
an answered unlockall behind all lock requests (`Tidy`), and a constructor
that checks the connection first keeps it that way.

# Assumptions

`Faithful` are the assumptions on the environment: no request has been sent
in part, `setsockopt` succeeds, and fewer than 2^32 requests are
outstanding on each connection, counted from the oldest one whose response
has not been read. That the server answers in order is part of the model
of a connection. What is sent after the handover may be torn.
-/
import Yrmcds.Proofs.Client.Leaks

namespace Yrmcds

-- ================================================================== clean

/-- An unlockall that was sent after all lock requests has been answered. -/
def Link.Unlocked (l : Link) : Prop :=
  ∃ r, (r, Party.extension) ∈ l.taken
    ∧ l.log[r.request]?
      = some ⟨.unlockAll false, .extension, .complete, [r.status]⟩
    ∧ ∀ n q, r.request < n → l.log[n]? = some q →
      ∀ key silent, q.kind ≠ .lock key silent

/-- Nothing of the earlier clients is left on a connection. -/
structure Link.Clean (timeout : Int) (l : Link) : Prop where
  floating : l.floating = []
  rcvTimeout : l.rcvTimeout = timeout
  sndTimeout : l.sndTimeout = timeout
  whole : l.torn = none
  unlocked : l.Unlocked

/-- Since `l₀`, only responses to requests sent since have been received. -/
structure Link.Later (l₀ l : Link) : Prop where
  log : l₀.log.length ≤ l.log.length
  torn : ∀ first, l.torn = some first → l₀.log.length ≤ first
  floating : ∀ r ∈ l.floating, l₀.log.length ≤ r.request
  taken : ∃ later, l.taken = l₀.taken ++ later
    ∧ ∀ r p, (r, p) ∈ later → l₀.log.length ≤ r.request

namespace Link

variable {scope : Scope} {l l₀ l' : Link} {timeout : Int}
  {events rest : List Event}

theorem Clean.few (h : Clean timeout l) : FewOutstanding l := by
  intro r hr
  rw [h.floating] at hr
  cases hr

theorem Clean.later (h : Clean timeout l) : Later l l where
  log := Nat.le_refl _
  torn _ ht := by cases h.whole.symm.trans ht
  floating r hr := by
    rw [h.floating] at hr
    cases hr
  taken := ⟨[], by simp, nofun⟩

theorem Step.later (hs : Step scope l l') (h : Later l₀ l) :
    Later l₀ l' := by
  obtain ⟨hlog, htorn, hfl, later, ht, hlater⟩ := h
  cases hs with
  | timeouts => exact ⟨hlog, htorn, hfl, later, ht, hlater⟩
  | failed => exact ⟨hlog, htorn, hfl, later, ht, hlater⟩
  | lost _ hcut =>
      refine ⟨by simp; omega, fun first hfirst => ?_, hfl, later, ht, hlater⟩
      rcases hcut with rfl | ⟨-, rfl⟩
      · exact htorn first hfirst
      · cases hfirst
        exact hlog
  | garbled _ _ hg =>
      obtain ⟨first, hfirst, hreplies⟩ := garbles_iff.mp hg
      refine ⟨by simp; omega, htorn, fun r hr => ?_, later, ht, hlater⟩
      rcases List.mem_append.mp hr with hr | hr
      · exact hfl r hr
      · exact (htorn first hfirst).trans (hreplies r hr).1
  | sent =>
      refine ⟨by simp; omega, htorn, fun r hr => ?_, later, ht, hlater⟩
      simp only [List.mem_append, List.mem_map] at hr
      rcases hr with hr | ⟨status, _, rfl⟩
      · exact hfl r hr
      · exact hlog
  | @received r floating _ hf =>
      rw [hf] at hfl
      refine ⟨hlog, htorn, fun r hr => hfl r (List.mem_cons_of_mem _ hr),
        later ++ [(r, scope.party)], by rw [ht, List.append_assoc], fun r' p' hr => ?_⟩
      rcases List.mem_append.mp hr with hr | hr
      · exact hlater r' p' hr
      · cases List.mem_singleton.mp hr
        exact hfl r List.mem_cons_self

/-- The exchange of the last destructor leaves the connection clean. -/
theorem clean_of_unlock {r : Reply}
    (h : Drained (.unlockAll false) timeout l l' r) : Clean timeout l' where
  floating := h.floating
  rcvTimeout := h.rcvTimeout
  sndTimeout := h.sndTimeout
  whole := h.whole
  unlocked := by
    refine ⟨r, h.taken, ?_, fun n q hn hq => ?_⟩
    · rw [h.log, h.request]
      simp
    · have hlt := (List.getElem?_eq_some_iff.mp hq).1
      rw [h.log, List.length_append, List.length_singleton] at hlt
      rw [h.request] at hn
      omega

/-- The exchange of a constructor keeps it clean. -/
theorem Clean.checked {r : Reply} {t : Int} (hc : Clean t l)
    (htaken : ∀ x ∈ l.taken, x ∈ l'.taken)
    (h : Drained .noop timeout l l' r) : Clean timeout l' where
  floating := h.floating
  rcvTimeout := h.rcvTimeout
  sndTimeout := h.sndTimeout
  whole := h.whole
  unlocked := by
    obtain ⟨r₀, hr₀, hat, hno⟩ := hc.unlocked
    have hlt := (List.getElem?_eq_some_iff.mp hat).1
    refine ⟨r₀, htaken _ hr₀, ?_, fun n q hn hq => ?_⟩
    · rw [h.log, List.getElem?_append_left hlt]
      exact hat
    · rw [h.log] at hq
      rcases Nat.lt_or_ge n l.log.length with hlt | hge
      · rw [List.getElem?_append_left hlt] at hq
        exact hno n q hn hq
      · rw [List.getElem?_append_right hge] at hq
        cases List.mem_singleton.mp (List.mem_of_getElem? hq)
        exact nofun

theorem Steps.taken (hs : Steps scope l l') :
    ∀ x ∈ l.taken, x ∈ l'.taken := by
  refine hs.keep (I := fun l' => ∀ x ∈ l.taken, x ∈ l'.taken) ?_
    fun x hx => hx
  intro l₁ l₂ hs h x hx
  cases hs with
  | received => exact List.mem_append_left _ (h x hx)
  | _ => exact h x hx

end Link

namespace Php

variable {s s' : Php} {i o : Nat} {c d : PhpConn} {key : Key} {op : Op}
  {events : List Event}

-- ============================================================== invariant

/-- A connection that is ready for the next client. -/
structure Tidy (s : Php) : Prop where
  owned : ∃ slack, Owned slack s
  inOrder : ∀ {i c}, s.conn i = some c → Link.InOrder c.res
  timeout : ∀ {key i}, s.persistentList key = some i → 0 ≤ s.timeout
  clean : ∀ {i c}, s.conn i = some c → c.referenceCount = 0 →
    Link.Clean s.timeout c.res

/-- The environment keeps its promises while an operation is performed. -/
structure Faithful (s : Php) (op : Op) : Prop where
  whole : ∀ {i c}, s.conn i = some c → c.res.torn = none
  sockopt : .sockopt false ∉ op.events
  few : ∀ {i c}, s.conn i = some c → Link.FewOutstanding c.res

theorem tidy_start (ini : Ini) : Tidy (start ini) where
  owned := ⟨_, owned_start ini⟩
  inOrder h := by cases h
  timeout h := by cases h
  clean h := by cases h

theorem inOrder_newRes (s : Php) : Link.InOrder s.newRes :=
  have h := Link.inOrder_connected s.sockets.length
  ⟨h.serial, h.request, h.answers⟩

/-- A connection without a count has not been touched by a constructor. -/
theorem Obtained.idle {persistId : List UInt8}
    {r : Except Thrown (Nat × Option Key)}
    (hx : Obtained s persistId events r s') (hd : s'.conn i = some d)
    (h0 : d.referenceCount = 0) : s.conn i = some d := by
  have hex : ∀ {u s₁}, Existing s (hashKey persistId) events u s₁ →
      s₁.conn i = some d → s.conn i = some d := by
    intro u s₁ hx hd
    cases hx with
    | notFound => exact hd
    | ok _ hc =>
        rw [conn_put hc] at hd
        split at hd
        next =>
          cases hd
          exact absurd h0 (Nat.succ_ne_zero _)
        next => exact hd
    | broken _ hc =>
        have hd := (conn_closeAndFree hc i).symm.trans hd
        split at hd
        next => cases hd
        next => exact hd
    | occupied _ hc _ hne =>
        rw [conn_put hc] at hd
        split at hd
        next =>
          cases hd
          exact absurd h0 hne
        next => exact hd
  have hpush : ∀ {s₁ pkey rest r}, Made s₁ pkey rest r s' →
      s₁.conn i = some d := by
    intro s₁ pkey rest r hm
    cases hm with
    | refused => exact hd
    | orphaned | made =>
        rw [conn_push] at hd
        split at hd
        next =>
          cases hd
          cases h0
        next => exact hd
  cases hx with
  | reused _ hx => exact hex hx hd
  | occupied _ hx => exact hex hx hd
  | listed _ _ hx _ hm => exact hex hx (hpush hm)
  | unlisted _ hm => exact hpush hm

/-- A connection is listed only after its timeout was set. -/
theorem Obtained.timeout {persistId : List UInt8}
    (hx : Obtained s persistId events (.ok (i, some key)) s') :
    0 ≤ s.timeout := by
  generalize hr : Except.ok (i, some key) = r at hx
  cases hx with
  | reused => cases hr
  | occupied => cases hr
  | listed _ _ hx hn hm =>
      cases hm with
      | refused => cases hr
      | orphaned => cases hr
      | made hset =>
          rw [← (hx.cleared hn).timeout]
          exact (Link.setTimeout_ok hset).1
  | unlisted _ hm =>
      cases hm with
      | refused => cases hr
      | orphaned => cases hr
      | made => cases hr

theorem Stepped.inOrder (hx : Stepped s op s')
    (h : ∀ {i c}, s.conn i = some c → Link.InOrder c.res)
    (hd : s'.conn i = some d) : Link.InOrder d.res := by
  rcases hx.comes hd with ⟨c, hc, -, hs⟩ | ⟨-, hs⟩
  · exact hs.inOrder (h hc)
  · exact hs.inOrder (inOrder_newRes s)

theorem Stepped.clean (hx : Stepped s op s') (h : Tidy s)
    (hf : Faithful s op) (hd : s'.conn i = some d)
    (h0 : d.referenceCount = 0) : Link.Clean s.timeout d.res := by
  cases hx with
  | new => exact h.clean hd h0
  | failed _ hx => exact h.clean (hx.idle hd h0) h0
  | constructed _ _ hx => exact h.clean (hx.idle hd h0) h0
  | @called _ _ _ c _ _ ho hc =>
      rw [conn_put hc] at hd
      split at hd
      next =>
        -- the caller holds the connection
        cases hd
        obtain ⟨slack, hown⟩ := h.owned
        have hcount := hown.counted hc
        have hpos := holders_pos ho
        change c.referenceCount = 0 at h0
        omega
      next => exact h.clean hd h0
  | deleted => exact h.clean hd h0
  | destructed _ hc hl hx =>
      cases hx with
      | closed =>
          have hd := (conn_closeAndFree hc i).symm.trans hd
          split at hd
          next => cases hd
          next => exact h.clean hd h0
      | evicted =>
          have hd := (conn_closeAndFree hc i).symm.trans hd
          split at hd
          next => cases hd
          next => exact h.clean hd h0
      | kept hk hx hgood =>
          have hd := (conn_put hc _ i).symm.trans hd
          split at hd
          next =>
            cases hd
            obtain rfl := hgood.resolve_right (fun hne => hne h0)
            obtain ⟨r, hdr, -⟩ := Link.unlockAndDrain_good (h.inOrder hc)
              (hf.few hc) (hf.whole hc) (h.timeout (hl _ hk)) hf.sockopt hx
            exact Link.clean_of_unlock hdr
          next => exact h.clean hd h0

theorem tidy_step (h : Tidy s) (hf : Faithful s op) (hx : Stepped s op s') :
    Tidy s' := by
  obtain ⟨slack, hown⟩ := h.owned
  obtain ⟨slack', hown', -⟩ := owned_step hown hx
  have ht : s'.timeout = s.timeout := by
    rw [timeout, timeout, hx.frame.ini]
  refine ⟨⟨slack', hown'⟩, hx.inOrder h.inOrder, fun hl => ?_,
    fun hd h0 => ?_⟩
  · rw [ht]
    rcases hx.listed hl with hl | ⟨_, _, _, _, -, hob⟩
    · exact h.timeout hl
    · exact hob.timeout
  · rw [ht]
    exact hx.clean h hf hd h0

-- =============================================================== handover

/-- Object `o` has got connection `i`, clean, and receives nothing of what
was requested before. -/
def HandedOver (s s' : Php) (o i : Nat) : Prop :=
  ∃ c', s'.object o = some ⟨some i⟩ ∧ s'.conn i = some c'
    ∧ c'.referenceCount = 1 ∧ Link.Clean s.timeout c'.res
    ∧ ∀ ops s'' c'', s'.run ops = .ok s'' → s''.conn i = some c'' →
      Link.Later c'.res c''.res

/-- Connection `i` is closed and no longer listed. -/
structure Removed (s' : Php) (i : Nat) (c : PhpConn) : Prop where
  freed : s'.conn i = none
  closed : ∀ fd, c.res.sock = some fd → s'.sockets[fd]? ≠ some true
  unlisted : ∀ key, s'.persistentList key ≠ some i

/-- What is received later, over any run. -/
theorem run_later {ops : List Op} {slack : Nat → Nat}
    (hown : Owned slack s) (hc : s.conn i = some c)
    (hlater : Link.Later c.res c.res) (hrun : s.run ops = .ok s')
    (hd : s'.conn i = some d) : Link.Later c.res d.res := by
  have hinv : (∃ slack, Owned slack s') ∧ i < s'.heap.length
      ∧ ∀ d, s'.conn i = some d → Link.Later c.res d.res := by
    refine Run.exec_inv (P := fun _ _ => True) (I := fun s =>
      (∃ slack, Owned slack s) ∧ i < s.heap.length
        ∧ ∀ d, s.conn i = some d → Link.Later c.res d.res) ?_ ?_
      Run.guarded_true hrun
    · rintro s op s' ⟨⟨slack, hown⟩, hlt, hl⟩ - hstep
      have hx := stepped hown hstep
      obtain ⟨slack', hown', -⟩ := owned_step hown hx
      refine ⟨⟨slack', hown'⟩, Nat.lt_of_lt_of_le hlt hx.frame.heap, ?_⟩
      intro d hd
      rcases hx.comes hd with ⟨c₁, hc₁, -, hs⟩ | ⟨rfl, -⟩
      · exact hs.keep Link.Step.later (hl c₁ hc₁)
      · exact absurd hlt (Nat.lt_irrefl _)
    · refine ⟨⟨slack, hown⟩, lt_of_conn hc, fun d hd => ?_⟩
      cases hc.symm.trans hd
      exact hlater
  exact hinv.2.2 d hd

/-- The constructor's look at a clean connection leaves it clean. -/
theorem Checked.clean {res : Link} (h : Tidy s) (hc : s.conn i = some c)
    (h0 : c.referenceCount = 0) (hx : Checked s c events true res) :
    Link.Clean s.timeout res := by
  have hclean := h.clean hc h0
  cases hx with
  | unchecked => exact hclean
  | alive _ hx =>
      obtain ⟨r, hdr⟩ := Link.checkPersistentConnection_good (h.inOrder hc)
        hclean.few hclean.whole hx
      exact hclean.checked
        (Link.checkPersistentConnection_steps hx).taken hdr

theorem removed_of_evicted {slack : Nat → Nat} (hown : Owned slack s)
    (hc : s.conn i = some c) {slack' : Nat → Nat} (hown' : Owned slack' s')
    (hfree : s'.conn i = none) : Removed s' i c := by
  refine ⟨hfree, fun fd hfd hopen => ?_, fun key hl => ?_⟩
  · cases (hown.sock hc).symm.trans hfd
    obtain ⟨d, hd⟩ := hown'.opened.mp hopen
    cases hfree.symm.trans hd
  · obtain ⟨d, hd, -⟩ := hown'.listed hl
    cases hfree.symm.trans hd

/-- What a constructor makes of an idle connection under its key. -/
theorem Obtained.settles {persistId : List UInt8}
    {r : Except Thrown (Nat × Option Key)} (h : Tidy s)
    (hp : 0 < persistId.length)
    (hl : s.persistentList (hashKey persistId) = some i)
    (hc : s.conn i = some c) (h0 : c.referenceCount = 0)
    (hx : Obtained s persistId events r s') :
    (r = .ok (i, none) ∧ ∃ c', s'.conn i = some c' ∧ c'.referenceCount = 1
        ∧ Link.Clean s.timeout c'.res)
      ∨ s'.conn i = none := by
  cases hx with
  | reused _ hx =>
      cases hx with
      | @ok _ d res hl' hc' hx =>
          cases hl.symm.trans hl'
          cases hc.symm.trans hc'
          refine .inl ⟨rfl, { c with res, referenceCount := _ },
            (conn_put hc _ i).trans (if_pos rfl), ?_, hx.clean h hc h0⟩
          exact congrArg (· + 1) h0
  | occupied _ hx =>
      cases hx with
      | occupied hl' hc' _ hne =>
          cases hl.symm.trans hl'
          cases hc.symm.trans hc'
          exact absurd h0 hne
  | @listed u r s₁ _ rest _ _ hx hn hm =>
      right
      have hnone : s₁.conn i = none := by
        cases hx with
        | notFound hl' => cases hl.symm.trans hl'
        | broken hl' hc' =>
            cases hl.symm.trans hl'
            exact (conn_closeAndFree hc' i).trans (if_pos rfl)
        | ok => rcases hn with hn | hn <;> cases hn
        | occupied => rcases hn with hn | hn <;> cases hn
      have hlt : i ≠ s₁.heap.length := by
        rw [(hx.cleared hn).heap]
        exact Nat.ne_of_lt (lt_of_conn hc)
      cases hm with
      | refused => exact hnone
      | orphaned => exact (conn_push ..).trans ((if_neg hlt).trans hnone)
      | made => exact (conn_push ..).trans ((if_neg hlt).trans hnone)
  | unlisted hnp => exact absurd hp hnp

/-- A connection that nobody holds is handed over clean, or removed. -/
theorem run_handover (ini : Ini) {ops : List Op} {s s' : Php} {o i : Nat}
    {persistId : List UInt8} {events : List Event} {c : PhpConn}
    (hg : Run.Guarded step Faithful (start ini) ops)
    (hrun : (start ini).run ops = .ok s) (hp : 0 < persistId.length)
    (hl : s.persistentList (hashKey persistId) = some i)
    (hc : s.conn i = some c) (h0 : c.referenceCount = 0)
    (hstep : s.step (.construct o persistId events) = .ok s') :
    HandedOver s s' o i ∨ Removed s' i c := by
  have h : Tidy s := by
    refine Run.exec_inv ?_ (tidy_start ini) hg hrun
    intro s op s' h hf hstep
    obtain ⟨slack, hown⟩ := h.owned
    exact tidy_step h hf (stepped hown hstep)
  obtain ⟨slack, hown⟩ := h.owned
  have hx := stepped hown hstep
  obtain ⟨slack', hown', -⟩ := owned_step hown hx
  cases hx with
  | failed _ hx =>
      rcases hx.settles h hp hl hc h0 with ⟨hr, -⟩ | hfree
      · cases hr
      · exact .inr (removed_of_evicted hown hc hown' hfree)
  | @constructed _ _ _ obj j key? s₁ ho _ hx =>
      rcases hx.settles h hp hl hc h0 with ⟨hr, c', hc', h1, hclean⟩ | hfree
      · cases hr
        refine .inl ⟨c', ?_, hc', h1, hclean, fun ops s'' c'' hrun' hd => ?_⟩
        · have ho₁ : s₁.object o = some obj := by
            rw [object, hx.objects]
            exact ho
          exact (Slots.get_set (Slots.lt_of_get ho₁)).trans (if_pos rfl)
        · exact run_later hown' hc' hclean.later hrun' hd
      · exact .inr (removed_of_evicted hown hc hown' hfree)
  | called hop => cases hop

/-- A client that locks, leaves its response unread and goes. -/
def lockAndLeave : List Op :=
  [.new, .construct 0 [97] [.connected, .sockopt true, .sockopt true],
    .command 0 (.lock [1] false) [.sent [Status.ok]],
    .delete 0 [.sockopt true, .sockopt true, .sent [Status.ok], .reply,
      .reply],
    .new]

/-- The next client checks the connection and finds it alive. -/
def comeBack : Op :=
  .construct 1 [97] [.sockopt true, .sockopt true, .sent [Status.ok], .reply,
    .sockopt true, .sockopt true]

/-- A sufficient check of `Faithful`. -/
def quiet (s : Php) (op : Op) : Bool :=
  decide (.sockopt false ∉ op.events)
    && s.heap.all fun slot => slot.all fun c =>
      decide (c.res.torn = none ∧ c.res.log.length < 2 ^ 32)

theorem faithful_of_quiet (s : Php) (op : Op) (h : quiet s op = true) :
    Faithful s op := by
  rw [quiet, Bool.and_eq_true, decide_eq_true_eq] at h
  have hall : ∀ {i c}, s.conn i = some c →
      c.res.torn = none ∧ c.res.log.length < 2 ^ 32 := by
    intro i c hc
    have hmem := List.mem_of_getElem? (Slots.get_eq_some.mp hc)
    simpa using List.all_eq_true.mp h.2 _ hmem
  refine ⟨fun hc => (hall hc).1, h.1, fun hc r _ => ?_⟩
  have hlt := (hall hc).2
  omega

theorem run_handover_locked :
    ∃ s s' c, (start ⟨0, 5, true⟩).run lockAndLeave = .ok s
      ∧ s.step comeBack = .ok s'
      ∧ s'.object 1 = some ⟨some 0⟩ ∧ s.conn 0 = some c
      ∧ (HandedOver s s' 1 0 ∨ Removed s' 0 c) := by
  obtain ⟨s, hrun, hs⟩ := Run.exists_of_ends
    (r := (start ⟨0, 5, true⟩).run lockAndLeave)
    (p := fun s => decide (s.persistentList (hashKey [97]) = some 0)
      && (s.conn 0).any (fun c : PhpConn => decide (c.referenceCount = 0))
      && Run.ends (s.step comeBack)
        fun s' => decide (s'.object 1 = some ⟨some 0⟩)) (by decide +kernel)
  simp only [Bool.and_eq_true, decide_eq_true_eq, Option.any_eq_true] at hs
  obtain ⟨⟨hl, c, hc, h0⟩, hends⟩ := hs
  obtain ⟨s', hstep, ho⟩ := Run.exists_of_ends hends
  refine ⟨s, s', c, hrun, hstep, of_decide_eq_true ho, hc, ?_⟩
  exact run_handover _ (Run.guarded_of_checks faithful_of_quiet
    (by decide +kernel)) hrun (by decide) hl hc h0 hstep

/-- The timeout of a connection that is handed over is an `int`. -/
theorem timeout_narrowed :
    Run.Guarded step Faithful (start ⟨0, 2 ^ 32 + 5, true⟩)
        (lockAndLeave ++ [comeBack])
      ∧ ∃ s' c', (start ⟨0, 2 ^ 32 + 5, true⟩).run (lockAndLeave ++ [comeBack])
        = .ok s'
      ∧ s'.object 1 = some ⟨some 0⟩ ∧ s'.conn 0 = some c'
      ∧ c'.referenceCount = 1 ∧ c'.res.rcvTimeout ≠ 2 ^ 32 + 5 := by
  obtain ⟨s', hrun, hs⟩ := Run.exists_of_ends
    (r := (start ⟨0, 2 ^ 32 + 5, true⟩).run (lockAndLeave ++ [comeBack]))
    (p := fun s' => decide (s'.object 1 = some ⟨some 0⟩)
      && (s'.conn 0).any fun c' : PhpConn => decide (c'.referenceCount = 1
        ∧ c'.res.rcvTimeout ≠ 2 ^ 32 + 5)) (by decide +kernel)
  simp only [Bool.and_eq_true, decide_eq_true_eq, Option.any_eq_true] at hs
  obtain ⟨ho, c', hc', h1, ht⟩ := hs
  exact ⟨Run.guarded_of_checks faithful_of_quiet (by decide +kernel),
    s', c', hrun, ho, hc', h1, ht⟩

end Php

end Yrmcds
