/-
Who has read a session that exists has it alone.

While a handler has read a session from a locked object and neither written
nor destroyed it nor gone, no other handler has (`run_exclusion`). The
object stays what was read until the handler's own next request is
performed, so a write overwrites nothing that the handler has not read.

A session that does not exist cannot be locked: `wait_lock` takes every
status but LOCKED, and `read` returns an empty session to whoever asks
(`missing_shared`).
-/
import Yrmcds.Proofs.Session.Locks

namespace Yrmcds

namespace Session

variable {σ : Type} {sv : Server σ} {w w' : World σ} {a : Act} {s s' : σ}
  {h h' : Handler} {k j m n : Nat} {id data : Str} {r : Request}

-- ================================================================= pending

/-- Request `n` of a handler may still be performed. -/
def Unperformed (h : Handler) (n : Nat) : Prop :=
  (h.closed = false ∧ h.channel.sent < n)
    ∨ n ∈ h.channel.inflight.map Prod.fst

/-- Until request `n` of handler `h` of connection `k` is performed, the
connection has the lock of `id` and the object is `data`. -/
structure Pending (sv : Server σ) (s : σ) (k : Nat) (h : Handler) (n : Nat)
    (id data : Str) : Prop where
  sent : n ≤ h.channel.sent + 1
  earlier : ∀ x ∈ h.channel.inflight, x.1 < n → x.2.id = id →
    x.2.keeps = true
  kept : Unperformed h n →
    sv.object s id = some data ∧ sv.holder s id = some k

/-- A session that was read is kept until the next request. -/
theorem Held.pending (hh : Held sv s k h id data) :
    Pending sv s k h (h.channel.sent + 1) id data where
  sent := Nat.le_refl _
  earlier x hx _ := hh.keeps x hx
  kept _ := ⟨hh.object, hh.holder⟩

/-- Others change the server. -/
theorem Pending.frame (hp : Pending sv s k h n id data)
    (hs : Unperformed h n → sv.holder s id = some k →
      sv.object s' id = sv.object s id ∧ sv.holder s' id = some k) :
    Pending sv s' k h n id data where
  sent := hp.sent
  earlier := hp.earlier
  kept hu := by
    obtain ⟨ho, hh⟩ := hp.kept hu
    obtain ⟨ho', hh'⟩ := hs hu hh
    exact ⟨ho'.trans ho, hh'⟩

/-- The handler goes on, and may send a request. -/
theorem Pending.moves (hp : Pending sv s k h n id data)
    (hopen : h.closed = false) (hsent : h.channel.sent ≤ h'.channel.sent)
    (hi : ∀ x ∈ h'.channel.inflight,
      x ∈ h.channel.inflight ∨ h.channel.sent < x.1) :
    Pending sv s k h' n id data := by
  refine ⟨Nat.le_trans hp.sent (by omega), fun x hx hlt => ?_, fun hu => ?_⟩
  · rcases hi x hx with hx | hx
    · exact hp.earlier x hx hlt
    · have := hp.sent
      omega
  · apply hp.kept
    rcases hu with ⟨-, hlt⟩ | hmem
    · exact .inl ⟨hopen, by omega⟩
    · obtain ⟨x, hx, rfl⟩ := List.mem_map.mp hmem
      rcases hi x hx with hx | hx
      · exact .inr (List.mem_map_of_mem hx)
      · exact .inl ⟨hopen, hx⟩

/-- The server performs a request of the handler. -/
theorem Pending.performed (hl : sv.Lawful) (hc : InOrder h.channel)
    (hp : Pending sv s k h n id data) {inflight : List (Nat × Request)}
    (hf : h.channel.inflight = (m, r) :: inflight)
    (answer : Option (Status × Str)) :
    Pending sv (sv.serve s k r).1 k (h.performed m inflight answer) n id
      data := by
  have hhead : (m, r) ∈ h.channel.inflight := by
    rw [hf]
    exact List.mem_cons_self
  have htail : ∀ x ∈ inflight, x ∈ h.channel.inflight := fun x hx => by
    rw [hf]
    exact List.mem_cons_of_mem _ hx
  refine ⟨hp.sent, fun x hx => hp.earlier x (htail x hx), fun hu => ?_⟩
  have hlt : m < n ∧ Unperformed h n := by
    rcases hu with ⟨hopen, hlt⟩ | hmem
    · have hle := hc.sent m
        (List.mem_append_right _ (List.mem_map_of_mem hhead))
      change h.channel.sent < n at hlt
      exact ⟨by omega, .inl ⟨hopen, hlt⟩⟩
    · obtain ⟨x, hx, rfl⟩ := List.mem_map.mp hmem
      have horder := (List.pairwise_append.mp hc.order).2.1
      rw [hf] at horder
      exact ⟨(List.pairwise_cons.mp horder).1 _ (List.mem_map_of_mem hx),
        .inr (List.mem_map_of_mem (htail x hx))⟩
  obtain ⟨ho, hh⟩ := hp.kept hlt.2
  obtain ⟨ho', hh'⟩ := serve_holder hl hh fun _ =>
    hp.earlier (m, r) hhead hlt.1
  exact ⟨ho'.trans ho, hh'⟩

/-- Every step keeps it. -/
theorem pending_step (hl : sv.Lawful) (hw : AllLocks sv w)
    (hp : Pending sv w.server k (w.handlers k) n id data)
    (hs : w.step sv a = .ok w') :
    Pending sv w'.server k (w'.handlers k) n id data := by
  have hput : ∀ {j h}, (j = k → Pending sv w.server k h n id data) →
      Pending sv w.server k ((w.put j h).handlers k) n id data := by
    intro j h hj
    by_cases hjk : j = k
    · subst hjk
      rw [put_self]
      exact hj rfl
    · rw [put_other (Ne.symm hjk)]
      exact hp
  cases stepped hs with
  | called hopen =>
      apply hput
      intro hj
      subst hj
      obtain ⟨hsent, hi⟩ := (call_sends (w.handlers _) _ _).inflight
      exact hp.moves hopen hsent hi
  | received hr hopen =>
      apply hput
      intro hj
      subst hj
      obtain ⟨hsent, hi⟩ := (recv_received _ _ _ _).sends.inflight
      exact hp.moves hopen hsent hi
  | threw hopen =>
      apply hput
      intro hj
      subst hj
      exact hp.moves hopen (Nat.le_refl _) fun x hx => .inl hx
  | gone =>
      apply hput
      intro hj
      subst hj
      refine ⟨hp.sent, hp.earlier, fun hu => hp.kept ?_⟩
      rcases hu with ⟨hopen, -⟩ | hmem
      · cases hopen
      · exact .inr hmem
  | @served j m r inflight hf =>
      by_cases hj : j = k
      · subst hj
        rw [put_self]
        exact hp.performed hl (hw j).inOrder hf _
      · rw [put_other (Ne.symm hj)]
        exact hp.frame fun _ hh => serve_holder hl hh fun hkj =>
          absurd hkj.symm hj
  | @hungUp j hclosed hf =>
      refine hp.frame fun hu hh => hl.hangup_others _ _ id k hh ?_
      rintro rfl
      rcases hu with ⟨hopen, -⟩ | hmem
      · cases hopen.symm.trans hclosed
      · rw [hf] at hmem
        cases hmem
  | expired => exact hp.frame fun _ hh => hl.expire_keeps _ id _ k hh

/-- Every run keeps it. -/
theorem pending_run (hl : sv.Lawful) {acts : List Act} (hw : AllLocks sv w)
    (hfew : Run.Guarded (World.step sv) Windowed w acts)
    (hp : Pending sv w.server k (w.handlers k) n id data)
    (hs : w.run sv acts = .ok w') :
    Pending sv w'.server k (w'.handlers k) n id data := by
  refine (Run.exec_inv (I := fun w => AllLocks sv w
    ∧ Pending sv w.server k (w.handlers k) n id data) ?_ ⟨hw, hp⟩ hfew hs).2
  rintro w a w' ⟨hw, hp⟩ hfew hs
  exact ⟨locks_step hl hw hfew hs, pending_step hl hw hp hs⟩

-- =============================================================== exclusion

/-- Handler `k` has session `id` alone, as it has read it. -/
structure Exclusive (sv : Server σ) (w : World σ) (k : Nat)
    (id data : Str) : Prop where
  /-- No other handler has read it from a locked object, or is about to. -/
  alone : ∀ j, j ≠ k → (∀ data', (id, data') ∉ (w.handlers j).granted)
    ∧ ∀ data', (w.handlers j).pc ≠ .waitTouch id data'
  /-- Who asks for it is told that it is locked. -/
  locked : ∀ j, j ≠ k → ∃ text,
    (sv.serve w.server j (.lockGet id)).2 = some (Status.locked, text)
  /-- The object is what was read, until the next request of the handler
  is performed. -/
  kept : ∀ acts w', Run.Guarded (World.step sv) Windowed w acts →
    w.run sv acts = .ok w' →
      Unperformed (w'.handlers k) ((w.handlers k).channel.sent + 1) →
        sv.object w'.server id = some data

/-- A session that exists is read by one handler at a time. -/
theorem run_exclusion (hl : sv.Lawful) (s : σ) (expire timeout : Nat → Int)
    {acts : List Act}
    (hfew : Run.Guarded (World.step sv) Windowed
      (.start s expire timeout) acts)
    (hrun : (World.start s expire timeout).run sv acts = .ok w)
    (hk : (id, data) ∈ (w.handlers k).granted) :
    Exclusive sv w k id data := by
  have hw := locks_run hl (locks_start s expire timeout) hfew hrun
  have hh := (hw k).granted _ hk
  refine ⟨fun j hj => ⟨fun data' hmem => ?_, fun data' hpc => ?_⟩,
    fun j hj => hl.lockGet_locked _ j id k hh.holder hj.symm,
    fun acts w' hfew' hrun' hu => ?_⟩
  · have hh' := ((hw j).granted _ hmem).holder
    exact hj (Option.some.inj (hh'.symm.trans hh.holder))
  · have hh' := (hw j).atPc
    unfold AtPc at hh'
    rw [hpc] at hh'
    exact hj (Option.some.inj (hh'.holder.symm.trans hh.holder))
  · exact ((pending_run hl hw hfew' hh.pending hrun').kept hu).1

/-- One handler reads a session; a second one asks for it. -/
def readTwice : List Act :=
  [.call 0 (.read [1]) true, .serve 0, .recv 0 false true, .serve 0,
    .recv 0 false true, .call 1 (.read [1]) true, .serve 1]

/-- A sufficient check of `Windowed`. -/
def recent (w : World Store) : Act → Bool
  | .recv k _ _ => decide ((w.handlers k).channel.sent < 2 ^ 32)
  | _ => true

theorem windowed_of_recent (w : World Store) (a : Act)
    (h : recent w a = true) : Windowed w a := by
  cases a with
  | recv k late ok =>
      intro r _
      have := of_decide_eq_true h
      omega
  | _ => trivial

theorem run_exclusion_locked :
    ∃ w, (World.start (Store.single [1] [2]) (fun _ => 3600) fun _ => 6).run
        Store.server readTwice = .ok w
      ∧ (w.handlers 0).result = some (.data [2])
      ∧ Exclusive Store.server w 0 [1] [2] := by
  obtain ⟨w, hrun, hw⟩ := Run.exists_of_ends
    (r := (World.start (Store.single [1] [2]) (fun _ => 3600) fun _ => 6).run
      Store.server readTwice)
    (p := fun w => decide ((w.handlers 0).result = some (.data [2])
      ∧ ([1], [2]) ∈ (w.handlers 0).granted)) (by decide +kernel)
  rw [decide_eq_true_eq] at hw
  exact ⟨w, hrun, hw.1, run_exclusion Store.lawful _ _ _
    (Run.guarded_of_checks windowed_of_recent (by decide +kernel)) hrun hw.2⟩

/-- Two handlers read a session that does not exist, and write it. -/
def readMissing : List Act :=
  [.call 0 (.read [1]) true, .serve 0, .recv 0 false true,
    .call 1 (.read [1]) true, .serve 1, .recv 1 false true]

/-- A session that does not exist is read by both, and the one that writes
last overwrites what it has not read. -/
theorem missing_shared :
    ∃ w w', (World.start (fun _ => none) (fun _ => 3600) fun _ => 6).run
        Store.server readMissing = .ok w
      ∧ (w.handlers 0).result = some (.data [])
      ∧ (w.handlers 1).result = some (.data [])
      ∧ w.run Store.server [.call 0 (.write [1] [2]) true, .serve 0,
        .call 1 (.write [1] [3]) true, .serve 1] = .ok w'
      ∧ Store.server.object w'.server [1] = some [3] := by
  obtain ⟨w, hrun, hw⟩ := Run.exists_of_ends
    (r := (World.start (fun _ => none) (fun _ => 3600) fun _ => 6).run
      Store.server readMissing)
    (p := fun w => decide ((w.handlers 0).result = some (.data [])
        ∧ (w.handlers 1).result = some (.data []))
      && Run.ends (w.run Store.server [.call 0 (.write [1] [2]) true,
          .serve 0, .call 1 (.write [1] [3]) true, .serve 1])
        fun w' => decide (Store.server.object w'.server [1] = some [3]))
    (by decide +kernel)
  rw [Bool.and_eq_true, decide_eq_true_eq] at hw
  obtain ⟨⟨h0, h1⟩, hends⟩ := hw
  obtain ⟨w', hrun', ho⟩ := Run.exists_of_ends hends
  exact ⟨w, w', hrun, h0, h1, hrun', of_decide_eq_true ho⟩

-- ================================================================== window

/-- Quiet writes of a session nobody has locked. -/
def writes : Nat → List Act
  | 0 => []
  | n + 1 => .call 0 (.write [9] [9]) true :: .serve 0 :: writes n

/-- They do nothing but count. -/
def drift (w : World Store) (n : Nat) : World Store :=
  w.put 0 { w.handlers 0 with
    channel := { (w.handlers 0).channel with
      sent := (w.handlers 0).channel.sent + n } }

/-- Handler 0 has written the session and is at rest. -/
def Resting (w : World Store) : Prop :=
  ((w.handlers 0).closed = false ∧ (w.handlers 0).pc = .idle
    ∧ (w.handlers 0).locked = false ∧ (w.handlers 0).granted = []
    ∧ (w.handlers 0).result = some .true
    ∧ (w.handlers 0).channel.inflight = [])
  ∧ w.server [9] = some ⟨[9], none⟩

instance (w : World Store) : Decidable (Resting w) :=
  inferInstanceAs (Decidable (_ ∧ _))

theorem drift_zero (w : World Store) : drift w 0 = w := put_eq rfl

theorem drift_succ (w : World Store) (n : Nat) :
    drift (drift w 1) n = drift w (n + 1) := by
  unfold drift
  rw [put_put, put_self]
  dsimp only
  rw [Nat.add_assoc, Nat.add_comm 1 n]

/-- One write. -/
theorem drift_write {w : World Store} (hw : Resting w) (acts : List Act) :
    w.run Store.server (.call 0 (.write [9] [9]) true :: .serve 0 :: acts)
      = (drift w 1).run Store.server acts := by
  obtain ⟨⟨hclosed, hpc, hlocked, hgranted, hresult, hf⟩, hstored⟩ := hw
  rcases hh : w.handlers 0 with ⟨expire, timeout, locked,
    ⟨sent, inflight, replies⟩, pc, result, granted, closed⟩
  rw [hh] at hclosed hpc hlocked hgranted hresult hf
  subst hclosed hpc hlocked hgranted hresult hf
  have hcall : w.step Store.server (.call 0 (.write [9] [9]) true)
      = .ok (w.put 0 ⟨expire, timeout, false,
        ⟨sent + 1, [(sent + 1, .set [9] [9] expire)], replies⟩, .idle,
        some .true, [], false⟩) := by
    rw [World.step]
    rw [hh]
    rfl
  have hserver : Store.server.serve w.server 0 (.set [9] [9] expire)
      = (w.server, none) := by
    show Store.serve w.server 0 (.set [9] [9] expire) = _
    rw [Store.serve, Store.lockedFor, hstored]
    exact congrArg (·, none) (Function.update_eq_self_iff.mpr hstored.symm)
  have hserve : (w.put 0 ⟨expire, timeout, false,
        ⟨sent + 1, [(sent + 1, .set [9] [9] expire)], replies⟩, .idle,
        some .true, [], false⟩).step Store.server (.serve 0)
      = .ok (drift w 1) := by
    rw [World.step, put_self]
    dsimp only
    rw [perform_eq, put_server, hserver, put_self]
    refine congrArg Except.ok ((put_put ..).trans ?_)
    rw [drift, hh, Handler.performed, answers]
    dsimp only
    rw [List.append_nil]
  unfold World.run
  rw [Run.exec, hcall]
  dsimp only
  rw [Run.exec, hserve]

theorem drift_resting {w : World Store} (hw : Resting w) :
    Resting (drift w 1) := by
  refine ⟨?_, hw.2⟩
  rw [drift, put_self]
  exact hw.1

theorem run_writes {w : World Store} (hw : Resting w) (n : Nat)
    (acts : List Act) :
    w.run Store.server (writes n ++ acts)
      = (drift w n).run Store.server acts := by
  induction n generalizing w with
  | zero => rw [drift_zero, writes, List.nil_append]
  | succ n ih =>
      rw [writes, List.cons_append, List.cons_append, drift_write hw,
        ih (drift_resting hw), drift_succ]

/-- A `read` gives up its `recv()`, and the session is destroyed. -/
def leaveResponse : List Act :=
  [.call 0 (.read [1]) true, .serve 0, .recvThrows 0,
    .call 0 (.destroy [1]) true, .serve 0,
    .call 0 (.write [9] [9]) true, .serve 0]

/-- Another handler creates the session and reads it, and then the first
one, with the serial of its first request. -/
def readBoth : List Act :=
  [.call 1 (.write [1] [3]) true, .serve 1, .call 1 (.read [1]) true,
    .serve 1, .recv 1 false true, .serve 1, .recv 1 false true,
    .call 0 (.read [1]) true, .serve 0, .recv 0 false true, .serve 0,
    .recv 0 false true]

/-- After 2^32 requests a handler takes an old response for its lock. -/
theorem serial_wraps :
    ∃ w, (World.start (Store.single [1] [2]) (fun _ => 3600) fun _ => 6).run Store.server
        (leaveResponse ++ (writes (2 ^ 32 - 3) ++ readBoth)) = .ok w
      ∧ ([1], [2]) ∈ (w.handlers 0).granted
      ∧ ([1], [3]) ∈ (w.handlers 1).granted := by
  obtain ⟨w, hrun, hw⟩ := Run.exists_of_ends
    (r := (World.start (Store.single [1] [2]) (fun _ => 3600) fun _ => 6).run
      Store.server leaveResponse)
    (p := fun w => decide (Resting w)
      && Run.ends ((drift w (2 ^ 32 - 3)).run Store.server readBoth)
        fun w' => decide (([1], [2]) ∈ (w'.handlers 0).granted
          ∧ ([1], [3]) ∈ (w'.handlers 1).granted)) (by decide +kernel)
  rw [Bool.and_eq_true, decide_eq_true_eq] at hw
  obtain ⟨w', hrun', hw'⟩ := Run.exists_of_ends hw.2
  refine ⟨w', ?_, of_decide_eq_true hw'⟩
  rw [World.run, Run.exec_append hrun]
  exact (run_writes hw.1 _ _).trans hrun'

end Session

end Yrmcds
