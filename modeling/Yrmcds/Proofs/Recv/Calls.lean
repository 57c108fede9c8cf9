/-
Runs of calls of a receiving function.

`Moves` is what one call has to do to be a move of the abstract receiver
of its format: the move itself, and a failure, if it is one, that its last
answer gives. A function all of whose calls are such moves
(`Receives`) reads a stream as the one-shot reference does, however the
kernel cuts it, interrupts calls or fails them (`Receives.parse`).

# Failed calls

A call that fails keeps what it has taken over in the buffer, and the
packet returned before it has been shifted out already, so retrying is
just another call. This is why the abstract `failed` move may take over a
piece of the stream too.
-/
import Yrmcds.Lib.Framing
import Yrmcds.Proofs.Recv.Queue

namespace Yrmcds

open Framing

variable {σ ρ : Type} {F : Format UInt8 ρ}

-- ============================================================== one call

/-- What a call returns, as the abstract receiver sees it. -/
def absResult : Except Error ρ → Result ρ
  | .ok r => .ok r
  | .error .protocolError => .bad
  | .error _ => .failed

/-- One call as a move of the abstract receiver, whose failure, if it is
one, is named by the last answer. -/
structure Moves (F : Format UInt8 ρ) (x : Rx UInt8) (k : Kernel)
    (res : Except Error ρ) (x' : Rx UInt8) (k' : Kernel) : Prop where
  call : Call F x (absResult res) x'
  script : ∃ used, k.script = used ++ k'.script
  failure : ∀ e, res = .error e → e ≠ .protocolError →
    ∃ used a, k.script = used ++ a :: k'.script ∧ a.Fails e

/-- A protocol error needs no reason from the kernel. -/
theorem no_reason {k k' : Kernel} (e : Error)
    (h : (.error .protocolError : Except Error ρ) = .error e)
    (hne : e ≠ .protocolError) :
    ∃ used a, k.script = used ++ a :: k'.script ∧ a.Fails e := by
  cases h
  exact absurd rfl hne

/-- The errors an answer gives are none of the format's. -/
theorem absResult_of_fails {a : Answer} {e : Error} (h : a.Fails e) :
    absResult (.error e : Except Error ρ) = .failed := by
  cases a <;> cases e <;> first | rfl | exact h.elim

theorem absResult_bad_iff (res : Except Error ρ) :
    absResult res = .bad ↔ res = .error .protocolError := by
  cases res with
  | ok r => exact ⟨fun h => (by cases h), fun h => (by cases h)⟩
  | error e =>
      cases e <;>
        first
        | exact ⟨fun _ => rfl, fun _ => rfl⟩
        | exact ⟨fun h => (by cases h), fun h => (by cases h)⟩

namespace Moves

variable {x x' : Rx UInt8} {k k' : Kernel} {res : Except Error ρ}
  {p : List UInt8}

/-- A piece taken over before counts as taken over by the call. -/
theorem of_took {recvSize : Nat} {b₁ b₂ : RecvBuf} {k₂ : Kernel}
    (h : b₁.Took recvSize k b₂ k₂)
    (h' : Moves F ⟨b₂.pending, k₂.stream, false⟩ k₂ res x' k') :
    Moves F ⟨b₁.pending, k.stream, false⟩ k res x' k' := by
  obtain ⟨bs, hs, hp⟩ := h.got
  obtain ⟨pre, hpre⟩ := h.script
  obtain ⟨used, hused⟩ := h'.script
  refine ⟨?_, ⟨pre ++ used, ?_⟩, fun e he hne => ?_⟩
  · have hcall := h'.call
    rw [hp] at hcall
    rw [hs]
    exact hcall.of_took
  · rw [hpre, hused, List.append_assoc]
  · obtain ⟨used', a, hs', ha⟩ := h'.failure e he hne
    exact ⟨pre ++ used', a, by rw [hpre, hs', List.append_assoc], ha⟩

/-- A fill loop that fails is a failed move. -/
theorem of_failed {recvSize : Nat} {b b' : RecvBuf} {e : Error}
    (h : b.FailedBy recvSize k e b' k') :
    Moves F ⟨b.pending, k.stream, false⟩ k (.error e)
      ⟨b'.pending, k'.stream, false⟩ k' := by
  obtain ⟨bs, hs, hp⟩ := h.took.got
  obtain ⟨used, a, hscript, ha⟩ := h.answer
  refine ⟨?_, h.took.script, fun e' he _ => ?_⟩
  · rw [absResult_of_fails ha, hs, hp]
    exact .failed
  · cases he
    exact ⟨used, a, hscript, ha⟩

/-- Returning the packet at the front consumes it. -/
theorem of_frame {n : Nat} {r : ρ} {used : List Answer}
    (hcut : F.cut p = .frame n r) (hstream : k'.stream = k.stream)
    (hscript : k.script = used ++ k'.script) :
    Moves F ⟨p, k.stream, false⟩ k (.ok r)
      ⟨p.drop n, k'.stream, false⟩ k' := by
  refine ⟨?_, ⟨used, hscript⟩, fun e he => by cases he⟩
  have hmove : Call F ⟨p, [] ++ k.stream, false⟩ (.ok r)
      ⟨(p ++ []).drop n, k.stream, false⟩ :=
    .ok (by rw [List.append_nil]; exact hcut)
  rw [List.append_nil] at hmove
  rw [hstream]
  exact hmove

/-- Poisoning the connection in front of a violation reports it. -/
theorem of_bad {used : List Answer} (hcut : F.cut p = .bad)
    (hstream : k'.stream = k.stream) (hscript : k.script = used ++ k'.script) :
    Moves F ⟨p, k.stream, false⟩ k (.error .protocolError)
      ⟨p, k'.stream, true⟩ k' := by
  refine ⟨?_, ⟨used, hscript⟩, no_reason⟩
  have hmove : Call F ⟨p, [] ++ k.stream, false⟩ .bad
      ⟨p ++ [], k.stream, true⟩ :=
    .bad (by rw [List.append_nil]; exact hcut)
  rw [List.append_nil] at hmove
  rw [hstream]
  exact hmove

/-- A failure after the packet is in the buffer leaves it there. -/
theorem of_answer {used : List Answer} {a : Answer} {e : Error}
    (ha : a.Fails e) (hstream : k'.stream = k.stream)
    (hscript : k.script = used ++ a :: k'.script) :
    Moves F ⟨p, k.stream, false⟩ k (.error e) ⟨p, k'.stream, false⟩ k' := by
  refine ⟨?_, ⟨used ++ [a], by rw [hscript, List.append_assoc]; rfl⟩,
    fun e' he _ => ?_⟩
  · have hmove : Call F ⟨p, [] ++ k.stream, false⟩ .failed
        ⟨p ++ [], k.stream, false⟩ := .failed
    rw [List.append_nil] at hmove
    rw [absResult_of_fails ha, hstream]
    exact hmove
  · cases he
    exact ⟨used, a, hscript, ha⟩

/-- A poisoned connection reports the violation again. -/
theorem of_dead : Moves F ⟨p, k.stream, true⟩ k (.error .protocolError)
    ⟨p, k.stream, true⟩ k :=
  ⟨.dead, ⟨[], rfl⟩, no_reason⟩

end Moves

-- ================================================================= a run

/-- Every call of `recv` is a move of the abstract receiver `rx` sees, and
keeps the invariant `Ok`. -/
structure Receives (F : Format UInt8 ρ)
    (recv : σ → Kernel → Option (Except Error ρ × σ × Kernel))
    (rx : σ → Kernel → Rx UInt8) (Ok : σ → Prop) : Prop where
  moves : ∀ {s s' : σ} {k k' : Kernel} {res : Except Error ρ},
    recv s k = some (res, s', k') → Ok s →
      Moves F (rx s k) k res (rx s' k') k' ∧ Ok s'

/-- A call the kernel or the allocator failed: it returned the error of
its last answer. -/
def Finished.Interrupted (call : Finished ρ) : Prop :=
  ∃ a e, call.answers.getLast? = some a ∧ a.Fails e
    ∧ call.result = .error e

/-- The results of a run, as the abstract receiver sees them. -/
def absResults (calls : List (Finished ρ)) : List (Result ρ) :=
  calls.map fun call => absResult call.result

theorem oks_absResults (calls : List (Finished ρ)) :
    oks (absResults calls) = oksOf calls := by
  induction calls with
  | nil => rfl
  | cons call calls ih =>
      obtain ⟨res, answers⟩ := call
      cases res with
      | ok r => exact congrArg (r :: ·) ih
      | error e => cases e <;> exact ih

namespace Receives

variable {recv : σ → Kernel → Option (Except Error ρ × σ × Kernel)}
  {rx : σ → Kernel → Rx UInt8} {Ok : σ → Prop} {s : σ} {k : Kernel} {n : Nat}

/-- A run of calls is a run of the abstract receiver. -/
theorem calls (R : Receives F recv rx Ok) (hok : Ok s) :
    ∃ x, Calls F (rx s k) (absResults (runCalls recv n s k)) x := by
  induction n generalizing s k with
  | zero => exact ⟨_, .nil⟩
  | succ n ih =>
      rw [runCalls]
      split
      next => exact ⟨_, .nil⟩
      next res s' k' hcall =>
        obtain ⟨hmove, hok'⟩ := R.moves hcall hok
        obtain ⟨x, hrest⟩ := ih (k := k') hok'
        exact ⟨x, .cons hmove.call hrest⟩

/-- A call of a run that fails for another reason than the format fails
by the last answer it got. -/
theorem failure (R : Receives F recv rx Ok) (hok : Ok s)
    {call : Finished ρ} (hmem : call ∈ runCalls recv n s k) {e : Error}
    (he : call.result = .error e) (hne : e ≠ .protocolError) :
    ∃ a, call.answers.getLast? = some a ∧ a.Fails e := by
  induction n generalizing s k with
  | zero => cases hmem
  | succ n ih =>
      rw [runCalls] at hmem
      split at hmem
      next => cases hmem
      next res s' k' hcall =>
        obtain ⟨hmove, hok'⟩ := R.moves hcall hok
        rcases List.mem_cons.mp hmem with rfl | hmem
        · obtain ⟨used, a, hs, ha⟩ := hmove.failure e he hne
          refine ⟨a, ?_, ha⟩
          have hs' : k.script = (used ++ [a]) ++ k'.script := by
            rw [hs, List.append_assoc]
            rfl
          show (k.script.take (k.script.length - k'.script.length)).getLast?
            = some a
          rw [hs', List.length_append, Nat.add_sub_cancel, List.take_left,
            List.getLast?_concat]
        · exact ih hok' hmem

/-- In a run a call is interrupted exactly when the abstract one
fails. -/
theorem interrupted_iff (R : Receives F recv rx Ok) (hok : Ok s)
    {call : Finished ρ} (hmem : call ∈ runCalls recv n s k) :
    call.Interrupted ↔ absResult call.result = .failed := by
  constructor
  · rintro ⟨a, e, -, ha, hres⟩
    rw [hres]
    exact absResult_of_fails ha
  · intro habs
    cases hres : call.result with
    | ok r => rw [hres] at habs; cases habs
    | error e =>
        have hne : e ≠ .protocolError := by
          rintro rfl
          rw [hres] at habs
          cases habs
        obtain ⟨a, hlast, ha⟩ := R.failure hok hmem hres hne
        exact ⟨a, e, hlast, ha, hres⟩

/-- From a fresh connection the responses are a prefix of the reference's,
in order; a call that is not interrupted reports a protocol error exactly
in front of a packet that violates the format; and from then on every call
does. -/
theorem parse (R : Receives F recv rx Ok) (hok : Ok s) {stream : List UInt8}
    {script : List Answer}
    (hrx : rx s ⟨stream, script⟩ = ⟨[], stream, false⟩) (n : Nat) :
    let calls := runCalls recv n s ⟨stream, script⟩
    oksOf calls <+: F.parse stream
    ∧ ∀ pre call post, calls = pre ++ call :: post →
        (call.result = .error .protocolError ↔
          F.cut (F.after (oksOf pre).length stream) = .bad
            ∧ ¬ call.Interrupted)
        ∧ ((∃ r, call.result = .ok r) ∨ call.result = .error .protocolError
          ∨ call.Interrupted)
        ∧ (call.result = .error .protocolError →
          ∀ later ∈ post, later.result = .error .protocolError) := by
  intro calls
  obtain ⟨x, hrun⟩ := R.calls (n := n) (k := ⟨stream, script⟩) hok
  rw [hrx] at hrun
  have hsound : Rx.Sound F ⟨[], stream, false⟩ := fun hd => by cases hd
  refine ⟨?_, fun pre call post hsplit => ?_⟩
  · rw [← oks_absResults]
    exact hrun.oks_prefix hsound
  · have hmem : call ∈ calls := by
      rw [hsplit]
      exact List.mem_append_right _ (List.mem_cons_self ..)
    have hint := R.interrupted_iff hok hmem
    rw [show runCalls recv n _ _ = _ from hsplit, absResults, List.map_append,
      List.map_cons] at hrun
    obtain ⟨hiff, hlater⟩ := hrun.verdict_iff hsound
    rw [show oks (pre.map fun call => absResult call.result) = oksOf pre from
      oks_absResults pre, absResult_bad_iff, ne_eq, ← hint] at hiff
    refine ⟨hiff, ?_, fun hbad later hlt => ?_⟩
    · cases hres : call.result with
      | ok r => exact Or.inl ⟨r, rfl⟩
      | error e =>
          by_cases he : e = .protocolError
          · exact Or.inr (Or.inl (by rw [he]))
          · obtain ⟨a, hlast, ha⟩ := R.failure hok hmem hres he
            exact Or.inr (Or.inr ⟨a, e, hlast, ha, hres⟩)
    · rw [← absResult_bad_iff]
      exact hlater ((absResult_bad_iff _).mpr hbad) _
        (List.mem_map_of_mem hlt)

end Receives

end Yrmcds
