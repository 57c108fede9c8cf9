/-
The kernel and the allocator as a connection's receive side meets them:
the bytes still to come from the peer, and a script of answers to the
system calls and allocations in the order they are made. A script fixes
one execution, so a statement about every script is one about every way
the kernel may cut the stream, interrupt a call or fail it.

A call that finds the script at its end, or an answer of the wrong kind,
has no result (`none`): it is still blocked at that point.
-/
import Yrmcds.Model.Basic

namespace Yrmcds

/-- One answer of the kernel or the allocator. -/
inductive Answer where
  /-- `recv()` hands over the next `n` bytes of the stream. -/
  | bytes (n : Nat)
  /-- `recv()` fails with `EINTR`. -/
  | eintr
  /-- `recv()` fails otherwise, for instance on a timeout. -/
  | error
  /-- `recv()` returns 0. -/
  | eof
  /-- `malloc()`/`realloc()` succeeds; `junk` is what fresh memory holds. -/
  | block (junk : Mem)
  /-- `malloc()`/`realloc()` returns `NULL`. -/
  | null

/-- The answer fails nobody. -/
def Answer.Serves : Answer → Prop
  | .error | .eof | .null => False
  | _ => True

instance : DecidablePred Answer.Serves
  | .bytes _ | .eintr | .block _ => .isTrue trivial
  | .error | .eof | .null => .isFalse id

/-- A script that fails nobody. -/
def Serving (script : List Answer) : Prop := ∀ a ∈ script, a.Serves

/-- The peer's bytes still to come, and the answers still to be given. -/
structure Kernel where
  stream : List UInt8
  script : List Answer

/-- The outcome of a finished `recv()` loop. -/
inductive RecvRet where
  | got (bs : List UInt8)
  | error
  | eof

/-- `AGAIN: n = recv(...); if EINTR goto AGAIN`, over the answers. -/
def recvAgain (len : Nat) :
    List Answer → List UInt8 → Option (RecvRet × Kernel)
  | .eintr :: script, stream => recvAgain len script stream
  | .bytes n :: script, stream =>
      if 0 < n ∧ n ≤ len ∧ n ≤ stream.length then
        some (.got (stream.take n), ⟨stream.drop n, script⟩)
      else none
  | .error :: script, stream => some (.error, ⟨stream, script⟩)
  | .eof :: script, stream => some (.eof, ⟨stream, script⟩)
  | _, _ => none

/-- `recv()` of at most `len` bytes, retried over `EINTR`. -/
def Kernel.recv (k : Kernel) (len : Nat) : Option (RecvRet × Kernel) :=
  recvAgain len k.script k.stream

/-- One allocation: the fresh memory, or `none` inside for `NULL`. -/
def Kernel.alloc (k : Kernel) : Option (Option Mem × Kernel) :=
  match k.script with
  | .block junk :: script => some (some junk, { k with script })
  | .null :: script => some (none, { k with script })
  | _ => none

/-- What an outcome of `recv()` says about the stream before and after it
and about the answer that decided it. -/
def RecvRet.Did (len : Nat) (a : Answer) (before after : List UInt8) :
    RecvRet → Prop
  | .got bs => before = bs ++ after ∧ 0 < bs.length ∧ bs.length ≤ len
  | .error => after = before ∧ a = .error
  | .eof => after = before ∧ a = .eof

/-- A finished `recv()` used up at least one answer, the last of which
decided the outcome. -/
theorem Kernel.recv_spec {k k' : Kernel} {len : Nat} {ret : RecvRet}
    (h : k.recv len = some (ret, k')) :
    ∃ used a, k.script = used ++ a :: k'.script
      ∧ ret.Did len a k.stream k'.stream := by
  obtain ⟨stream, script⟩ := k
  unfold Kernel.recv at h
  simp only at h ⊢
  induction script with
  | nil => simp [recvAgain] at h
  | cons a script ih =>
      cases a with
      | eintr =>
          obtain ⟨used, a, hs, hret⟩ := ih h
          exact ⟨.eintr :: used, a, by rw [hs]; rfl, hret⟩
      | bytes n =>
          simp only [recvAgain] at h
          split at h
          next hn =>
            injection h with h
            injection h with h₁ h₂
            subst h₁ h₂
            refine ⟨[], .bytes n, rfl, (List.take_append_drop n stream).symm,
              ?_, ?_⟩ <;> rw [List.length_take] <;> omega
          next => cases h
      | error =>
          simp only [recvAgain, Option.some.injEq, Prod.mk.injEq] at h
          obtain ⟨rfl, rfl⟩ := h
          exact ⟨[], .error, rfl, rfl, rfl⟩
      | eof =>
          simp only [recvAgain, Option.some.injEq, Prod.mk.injEq] at h
          obtain ⟨rfl, rfl⟩ := h
          exact ⟨[], .eof, rfl, rfl, rfl⟩
      | block junk => simp [recvAgain] at h
      | null => simp [recvAgain] at h

/-- An allocation uses up one answer and leaves the stream alone. -/
theorem Kernel.alloc_spec {k k' : Kernel} {m : Option Mem}
    (h : k.alloc = some (m, k')) :
    k'.stream = k.stream ∧ ∃ a, k.script = a :: k'.script
      ∧ (m = none → a = .null) := by
  obtain ⟨stream, script⟩ := k
  unfold Kernel.alloc at h
  split at h
  next junk script' hs =>
    simp only [Option.some.injEq, Prod.mk.injEq] at h
    obtain ⟨rfl, rfl⟩ := h
    exact ⟨rfl, _, hs, fun hm => by cases hm⟩
  next script' hs =>
    simp only [Option.some.injEq, Prod.mk.injEq] at h
    obtain ⟨rfl, rfl⟩ := h
    exact ⟨rfl, _, hs, fun _ => rfl⟩
  next => cases h

-- ================================================================== calls

/-- One finished call of a receiving function: its result and the answers
it used up. -/
structure Finished (ρ : Type) where
  result : Except Error ρ
  answers : List Answer

/-- The first `n` calls of a receiving function, up to one that does not
return. -/
def runCalls {σ ρ : Type}
    (recv : σ → Kernel → Option (Except Error ρ × σ × Kernel)) :
    Nat → σ → Kernel → List (Finished ρ)
  | 0, _, _ => []
  | n + 1, s, k =>
      match recv s k with
      | none => []
      | some (res, s', k') =>
          ⟨res, k.script.take (k.script.length - k'.script.length)⟩
            :: runCalls recv n s' k'

/-- The responses a run of calls returned, in order. -/
def oksOf {ρ : Type} : List (Finished ρ) → List ρ
  | [] => []
  | ⟨.ok r, _⟩ :: calls => r :: oksOf calls
  | ⟨.error _, _⟩ :: calls => oksOf calls

end Yrmcds
