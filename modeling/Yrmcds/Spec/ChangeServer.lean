/-
What the commands of the command line tool talk to that change something.

A server has a verdict on every request. A refusal is always sent, success
only when the request is not a quiet one; an `Increment` or `Decrement` is
answered with a number then. A `Noop` is always good.
-/
import Yrmcds.Spec.Replies

namespace Yrmcds

/-- The commands whose success is not answered. -/
def Command.isQuiet : Command → Bool
  | .getQ | .getKQ | .setQ | .addQ | .replaceQ | .deleteQ | .incrementQ
  | .decrementQ | .quitQ | .flushQ | .appendQ | .prependQ | .gatQ | .gatKQ
  | .lockQ | .unlockQ | .unlockAllQ | .lagQ | .lagKQ | .rauQ => true
  | _ => false

/-- No other command has the code of one that is answered with a number. -/
theorem Command.of_number_code (cmd : Command)
    (h : cmd.code = Command.increment.code ∨ cmd.code = Command.decrement.code) :
    cmd = .increment ∨ cmd = .decrement := by
  revert h
  cases cmd <;> decide

namespace Yc

/-- A server: its verdicts, the numbers it counts, and the texts of its
refusals, which a client can receive. -/
structure Judge where
  verdict : RequestMessage → Status
  value : RequestMessage → UInt64
  text : Status → List UInt8
  text_le : ∀ status, (text status).length ≤ MAX_CAPACITY

namespace Judge

/-- A good answer. -/
def good (sv : Judge) (m : RequestMessage) : Reply :=
  if m.command = .increment ∨ m.command = .decrement then
    .number m.command.code m.serial (sv.value m)
  else .plain ⟨m.command.code, Status.ok, m.serial, [], []⟩

/-- The answers to a request, none or one. -/
def answers (sv : Judge) (m : RequestMessage) : List Reply :=
  if m.command = .noop then [sv.good m]
  else if sv.verdict m ≠ Status.ok then
    [.plain ⟨m.command.code, sv.verdict m, m.serial, [],
      sv.text (sv.verdict m)⟩]
  else if m.command.isQuiet then []
  else [sv.good m]

theorem good_wellFormed (sv : Judge) (m : RequestMessage) :
    (sv.good m).WellFormed := by
  unfold good
  split
  next hnumber =>
    exact hnumber.imp (congrArg Command.code) (congrArg Command.code)
  next hplain =>
    exact ⟨Nat.zero_lt_succ _, Nat.zero_le _, fun h =>
      hplain (Command.of_number_code m.command h.1)⟩

theorem answers_wellFormed (sv : Judge) {m : RequestMessage} {r : Reply}
    (h : r ∈ sv.answers m) : r.WellFormed := by
  unfold answers at h
  split at h
  next =>
    obtain rfl := List.mem_singleton.mp h
    exact sv.good_wellFormed m
  next =>
    split at h
    next hrefused =>
      obtain rfl := List.mem_singleton.mp h
      refine ⟨Nat.zero_lt_succ _, ?_, fun hg => hrefused hg.2⟩
      show 0 + (sv.text (sv.verdict m)).length ≤ _
      rw [Nat.zero_add]
      exact sv.text_le _
    next =>
      split at h
      next => cases h
      next =>
        obtain rfl := List.mem_singleton.mp h
        exact sv.good_wellFormed m

/-- The server as one that answers. -/
def responder (sv : Judge) : Responder where
  answers := sv.answers
  wellFormed h := sv.answers_wellFormed h

end Judge

end Yc

end Yrmcds
