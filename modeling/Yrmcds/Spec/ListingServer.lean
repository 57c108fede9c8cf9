/-
What `stat` and `keys` of the command line tool talk to, and what they are
to print there.

A server answers such a request with a packet for each record, which has
its key and data, and ends with one that has neither. A record with an
empty value is sent, but `stat` does not show it.
-/
import Yrmcds.Spec.Replies

namespace Yrmcds

namespace Yc

-- ================================================================ records

/-- A record of a listing. -/
structure Record where
  key : List UInt8
  data : List UInt8
  key_ne_nil : key ≠ []
  key_lt : key.length < 2 ^ 16
  total_le : key.length + data.length ≤ MAX_CAPACITY

namespace Record

/-- The answer that has a record. -/
def answer (m : RequestMessage) (r : Record) : KeyedAnswer :=
  ⟨m.command.code, Status.ok, m.serial, r.key, r.data⟩

/-- What `keys` prints of a record. -/
def keyLine (r : Record) : List UInt8 := text r.key ++ [10]

/-- What `stat` prints of a record. -/
def statLine (r : Record) : List UInt8 :=
  if r.data = [] then []
  else text r.key ++ ascii ": " ++ text r.data ++ [10]

end Record

/-- The answer a listing ends with. -/
def endOfListing (m : RequestMessage) : KeyedAnswer :=
  ⟨m.command.code, Status.ok, m.serial, [], []⟩

/-- A server: the records it lists at a request. -/
abbrev Lister : Type := RequestMessage → List Record

/-- The answers to a request. -/
def Lister.answers (sv : Lister) (m : RequestMessage) : List Reply :=
  if m.command = .stat ∨ m.command = .keys then
    (sv m).map (fun r => .plain (r.answer m)) ++ [.plain (endOfListing m)]
  else []

theorem Lister.answers_wellFormed (sv : Lister) {m : RequestMessage} {r : Reply}
    (h : r ∈ sv.answers m) : r.WellFormed := by
  unfold answers at h
  split at h
  next hm =>
    have hplain : ¬ ((m.command.code = Command.increment.code
        ∨ m.command.code = Command.decrement.code)
          ∧ Status.ok = Status.ok) := by
      rcases hm with hm | hm
      · rw [hm]
        decide
      · rw [hm]
        decide
    rcases List.mem_append.mp h with h | h
    · obtain ⟨s, -, rfl⟩ := List.mem_map.mp h
      exact ⟨s.key_lt, s.total_le, hplain⟩
    · obtain rfl := List.mem_singleton.mp h
      exact ⟨Nat.zero_lt_succ _, Nat.zero_le _, hplain⟩
  next => cases h

/-- The server as one that answers. -/
def Lister.responder (sv : Lister) : Responder where
  answers := sv.answers
  wellFormed h := sv.answers_wellFormed h

end Yc

end Yrmcds
