/-
Writing a sequence of segments through a transport that takes what it
likes.

`pour` is the meaning of every such loop: each answer takes a further
piece of what is left, asks to be called again, or refuses. Which
segments a piece spans is bookkeeping, and `consume` is the whole of it:
dropping `n` elements from the front of a list of segments is dropping
them from the concatenation (`consume_flatten`). A concrete gather loop
is verified by showing that its index juggling is `consume`.
-/
import Mathlib.Data.List.Basic

namespace Gather

variable {α : Type}

/-- One answer of the transport. -/
inductive Ack where
  | took (n : Nat)
  | again
  | refused
  deriving DecidableEq

/-- How a loop ends. With no answer left, or one no transport gives (a
count of zero or above what was offered), it is still waiting. -/
inductive Ending where
  | done
  | refused
  | waiting
  deriving DecidableEq

/-- What a loop has put on the transport, and how it ended. -/
structure Poured (α : Type) where
  written : List α
  ending : Ending
  deriving DecidableEq

/-- More written in front. -/
def Poured.behind (p : Poured α) (bs : List α) : Poured α :=
  ⟨bs ++ p.written, p.ending⟩

/-- Write everything, one answer after the other. -/
def pour : List Ack → List α → Poured α
  | _, [] => ⟨[], .done⟩
  | [], _ :: _ => ⟨[], .waiting⟩
  | .again :: acks, b :: bs => pour acks (b :: bs)
  | .refused :: _, _ :: _ => ⟨[], .refused⟩
  | .took n :: acks, b :: bs =>
      if 0 < n ∧ n ≤ (b :: bs).length then
        (pour acks ((b :: bs).drop n)).behind ((b :: bs).take n)
      else ⟨[], .waiting⟩

theorem pour_nil (acks : List Ack) : pour acks ([] : List α) = ⟨[], .done⟩ := by
  cases acks with
  | nil => rfl
  | cons a acks => cases a <;> rfl

/-- Induction along a loop that has not ended. -/
theorem pour_took {n : Nat} {bs : List α} (acks : List Ack) (hpos : 0 < n)
    (hle : n ≤ bs.length) :
    pour (.took n :: acks) bs
      = (pour acks (bs.drop n)).behind (bs.take n) := by
  cases bs with
  | nil => rw [List.length_nil] at hle; omega
  | cons b bs => rw [pour, if_pos ⟨hpos, hle⟩]

/-- What is written is a prefix of what was to be written, the whole of
it exactly when the loop is done. -/
theorem pour_written_and_ending (acks : List Ack) (bs : List α) :
    (pour acks bs).written <+: bs
      ∧ ((pour acks bs).ending = .done ↔ (pour acks bs).written = bs) := by
  induction acks generalizing bs with
  | nil =>
      cases bs with
      | nil => exact ⟨List.nil_prefix, ⟨fun _ => rfl, fun _ => rfl⟩⟩
      | cons b bs =>
          exact ⟨List.nil_prefix, ⟨fun h => (by cases h), fun h => (by cases h)⟩⟩
  | cons a acks ih =>
      cases bs with
      | nil =>
          rw [pour_nil]
          exact ⟨List.nil_prefix, ⟨fun _ => rfl, fun _ => rfl⟩⟩
      | cons b bs =>
          cases a with
          | again => exact ih (b :: bs)
          | refused =>
              exact ⟨List.nil_prefix,
                ⟨fun h => (by cases h), fun h => (by cases h)⟩⟩
          | took n =>
              rw [pour]
              split
              next hn =>
                obtain ⟨hpre, hdone⟩ := ih ((b :: bs).drop n)
                refine ⟨?_, hdone.trans ((List.append_right_inj
                  ((b :: bs).take n)).symm.trans ?_)⟩
                · calc (b :: bs).take n ++ (pour acks ((b :: bs).drop n)).written
                      <+: (b :: bs).take n ++ (b :: bs).drop n :=
                        (List.prefix_append_right_inj _).mpr hpre
                    _ = b :: bs := List.take_append_drop n (b :: bs)
                · rw [List.take_append_drop n (b :: bs)]
                  exact Iff.rfl
              next =>
                exact ⟨List.nil_prefix,
                  ⟨fun h => (by cases h), fun h => (by cases h)⟩⟩

theorem pour_written_prefix (acks : List Ack) (bs : List α) :
    (pour acks bs).written <+: bs := (pour_written_and_ending acks bs).1

theorem pour_done_iff (acks : List Ack) (bs : List α) :
    (pour acks bs).ending = .done ↔ (pour acks bs).written = bs :=
  (pour_written_and_ending acks bs).2

/-- A loop that gives up was refused. -/
theorem pour_refused {acks : List Ack} {bs : List α}
    (h : (pour acks bs).ending = .refused) : .refused ∈ acks := by
  induction acks generalizing bs with
  | nil => cases bs <;> cases h
  | cons a acks ih =>
      cases bs with
      | nil =>
          rw [pour_nil] at h
          cases h
      | cons b bs =>
          cases a with
          | refused => exact List.mem_cons_self ..
          | again => exact List.mem_cons_of_mem _ (ih h)
          | took n =>
              rw [pour] at h
              split at h
              next => exact List.mem_cons_of_mem _ (ih h)
              next => cases h

/-- A transport that takes everything at once. -/
theorem pour_all (bs : List α) : pour [.took bs.length] bs = ⟨bs, .done⟩ := by
  cases bs with
  | nil => rfl
  | cons b bs =>
      have hpos : 0 < (b :: bs).length := Nat.succ_pos _
      rw [pour_took [] hpos (Nat.le_refl _), List.drop_length,
        List.take_length, pour_nil, Poured.behind, List.append_nil]

/-- The first answer that is not a retry takes something of the `len`
elements offered. -/
def Takes (len : Nat) : List Ack → Prop
  | .again :: acks => Takes len acks
  | .took n :: _ => 0 < n ∧ n ≤ len
  | _ => False

/-- Something is written exactly when the first answer takes it. -/
theorem pour_written_ne_nil_iff (acks : List Ack) {bs : List α}
    (h : bs ≠ []) : (pour acks bs).written ≠ [] ↔ Takes bs.length acks := by
  cases bs with
  | nil => exact absurd rfl h
  | cons b bs =>
      induction acks with
      | nil => exact ⟨fun hw => absurd rfl hw, False.elim⟩
      | cons a acks ih =>
          cases a with
          | again => exact ih
          | refused => exact ⟨fun hw => absurd rfl hw, False.elim⟩
          | took n =>
              rw [pour, Takes]
              split
              next hn =>
                refine ⟨fun _ => hn, fun _ hnil => ?_⟩
                obtain ⟨m, rfl⟩ : ∃ m, n = m + 1 := ⟨n - 1, by omega⟩
                cases hnil
              next hn => exact ⟨fun hw => absurd rfl hw, fun h => absurd h hn⟩

/-- A transport that fails nobody: it asks to be called again, or takes
between one and all of the `len` elements offered. -/
def Fair : Nat → List Ack → Prop
  | _, [] => True
  | len, .again :: acks => Fair len acks
  | len, .took n :: acks => (0 < n ∧ n ≤ len) ∧ Fair (len - n) acks
  | _, .refused :: _ => False

/-- How much a list of answers takes. -/
def accepted : List Ack → Nat
  | [] => 0
  | .took n :: acks => n + accepted acks
  | _ :: acks => accepted acks

/-- With a fair transport exactly what it takes is written, and the loop
ends when that is all. -/
theorem pour_fair {acks : List Ack} {bs : List α} (h : Fair bs.length acks) :
    (pour acks bs).written = bs.take (accepted acks)
      ∧ accepted acks ≤ bs.length
      ∧ ((pour acks bs).ending = .done ∨ (pour acks bs).ending = .waiting)
      ∧ ((pour acks bs).ending = .done ↔ accepted acks = bs.length) := by
  induction acks generalizing bs with
  | nil =>
      cases bs with
      | nil => exact ⟨rfl, Nat.le_refl _, .inl rfl, iff_of_true rfl rfl⟩
      | cons b bs =>
          exact ⟨rfl, Nat.zero_le _, .inr rfl,
            iff_of_false (fun hd => by cases hd) fun hz => by cases hz⟩
  | cons a acks ih =>
      cases a with
      | again =>
          have ih := ih h
          cases bs with
          | nil =>
              rw [pour_nil] at ih ⊢
              exact ih
          | cons b bs => exact ih
      | refused => exact h.elim
      | took n =>
          obtain ⟨⟨hpos, hle⟩, hrest⟩ := h
          rw [← List.length_drop] at hrest
          obtain ⟨hw, hacc, hend, hdone⟩ := ih hrest
          rw [List.length_drop] at hacc hdone
          rw [pour_took acks hpos hle, Poured.behind, accepted]
          refine ⟨?_, by omega, hend, hdone.trans ⟨?_, ?_⟩⟩
          · rw [hw, List.take_add]
          · omega
          · omega

-- ============================================================= segments

/-- Drop `n` elements from the front of a list of segments. -/
def consume : List (List α) → Nat → List (List α)
  | [], _ => []
  | s :: ss, n =>
      if n < s.length then s.drop n :: ss else consume ss (n - s.length)

theorem consume_flatten (ss : List (List α)) (n : Nat) :
    (consume ss n).flatten = ss.flatten.drop n := by
  induction ss generalizing n with
  | nil => rw [consume, List.flatten_nil, List.drop_nil]
  | cons s ss ih =>
      rw [consume, List.flatten_cons]
      split
      next hlt =>
        rw [List.flatten_cons, List.drop_append_of_le_length (by omega)]
      next hge =>
        rw [ih, List.drop_append,
          List.drop_eq_nil_of_le (show s.length ≤ n by omega),
          List.nil_append]

/-- No segment left is empty. -/
theorem consume_nonempty {ss : List (List α)} (h : ∀ s ∈ ss, s ≠ [])
    (n : Nat) : ∀ s ∈ consume ss n, s ≠ [] := by
  induction ss generalizing n with
  | nil => intro s hs; cases hs
  | cons t ss ih =>
      rw [consume]
      split
      next hlt =>
        intro s hs
        rcases List.mem_cons.mp hs with rfl | hs
        · intro hnil
          have := List.drop_eq_nil_iff.mp hnil
          omega
        · exact h s (List.mem_cons_of_mem _ hs)
      next => exact ih (fun s hs => h s (List.mem_cons_of_mem _ hs)) _

end Gather
