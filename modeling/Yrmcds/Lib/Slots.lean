/-
A table of slots that are filled and emptied but never reused, and the
references its entries hold.

`get` follows an index; filling, emptying and extending the table change
it at one index only. `refs` counts the entries that refer to a given
index through `ref`; changing one slot moves one reference (`refs_set`),
so the counts of all other indices stay.
-/
import Mathlib.Data.List.Basic

namespace Slots

variable {α : Type} {l : List (Option α)} {i j : Nat} {a : α}

/-- The entry of slot `i`, if there is one. -/
def get (l : List (Option α)) (i : Nat) : Option α := (l[i]?).join

theorem get_eq_some : get l i = some a ↔ l[i]? = some (some a) := by
  unfold get
  match l[i]? with
  | none => simp
  | some none => simp
  | some (some _) => simp

theorem lt_of_get (h : get l i = some a) : i < l.length :=
  (List.getElem?_eq_some_iff.mp (get_eq_some.mp h)).1

theorem get_of_le (h : l.length ≤ i) : get l i = none := by
  rw [get, List.getElem?_eq_none h]
  rfl

/-- Changing a slot changes that slot. -/
theorem get_set {slot : Option α} (h : i < l.length) :
    get (l.set i slot) j = if j = i then slot else get l j := by
  unfold get
  by_cases hj : j = i
  · subst hj
    rw [if_pos rfl, List.getElem?_set_self h]
    rfl
  · rw [if_neg hj, List.getElem?_set_ne (Ne.symm hj)]

theorem get_set_ne {slot : Option α} (h : j ≠ i) :
    get (l.set i slot) j = get l j := by
  rw [get, get, List.getElem?_set_ne (Ne.symm h)]

/-- A new entry comes last. -/
theorem get_append :
    get (l ++ [some a]) j = if j = l.length then some a else get l j := by
  unfold get
  by_cases hj : j = l.length
  · subst hj
    simp
  · rw [if_neg hj]
    by_cases hlt : j < l.length
    · rw [List.getElem?_append_left hlt]
    · rw [List.getElem?_eq_none (show l.length ≤ j by omega),
        List.getElem?_eq_none (by rw [List.length_append]; simp; omega)]

theorem get_append_of_some {b : α} (h : get l i = some a) :
    get (l ++ [some b]) i = some a := by
  rw [get_append, if_neg (Nat.ne_of_lt (lt_of_get h))]
  exact h

-- ============================================================= references

/-- A slot whose entry refers to `i`. -/
def refers (ref : α → Option Nat) (i : Nat) (slot : Option α) : Bool :=
  slot.bind ref == some i

/-- How many entries refer to `i`. -/
def refs (ref : α → Option Nat) (l : List (Option α)) (i : Nat) : Nat :=
  l.countP (refers ref i)

variable {ref : α → Option Nat} {o : Nat}

theorem refs_pos (h : get l o = some a) (hr : ref a = some i) :
    0 < refs ref l i := by
  have hm := List.mem_of_getElem? (get_eq_some.mp h)
  exact List.countP_pos_iff.mpr ⟨_, hm, by simp [refers, hr]⟩

/-- Some entry refers to an index that is counted. -/
theorem exists_of_refs_pos (h : 0 < refs ref l i) :
    ∃ o a, get l o = some a ∧ ref a = some i := by
  obtain ⟨slot, hm, hr⟩ := List.countP_pos_iff.mp h
  obtain ⟨o, ho⟩ := List.mem_iff_getElem?.mp hm
  cases slot with
  | none => simp [refers] at hr
  | some a => exact ⟨o, a, get_eq_some.mpr ho, by simpa [refers] using hr⟩

/-- Changing a slot moves the reference it held. -/
theorem refs_set (ref : α → Option Nat) (i : Nat) {slot : Option α}
    (h : l[o]? = some slot) (slot' : Option α) :
    refs ref (l.set o slot') i + (if refers ref i slot then 1 else 0)
      = refs ref l i + (if refers ref i slot' then 1 else 0) := by
  obtain ⟨hlt, hslot⟩ := List.getElem?_eq_some_iff.mp h
  unfold refs
  rw [List.countP_set hlt, hslot]
  split
  next hr =>
    have hpos : 0 < l.countP (refers ref i) :=
      List.countP_pos_iff.mpr ⟨slot, List.mem_of_getElem? h, hr⟩
    omega
  next => omega

theorem refs_append (ref : α → Option Nat) (l : List (Option α)) (a : α)
    (i : Nat) : refs ref (l ++ [some a]) i
      = refs ref l i + if refers ref i (some a) then 1 else 0 := by
  simp [refs, List.countP_append, List.countP_cons]

end Slots
