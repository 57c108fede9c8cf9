/-
Computations that read and write memory of a known extent.

Such a computation ends in a value or in an error of its own. It can
also get stuck: an access outside the memory it was given is a `fault`,
and a loop written with a bound on its rounds is `spent` when the bound
is too small. `Ends` is the statement that it does neither; the rules
below take it apart along a program, so that a proof follows the text.
`Extends` compares a computation with the same one in more memory, which
goes the same way for as long as the first one does not fault.
-/
import Mathlib.Logic.Basic

/-- How a computation stops short of a value. -/
inductive Stop (ε : Type) where
  | fault
  | spent
  | error (e : ε)
  deriving DecidableEq, Repr

/-- A computation with errors `ε`. -/
abbrev Checked (ε α : Type) := Except (Stop ε) α

namespace Checked

variable {ε α β : Type}

/-- `x` ends, in a value that meets `P` or in an error that meets `E`. -/
inductive Ends (P : α → Prop) (E : ε → Prop) : Checked ε α → Prop
  | ok {a : α} (h : P a) : Ends P E (.ok a)
  | error {e : ε} (h : E e) : Ends P E (.error (.error e))

variable {P Q : α → Prop} {E F : ε → Prop} {x : Checked ε α}

@[simp] theorem ok_bind (a : α) (f : α → Checked ε β) :
    ((.ok a : Checked ε α) >>= f) = f a := rfl

@[simp] theorem error_bind (s : Stop ε) (f : α → Checked ε β) :
    ((.error s : Checked ε α) >>= f) = .error s := rfl

@[simp] theorem ends_ok {a : α} : Ends P E (.ok a) ↔ P a := by
  constructor
  · intro h
    cases h with
    | ok h => exact h
  · exact .ok

@[simp] theorem ends_pure {a : α} : Ends P E (pure a) ↔ P a := ends_ok

@[simp] theorem ends_error {e : ε} : Ends P E (.error (.error e)) ↔ E e := by
  constructor
  · intro h
    cases h with
    | error h => exact h
  · exact .error

/-- Weaker conditions are met as well. -/
theorem Ends.mono (h : Ends P E x) (hP : ∀ a, P a → Q a)
    (hE : ∀ e, E e → F e) : Ends Q F x := by
  cases h with
  | ok h => exact .ok (hP _ h)
  | error h => exact .error (hE _ h)

/-- One computation after the other. -/
theorem Ends.bind' {Q : β → Prop} {f : α → Checked ε β} (h : Ends P E x)
    (hf : ∀ a, P a → Ends Q F (f a)) (hE : ∀ e, E e → F e) :
    Ends Q F (x >>= f) := by
  cases h with
  | ok h => exact hf _ h
  | error h => exact .error (hE _ h)

theorem Ends.bind {Q : β → Prop} {f : α → Checked ε β} (h : Ends P E x)
    (hf : ∀ a, P a → Ends Q E (f a)) : Ends Q E (x >>= f) :=
  h.bind' hf fun _ h => h

/-- A computation without errors of its own has a value. -/
theorem Ends.value (h : Ends P (fun _ : ε => False) x) :
    ∃ a, x = .ok a ∧ P a := by
  cases h with
  | ok h => exact ⟨_, rfl, h⟩
  | error h => exact h.elim

/-- A computation that ends is not stuck. -/
theorem Ends.ne_fault (h : Ends P E x) : x ≠ .error .fault := by
  intro hx
  subst hx
  cases h

-- ============================================================ more memory

/-- `y` is `x`, unless `x` faults. -/
inductive Extends : Checked ε α → Checked ε α → Prop
  | fault (y : Checked ε α) : Extends (.error .fault) y
  | same (x : Checked ε α) : Extends x x

theorem Extends.bind {x y : Checked ε α} {f g : α → Checked ε β}
    (h : Extends x y) (hf : ∀ a, Extends (f a) (g a)) :
    Extends (x >>= f) (y >>= g) := by
  cases h with
  | fault => exact .fault _
  | same =>
      cases x with
      | ok a => exact hf a
      | error s => exact .same _

/-- A computation that ends makes no use of more memory. -/
theorem Extends.eq_of_ends {x y : Checked ε α} (h : Extends x y)
    (hx : Ends P E x) : x = y := by
  cases h with
  | fault => cases hx
  | same => rfl

end Checked
