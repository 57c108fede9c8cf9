/-
Programs that compute from answers to questions. A `Prog A α` either has
its result or asks a question `q` and goes on with the answer of type
`A q`; what it computes against an answerer is `run`, what it looked at
on the way is `asked`.

The point of the shape: a decoder written as a `Prog` cannot look at
anything it does not ask for, so that where it looks is a bound on its
list of questions, which follows the program piece by piece.
-/
import Mathlib.Logic.Basic

namespace Query

variable {Q : Type} {A : Q → Type} {α β : Type}

/-- A program over questions `Q` with answers `A`, computing an `α`. -/
inductive Prog (A : Q → Type) (α : Type) : Type where
  | ret (a : α)
  | ask (q : Q) (k : A q → Prog A α)

/-- Sequencing. -/
def Prog.bind : Prog A α → (α → Prog A β) → Prog A β
  | .ret a, f => f a
  | .ask q k, f => .ask q fun a => (k a).bind f

instance : Monad (Prog A) where
  pure := .ret
  bind := .bind

/-- Ask one question and return its answer. -/
def query (q : Q) : Prog A (A q) := .ask q .ret

/-- The result against an answerer. -/
def run (h : ∀ q, A q) : Prog A α → α
  | .ret a => a
  | .ask q k => run h (k (h q))

/-- The questions asked of an answerer, in order. -/
def asked (h : ∀ q, A q) : Prog A α → List Q
  | .ret _ => []
  | .ask q k => q :: asked h (k (h q))

-- ============================================================ equations

@[simp] theorem run_pure (h : ∀ q, A q) (a : α) :
    run h (pure a : Prog A α) = a := (rfl)

@[simp] theorem run_query (h : ∀ q, A q) (q : Q) :
    run h (query q : Prog A (A q)) = h q := (rfl)

@[simp] theorem run_bind (h : ∀ q, A q) (p : Prog A α) (f : α → Prog A β) :
    run h (p >>= f) = run h (f (run h p)) := by
  induction p with
  | ret a => rfl
  | ask q k ih => exact ih (h q)

@[simp] theorem run_ite (h : ∀ q, A q) (c : Prop) [Decidable c]
    (p p' : Prog A α) :
    run h (if c then p else p') = if c then run h p else run h p' := by
  split <;> rfl

@[simp] theorem asked_pure (h : ∀ q, A q) (a : α) :
    asked h (pure a : Prog A α) = [] := (rfl)

@[simp] theorem asked_query (h : ∀ q, A q) (q : Q) :
    asked h (query q : Prog A (A q)) = [q] := (rfl)

@[simp] theorem asked_bind (h : ∀ q, A q) (p : Prog A α)
    (f : α → Prog A β) :
    asked h (p >>= f) = asked h p ++ asked h (f (run h p)) := by
  induction p with
  | ret a => rfl
  | ask q k ih => exact congrArg (q :: ·) (ih (h q))

@[simp] theorem asked_ite (h : ∀ q, A q) (c : Prop) [Decidable c]
    (p p' : Prog A α) :
    asked h (if c then p else p')
      = if c then asked h p else asked h p' := by
  split <;> rfl

end Query
