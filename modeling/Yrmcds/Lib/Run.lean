/-
Runs of a machine that may stop with an error.

`exec` performs labels one after the other. A property of runs is proved
by one step: what holds at the start and is kept by every step holds in
every state reached (`exec_inv`), and an error that no step makes is made
by no run (`exec_error`). `Guarded` restricts a run to labels that meet a
condition on the state they are performed in; it is how an assumption on
the environment of a run is stated. A part of the state that some labels
leave alone is reached by the run without them (`exec_filter`). A step made
of parts is taken apart by `bind_ok`. `ends` and `checks` evaluate a given
run and its condition.
-/
import Mathlib.Data.List.Basic

namespace Run

variable {σ κ ε : Type} {step : σ → κ → Except ε σ}

/-- Perform labels one after the other. -/
def exec (step : σ → κ → Except ε σ) : σ → List κ → Except ε σ
  | s, [] => .ok s
  | s, k :: ks =>
      match step s k with
      | .ok s' => exec step s' ks
      | .error e => .error e

/-- Every label performed meets `P` in the state it is performed in. -/
def Guarded (step : σ → κ → Except ε σ) (P : σ → κ → Prop) :
    σ → List κ → Prop
  | _, [] => True
  | s, k :: ks => P s k ∧ ∀ s', step s k = .ok s' → Guarded step P s' ks

/-- Invariants hold in every state reached. -/
theorem exec_inv {I : σ → Prop} {P : σ → κ → Prop}
    (hstep : ∀ s k s', I s → P s k → step s k = .ok s' → I s')
    {s s' : σ} {ks : List κ} (hs : I s) (hg : Guarded step P s ks)
    (h : exec step s ks = .ok s') : I s' := by
  induction ks generalizing s with
  | nil =>
      cases h
      exact hs
  | cons k ks ih =>
      rw [exec] at h
      split at h
      next s₁ hk => exact ih (hstep s k s₁ hs hg.1 hk) (hg.2 s₁ hk) h
      next => cases h

/-- Errors are made by single steps. -/
theorem exec_error {I : σ → Prop} {P : σ → κ → Prop} {E : ε → Prop}
    (hstep : ∀ s k s', I s → P s k → step s k = .ok s' → I s')
    (herr : ∀ s k e, I s → P s k → step s k = .error e → E e)
    {s : σ} {ks : List κ} {e : ε} (hs : I s) (hg : Guarded step P s ks)
    (h : exec step s ks = .error e) : E e := by
  induction ks generalizing s with
  | nil => cases h
  | cons k ks ih =>
      rw [exec] at h
      split at h
      next s₁ hk => exact ih (hstep s k s₁ hs hg.1 hk) (hg.2 s₁ hk) h
      next e' hk =>
        cases h
        exact herr s k e hs hg.1 hk

/-- A weaker condition on the labels. -/
theorem Guarded.mono {P P' : σ → κ → Prop} (himp : ∀ s k, P s k → P' s k)
    {s : σ} {ks : List κ} (h : Guarded step P s ks) :
    Guarded step P' s ks := by
  induction ks generalizing s with
  | nil => trivial
  | cons k ks ih =>
      exact ⟨himp s k h.1, fun s' hk => ih (h.2 s' hk)⟩

theorem guarded_true {s : σ} {ks : List κ} :
    Guarded step (fun _ _ => True) s ks := by
  induction ks generalizing s with
  | nil => trivial
  | cons k ks ih => exact ⟨trivial, fun _ _ => ih⟩

/-- A run in two parts. -/
theorem exec_append {s s' : σ} {ks ks' : List κ}
    (h : exec step s ks = .ok s') :
    exec step s (ks ++ ks') = exec step s' ks' := by
  induction ks generalizing s with
  | nil =>
      cases h
      rfl
  | cons k ks ih =>
      rw [exec] at h
      rw [List.cons_append, exec]
      split at h
      next => exact ih h
      next => cases h

/-- A condition on the labels alone. -/
theorem guarded_of_forall {P : κ → Prop} {s : σ} {ks : List κ}
    (h : ∀ k ∈ ks, P k) : Guarded step (fun _ => P) s ks := by
  induction ks generalizing s with
  | nil => trivial
  | cons k ks ih =>
      exact ⟨h k (List.mem_cons_self ..),
        fun _ _ => ih fun k hk => h k (List.mem_cons_of_mem _ hk)⟩

/-- A condition that every label of a run meets where the run comes to
it. -/
theorem guarded_of_reached {P : σ → κ → Prop} {s : σ} {ks : List κ}
    (h : ∀ pre k post s', ks = pre ++ k :: post → exec step s pre = .ok s' →
      P s' k) : Guarded step P s ks := by
  induction ks generalizing s with
  | nil => trivial
  | cons k ks ih =>
      refine ⟨h [] k ks s rfl rfl, fun s₁ hk => ih ?_⟩
      intro pre k' post s' hks hpre
      refine h (k :: pre) k' post s' ?_ ?_
      · rw [hks, List.cons_append]
      · rw [exec, hk]
        exact hpre

/-- Labels that a part of the state does not notice can be left out of a
run. `R` says that two states agree in that part. -/
theorem exec_filter {R : σ → σ → Prop} {p : κ → Bool}
    (hmine : ∀ s t k s', R s t → p k = true → step s k = .ok s' →
      ∃ t', step t k = .ok t' ∧ R s' t')
    (hother : ∀ s t k s', R s t → p k = false → step s k = .ok s' → R s' t)
    {s s' t : σ} {ks : List κ} (hR : R s t) (h : exec step s ks = .ok s') :
    ∃ t', exec step t (ks.filter p) = .ok t' ∧ R s' t' := by
  induction ks generalizing s t with
  | nil =>
      cases h
      exact ⟨t, rfl, hR⟩
  | cons k ks ih =>
      rw [exec] at h
      split at h
      next s₁ hk =>
        cases hm : p k with
        | true =>
            obtain ⟨t₁, hk', hR₁⟩ := hmine s t k s₁ hR hm hk
            obtain ⟨t', hrun, hR'⟩ := ih hR₁ h
            refine ⟨t', ?_, hR'⟩
            rw [List.filter_cons_of_pos hm, exec, hk']
            exact hrun
        | false =>
            rw [List.filter_cons_of_neg (by rw [hm]; exact Bool.false_ne_true)]
            exact ih (hother s t k s₁ hR hm hk) h
      next => cases h

-- ================================================================== parts

/-- A step of two parts has gone through both. -/
theorem bind_ok {α β : Type} {x : Except ε α} {f : α → Except ε β} {b : β}
    (h : x >>= f = .ok b) : ∃ a, x = .ok a ∧ f a = .ok b := by
  cases x with
  | ok a => exact ⟨a, rfl, h⟩
  | error e => cases h

/-- A result that is only passed on. -/
theorem map_ok {α β : Type} {x : Except ε α} {f : α → β} {b : β}
    (h : x.map f = .ok b) : ∃ a, x = .ok a ∧ f a = b := by
  cases x with
  | ok a => exact ⟨a, rfl, Except.ok.inj h⟩
  | error e => cases h

/-- A second part that cannot fail makes no error. -/
theorem bind_error_iff {α β : Type} {x : Except ε α} {f : α → β} {e : ε} :
    (do let a ← x; .ok (f a) : Except ε β) = .error e ↔ x = .error e := by
  cases x with
  | error e' => exact ⟨fun h => (by cases h; rfl), fun h => (by cases h; rfl)⟩
  | ok a => exact ⟨fun h => (by cases h), fun h => (by cases h)⟩

-- ============================================================= evaluation

/-- A run ends in a state with `p`. -/
def ends (r : Except ε σ) (p : σ → Bool) : Bool :=
  match r with
  | .ok s => p s
  | .error _ => false

theorem exists_of_ends {r : Except ε σ} {p : σ → Bool}
    (h : ends r p = true) : ∃ s, r = .ok s ∧ p s = true := by
  cases r with
  | ok s => exact ⟨s, rfl, h⟩
  | error => cases h

/-- The labels of a run checked one by one. -/
def checks (step : σ → κ → Except ε σ) (p : σ → κ → Bool) :
    σ → List κ → Bool
  | _, [] => true
  | s, k :: ks => p s k &&
      match step s k with
      | .ok s' => checks step p s' ks
      | .error _ => true

theorem guarded_of_checks {P : σ → κ → Prop} {p : σ → κ → Bool}
    (himp : ∀ s k, p s k = true → P s k) {s : σ} {ks : List κ}
    (h : checks step p s ks = true) : Guarded step P s ks := by
  induction ks generalizing s with
  | nil => trivial
  | cons k ks ih =>
      rw [checks, Bool.and_eq_true] at h
      refine ⟨himp s k h.1, fun s' hk => ih ?_⟩
      rw [hk] at h
      exact h.2

end Run
