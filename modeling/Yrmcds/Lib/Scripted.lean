/-
Computations driven by a script of events.

A `Call` takes what it needs from the front of the script and leaves the
rest; where the script does not go with what it does it is blocked, and
has no result. Calls on different levels of a design meet different events:
`Simulates` says that whatever a call does on one level, a call on the
other does with events of its own, so that related states stay related.
It is proved once for the smallest calls and follows for what is made of
them, down to whole runs (`Simulates.each`). `Leads` does the same for what
holds of one level before and after a call; `Leads.each` takes a condition
that is counted up by every call.
-/
import Mathlib.Data.List.Forall2

namespace Scripted

/-- What a computation makes of a script and a state: its result, the state
and the rest of the script; `none` where it is blocked. -/
def Call (ε σ α : Type) : Type := List ε → σ → Option (α × σ × List ε)

instance {ε σ : Type} : Monad (Call ε σ) where
  pure a := fun events s => some (a, s, events)
  bind x f := fun events s =>
    match x events s with
    | none => none
    | some (a, s, events) => f a events s

variable {ε ε' σ τ κ α α' β β' : Type}

/-- One call for each label, in order. -/
def each (call : κ → Call ε σ α) : List κ → Call ε σ (List α)
  | [] => pure []
  | k :: ks => do
      let a ← call k
      let as ← each call ks
      return a :: as

theorem pure_eq (a : α) (events : List ε) (s : σ) :
    (pure a : Call ε σ α) events s = some (a, s, events) := rfl

/-- A call is blocked where its first part is. -/
theorem bind_none {x : Call ε σ α} (f : α → Call ε σ β) {events : List ε}
    {s : σ} (h : x events s = none) : (x >>= f) events s = none := by
  simp only [Bind.bind, h]

/-- The second part goes on from where the first has ended. -/
theorem bind_some {x : Call ε σ α} (f : α → Call ε σ β)
    {events events' : List ε} {s s' : σ} {a : α}
    (h : x events s = some (a, s', events')) :
    (x >>= f) events s = f a events' s' := by
  simp only [Bind.bind, h]

/-- A call of two parts has gone through both. -/
theorem bind_eq_some {x : Call ε σ α} {f : α → Call ε σ β} {events : List ε}
    {s : σ} {r : β × σ × List ε} :
    (x >>= f) events s = some r
      ↔ ∃ a s' events', x events s = some (a, s', events')
        ∧ f a events' s' = some r := by
  constructor
  · intro h
    cases hx : x events s with
    | none =>
        rw [bind_none f hx] at h
        cases h
    | some out =>
        obtain ⟨a, s', events'⟩ := out
        rw [bind_some f hx] at h
        exact ⟨a, s', events', rfl, h⟩
  · intro h
    obtain ⟨a, s', events', hx, hf⟩ := h
    rw [bind_some f hx]
    exact hf

/-- A given call, evaluated. -/
theorem exists_of_any {x : Option (α × σ × List ε)}
    {p : α × σ × List ε → Bool} (h : x.any p = true) :
    ∃ a s rest, x = some (a, s, rest) ∧ p (a, s, rest) = true := by
  obtain ⟨⟨a, s, rest⟩, hx, hp⟩ := (Option.any_eq_true p x).mp h
  exact ⟨a, s, rest, hx, hp⟩

-- ============================================================= conditions

/-- Where `I` holds before a call, `J` holds after it. -/
def Leads (I J : σ → Prop) (x : Call ε σ α) : Prop :=
  ∀ events s a s' rest, x events s = some (a, s', rest) → I s → J s'

variable {I J K : σ → Prop}

theorem Leads.pure {a : α} (h : ∀ s, I s → J s) :
    Leads I J (Pure.pure a : Call ε σ α) := by
  intro events s a' s' rest hx hI
  rw [pure_eq] at hx
  cases hx
  exact h s hI

theorem Leads.bind {x : Call ε σ α} {f : α → Call ε σ β} (hx : Leads I J x)
    (hf : ∀ a, Leads J K (f a)) : Leads I K (x >>= f) := by
  intro events s b s' rest h hI
  obtain ⟨a, s₁, events₁, hrun, hrest⟩ := bind_eq_some.mp h
  exact hf a _ _ _ _ _ hrest (hx _ _ _ _ _ hrun hI)

/-- A condition that every call counts up by one. -/
theorem Leads.each {I : Nat → σ → Prop} {call : κ → Call ε σ α}
    (h : ∀ k n, Leads (I n) (I (n + 1)) (call k)) (ks : List κ) (n : Nat) :
    Leads (I n) (I (n + ks.length)) (Scripted.each call ks) := by
  induction ks generalizing n with
  | nil => exact .pure fun s hI => hI
  | cons k ks ih =>
      refine (h k n).bind fun a => ?_
      refine (ih (n + 1)).bind fun as => ?_
      refine .pure fun s hI => ?_
      rw [List.length_cons, Nat.add_comm ks.length, ← Nat.add_assoc]
      exact hI

-- ============================================================ simulation

variable {R : σ → τ → Prop} {P : α → β → Prop} {Q : α' → β' → Prop}

/-- Whatever `x` does, `y` does with some events of its own, whatever comes
behind them: the states stay related by `R`, and so are the results by
`P`. -/
def Simulates (R : σ → τ → Prop) (P : α → β → Prop) (x : Call ε σ α)
    (y : Call ε' τ β) : Prop :=
  ∀ events s a s' rest, x events s = some (a, s', rest) →
    ∀ t, R s t → ∃ events' b t',
      (∀ tail, y (events' ++ tail) t = some (b, t', tail)) ∧ P a b ∧ R s' t'

theorem Simulates.pure {a : α} {b : β} (h : P a b) :
    Simulates R P (Pure.pure a : Call ε σ α) (Pure.pure b : Call ε' τ β) := by
  intro events s a' s' rest hx t hR
  rw [pure_eq] at hx
  cases hx
  exact ⟨[], b, t, fun tail => rfl, h, hR⟩

theorem Simulates.bind {x : Call ε σ α} {y : Call ε' τ β}
    {f : α → Call ε σ α'} {g : β → Call ε' τ β'} (hx : Simulates R P x y)
    (hf : ∀ a b, P a b → Simulates R Q (f a) (g b)) :
    Simulates R Q (x >>= f) (y >>= g) := by
  intro events s a' s' rest h t hR
  obtain ⟨a, s₁, events₁, hrun, hrest⟩ := bind_eq_some.mp h
  obtain ⟨pre, b, t₁, hy, hP, hR₁⟩ := hx _ _ _ _ _ hrun t hR
  obtain ⟨post, b', t', hg, hQ, hR'⟩ := hf a b hP _ _ _ _ _ hrest t₁ hR₁
  refine ⟨pre ++ post, b', t', ?_, hQ, hR'⟩
  intro tail
  rw [List.append_assoc]
  exact bind_eq_some.mpr ⟨b, t₁, post ++ tail, hy _, hg tail⟩

/-- Calls that simulate one by one do so in a row. -/
theorem Simulates.each {call : κ → Call ε σ α} {call' : κ → Call ε' τ β}
    (h : ∀ k, Simulates R P (call k) (call' k)) (ks : List κ) :
    Simulates R (List.Forall₂ P) (Scripted.each call ks)
      (Scripted.each call' ks) := by
  induction ks with
  | nil => exact Simulates.pure .nil
  | cons k ks ih =>
      refine (h k).bind ?_
      intro a b hab
      refine ih.bind ?_
      intro as bs hrest
      exact Simulates.pure (.cons hab hrest)

end Scripted
