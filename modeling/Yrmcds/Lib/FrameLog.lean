/-
Logs of framed writes.

Each entry is one attempt to write a frame: what was written of it, and
whether the attempt gave up. A reader of the concatenated bytes keeps
its footing as long as they are whole frames followed by the beginning
of at most one more (`Framed`); it loses it as soon as anything is
written behind a frame that was given up half way (`Torn`).

For the logs a sequential writer leaves (`Log`: an attempt neither whole
nor given up is still going on, so it is the last) the second is the
only way to lose the first (`Log.inSync_iff`).
-/
import Mathlib.Data.List.Basic

namespace FrameLog

variable {α : Type}

/-- One attempt. An attempt that was refused before there was anything
to write has no frame. -/
structure Entry (α : Type) where
  frame : Option (List α)
  written : List α
  gaveUp : Bool

namespace Entry

/-- The whole frame was written. -/
def Whole (e : Entry α) : Prop := e.written = e.frame.getD []

/-- The attempt gave up inside its frame. -/
def Torn (e : Entry α) : Prop :=
  e.gaveUp = true ∧ e.written ≠ [] ∧ ¬ e.Whole

end Entry

/-- The bytes of a log. -/
def bytes (es : List (Entry α)) : List α := (es.map Entry.written).flatten

/-- The frames of a log. -/
def frames (es : List (Entry α)) : List (List α) := es.filterMap Entry.frame

/-- Whole frames, in order, and the beginning of at most one more. -/
def Framed (fs : List (List α)) (b : List α) : Prop :=
  ∃ (whole : List (List α)) (part : List α), whole.Sublist fs ∧ b = whole.flatten ++ part
    ∧ (part = [] ∨ ∃ f ∈ fs, part <+: f ∧ part ≠ f)

/-- Nothing is written behind a torn frame. -/
def Silent (es : List (Entry α)) : Prop :=
  ∀ pre e post, es = pre ++ e :: post → e.Torn →
    ∀ later ∈ post, later.written = []

/-- A log that never loses its reader: at every moment the bytes so far
are framed, and none follows a torn frame. -/
structure InSync (es : List (Entry α)) : Prop where
  framed : ∀ b, b <+: bytes es → Framed (frames es) b
  silent : Silent es

/-- What a sequential writer leaves. -/
inductive Log : List (Entry α) → Prop
  | nil : Log []
  | cons {e : Entry α} {es : List (Entry α)} :
      e.written <+: e.frame.getD [] →
      (e.Whole ∨ e.gaveUp = true ∨ es = []) → Log es → Log (e :: es)

-- ============================================================== silence

/-- Silence by recursion: `torn` says whether the bytes so far end in a
torn frame. -/
def SilentFrom : Prop → List (Entry α) → Prop
  | _, [] => True
  | torn, e :: es => (torn → e.written = []) ∧ SilentFrom (torn ∨ e.Torn) es

theorem silentFrom_of_torn {es : List (Entry α)} {torn : Prop} (h : torn) :
    SilentFrom torn es ↔ ∀ e ∈ es, e.written = [] := by
  induction es generalizing torn with
  | nil => exact ⟨fun _ e he => (by cases he), fun _ => trivial⟩
  | cons e es ih =>
      rw [SilentFrom, ih (Or.inl h), List.forall_mem_cons]
      exact ⟨fun hs => ⟨hs.1 h, hs.2⟩, fun hs => ⟨fun _ => hs.1, hs.2⟩⟩

theorem silent_cons {e : Entry α} {es : List (Entry α)} :
    Silent (e :: es)
      ↔ (e.Torn → ∀ later ∈ es, later.written = []) ∧ Silent es := by
  constructor
  · intro h
    refine ⟨fun ht => h [] e es rfl ht, fun pre e' post heq => ?_⟩
    exact h (e :: pre) e' post (by rw [heq]; rfl)
  · rintro ⟨hhead, htail⟩ pre e' post heq ht
    cases pre with
    | nil =>
        cases heq
        exact hhead ht
    | cons p pre =>
        cases heq
        exact htail pre e' post rfl ht

/-- Less said about the past asks for less. -/
theorem SilentFrom.anti {es : List (Entry α)} {torn torn' : Prop}
    (himp : torn → torn') (h : SilentFrom torn' es) : SilentFrom torn es := by
  induction es generalizing torn torn' with
  | nil => trivial
  | cons e es ih =>
      exact ⟨fun ht => h.1 (himp ht), ih (Or.imp_left himp) h.2⟩

/-- The two readings of silence agree. -/
theorem silent_iff {es : List (Entry α)} : Silent es ↔ SilentFrom False es := by
  induction es with
  | nil =>
      refine ⟨fun _ => trivial, fun _ pre e post heq => ?_⟩
      cases pre <;> cases heq
  | cons e es ih =>
      rw [silent_cons, SilentFrom, ih]
      by_cases ht : e.Torn
      · have hiff : SilentFrom (False ∨ e.Torn) es ↔ _ :=
          silentFrom_of_torn (Or.inr ht)
        rw [hiff]
        exact ⟨fun h => ⟨False.elim, h.1 ht⟩,
          fun h => ⟨fun _ => h.2, (hiff.mpr h.2).anti False.elim⟩⟩
      · exact ⟨fun h => ⟨False.elim, h.2.anti fun h' => h'.elim id ht⟩,
          fun h => ⟨fun h' => absurd h' ht, h.2.anti False.elim⟩⟩

-- ============================================================== framing

theorem Framed.nil (fs : List (List α)) : Framed fs [] :=
  ⟨[], [], List.nil_sublist fs, rfl, Or.inl rfl⟩

/-- More frames admit more. -/
theorem Framed.mono {fs fs' : List (List α)} {b : List α}
    (h : Framed fs b) (hsub : fs.Sublist fs') : Framed fs' b := by
  obtain ⟨whole, part, hwhole, hb, hpart⟩ := h
  refine ⟨whole, part, hwhole.trans hsub, hb, hpart.imp_right ?_⟩
  rintro ⟨f, hf, hpre⟩
  exact ⟨f, hsub.subset hf, hpre⟩

/-- A whole frame in front. -/
theorem Framed.cons {fs : List (List α)} {b : List α} (f : List α)
    (h : Framed fs b) : Framed (f :: fs) (f ++ b) := by
  obtain ⟨whole, part, hwhole, hb, hpart⟩ := h
  refine ⟨f :: whole, part, hwhole.cons_cons f, ?_, hpart.imp_right ?_⟩
  · rw [hb, List.flatten_cons, List.append_assoc]
  · rintro ⟨g, hg, hpre⟩
    exact ⟨g, List.mem_cons_of_mem f hg, hpre⟩

/-- The beginning of the first frame. -/
theorem Framed.of_prefix {f b : List α} (fs : List (List α))
    (h : b <+: f) : Framed (f :: fs) b := by
  by_cases hb : b = f
  · have hcons := (Framed.nil fs).cons f
    rw [List.append_nil] at hcons
    rw [hb]
    exact hcons
  · exact ⟨[], b, List.nil_sublist _, rfl,
      Or.inr ⟨f, List.mem_cons_self .., h, hb⟩⟩

theorem bytes_cons (e : Entry α) (es : List (Entry α)) :
    bytes (e :: es) = e.written ++ bytes es := rfl

theorem bytes_eq_nil {es : List (Entry α)} (h : ∀ e ∈ es, e.written = []) :
    bytes es = [] := by
  induction es with
  | nil => rfl
  | cons e es ih =>
      rw [bytes_cons, h e (List.mem_cons_self ..),
        ih fun e' he => h e' (List.mem_cons_of_mem _ he), List.nil_append]

theorem frames_sublist (e : Entry α) (es : List (Entry α)) :
    (frames es).Sublist (frames (e :: es)) := by
  rw [frames, frames, List.filterMap_cons]
  split
  · exact List.Sublist.refl _
  · exact List.sublist_cons_self ..

/-- The bytes of a silent log are framed at every moment. -/
theorem Log.framed {es : List (Entry α)} (hlog : Log es)
    (hsilent : Silent es) : ∀ b, b <+: bytes es → Framed (frames es) b := by
  induction hlog with
  | nil =>
      intro b hb
      rw [List.prefix_nil.mp hb]
      exact Framed.nil _
  | @cons e es hpre hend _ ih =>
      intro b hb
      obtain ⟨htorn, htail⟩ := silent_cons.mp hsilent
      have ih := ih htail
      rw [bytes_cons] at hb
      rcases hframe : e.frame with - | f
      · -- refused: nothing was written
        rw [hframe] at hpre
        rw [List.prefix_nil.mp hpre, List.nil_append] at hb
        exact (ih b hb).mono (frames_sublist e es)
      · rw [hframe] at hpre
        have hframes : frames (e :: es) = f :: frames es := by
          rw [frames, List.filterMap_cons, hframe]
          rfl
        rw [hframes]
        by_cases hwhole : e.Whole
        · have hwhole : e.written = f := by
            rw [hwhole, hframe]
            rfl
          rw [hwhole] at hb
          rcases List.prefix_or_prefix_of_prefix hb
            (List.prefix_append f (bytes es)) with hb' | ⟨b', rfl⟩
          · exact Framed.of_prefix _ hb'
          · exact (ih b' ((List.prefix_append_right_inj f).mp hb)).cons f
        · by_cases hnil : e.written = []
          · rw [hnil, List.nil_append] at hb
            exact (ih b hb).mono (List.sublist_cons_self ..)
          · have hrest : bytes es = [] := by
              rcases hend with h | h | h
              · exact absurd h hwhole
              · exact bytes_eq_nil (htorn ⟨h, hnil, hwhole⟩)
              · rw [h]; rfl
            rw [hrest, List.append_nil] at hb
            exact Framed.of_prefix _ (hb.trans hpre)

/-- For the log of a sequential writer silence is the whole of staying in
sync. -/
theorem Log.inSync_iff {es : List (Entry α)} (hlog : Log es) :
    InSync es ↔ SilentFrom False es :=
  ⟨fun h => silent_iff.mp h.silent,
    fun h => ⟨hlog.framed (silent_iff.mpr h), silent_iff.mpr h⟩⟩

end FrameLog
