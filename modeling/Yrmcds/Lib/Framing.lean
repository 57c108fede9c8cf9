/-
Framed streams and the receivers that read them.

A `Format` looks at the front of a byte stream and says whether it needs
more, starts with a whole frame, or violates the format; both verdicts
are final, they do not change when more of the stream arrives. `parse`
is the one-shot reader of a whole stream, `after` the part of the stream
behind a number of frames.

A receiver (`Rx`) is the abstract side of every buffered reader of such
a stream: it holds what the transport has handed over and not yet been
consumed, and each call may take over any further piece of the stream
before it returns a frame, reports a violation or fails for a reason of
the transport's. Nothing is said about sizes of pieces, buffers or
retries: a concrete reader that makes only these moves delivers the
frames of the one-shot reader, in order, whatever the transport does
(`oks_prefix`), and reports a violation exactly where the stream has
one (`verdict_iff`).
-/
import Mathlib.Data.List.Basic

namespace Framing

variable {α ρ : Type}

/-- What a format says about the front of a stream. -/
inductive Cut (ρ : Type) where
  | more
  | bad
  | frame (size : Nat) (r : ρ)

/-- A framing whose verdicts are final and whose frames lie inside the
bytes they were cut from. -/
structure Format (α ρ : Type) where
  cut : List α → Cut ρ
  size_pos : ∀ {s n r}, cut s = .frame n r → 0 < n
  size_le : ∀ {s n r}, cut s = .frame n r → n ≤ s.length
  frame_append : ∀ {s n r} (t), cut s = .frame n r →
    cut (s ++ t) = .frame n r
  bad_append : ∀ {s} (t), cut s = .bad → cut (s ++ t) = .bad

namespace Format

variable (F : Format α ρ)

/-- One-shot reading with a bound on the number of frames. -/
def parseFuel : Nat → List α → List ρ
  | 0, _ => []
  | fuel + 1, s =>
      match F.cut s with
      | .frame n r => r :: parseFuel fuel (s.drop n)
      | _ => []

/-- The frames of a stream, up to the first violation or the first
incomplete frame. -/
def parse (s : List α) : List ρ := F.parseFuel s.length s

/-- The stream behind its first `j` frames. -/
def after : Nat → List α → List α
  | 0, s => s
  | j + 1, s =>
      match F.cut s with
      | .frame n _ => after j (s.drop n)
      | _ => s

/-- Every frame takes at least one element, so the length of the stream
is fuel enough. -/
theorem parseFuel_eq_parse {fuel : Nat} {s : List α}
    (h : s.length ≤ fuel) : F.parseFuel fuel s = F.parse s := by
  have key : ∀ (f g : Nat) (s : List α), s.length ≤ f → s.length ≤ g →
      F.parseFuel f s = F.parseFuel g s := by
    intro f
    induction f with
    | zero =>
        intro g s hf _
        have hs : s = [] := List.length_eq_zero_iff.mp (by omega)
        subst hs
        cases g with
        | zero => rfl
        | succ g =>
            rw [parseFuel, parseFuel]
            split
            next n r hcut =>
              have hle := F.size_le hcut
              have hpos := F.size_pos hcut
              simp at hle
              omega
            next => rfl
    | succ f ih =>
        intro g s hf hg
        cases g with
        | zero =>
            have hs : s = [] := List.length_eq_zero_iff.mp (by omega)
            subst hs
            rw [parseFuel, parseFuel]
            split
            next n r hcut =>
              have hle := F.size_le hcut
              have hpos := F.size_pos hcut
              simp at hle
              omega
            next => rfl
        | succ g =>
            rw [parseFuel, parseFuel]
            split
            next n r hcut =>
              have hpos := F.size_pos hcut
              have hdrop : (s.drop n).length = s.length - n :=
                List.length_drop
              rw [ih g (s.drop n) (by omega) (by omega)]
            next => rfl
  exact key fuel s.length s h (Nat.le_refl _)

/-- A stream that starts with a frame reads as that frame and the rest. -/
theorem parse_frame {s : List α} {n : Nat} {r : ρ}
    (h : F.cut s = .frame n r) : F.parse s = r :: F.parse (s.drop n) := by
  have hpos := F.size_pos h
  have hle := F.size_le h
  have hlen : (s.drop n).length = s.length - n := List.length_drop
  obtain ⟨m, hm⟩ : ∃ m, s.length = m + 1 := ⟨s.length - 1, by omega⟩
  rw [parse, hm, parseFuel, h]
  show r :: F.parseFuel m (s.drop n) = _
  rw [F.parseFuel_eq_parse (by omega)]

/-- A stream that reads as a frame and others starts with one. -/
theorem parse_cons {s : List α} {r : ρ} {rest : List ρ}
    (h : F.parse s = r :: rest) :
    ∃ n, F.cut s = .frame n r ∧ F.parse (s.drop n) = rest := by
  cases hcut : F.cut s with
  | frame n r' =>
      rw [F.parse_frame hcut] at h
      cases h
      exact ⟨n, rfl, rfl⟩
  | _ =>
      rw [parse] at h
      cases hlen : s.length with
      | zero =>
          rw [hlen] at h
          cases h
      | succ m =>
          rw [hlen, parseFuel, hcut] at h
          cases h

theorem after_succ_frame {s : List α} {n j : Nat} {r : ρ}
    (h : F.cut s = .frame n r) : F.after (j + 1) s = F.after j (s.drop n) := by
  rw [after, h]

/-- One more frame, from behind. -/
theorem after_succ_of_cut {s : List α} {n j : Nat} {r : ρ}
    (h : F.cut (F.after j s) = .frame n r) :
    F.after (j + 1) s = (F.after j s).drop n := by
  induction j generalizing s with
  | zero => exact F.after_succ_frame h
  | succ j ih =>
      cases hcut : F.cut s with
      | frame m r' =>
          rw [F.after_succ_frame hcut] at h ⊢
          rw [F.after_succ_frame hcut]
          exact ih h
      | more =>
          rw [after, hcut] at h
          exact absurd (hcut.symm.trans h) (by simp)
      | bad =>
          rw [after, hcut] at h
          exact absurd (hcut.symm.trans h) (by simp)

/-- A stream has no more frames than elements. -/
theorem length_parse_le (s : List α) : (F.parse s).length ≤ s.length := by
  have key : ∀ (fuel : Nat) (s : List α), (F.parseFuel fuel s).length ≤ fuel := by
    intro fuel
    induction fuel with
    | zero => exact fun s => Nat.le_refl _
    | succ fuel ih =>
        intro s
        rw [parseFuel]
        split
        next n r hcut => exact Nat.succ_le_succ (ih (s.drop n))
        next => exact Nat.zero_le _
  exact key s.length s

theorem length_after_le (j : Nat) (s : List α) :
    (F.after j s).length ≤ s.length := by
  induction j generalizing s with
  | zero => exact Nat.le_refl _
  | succ j ih =>
      rw [after]
      split
      next n r hcut =>
        calc (F.after j (s.drop n)).length
            ≤ (s.drop n).length := ih (s.drop n)
          _ ≤ s.length := (List.drop_sublist n s).length_le
      next => exact Nat.le_refl _

end Format

-- =========================================================== receivers

/-- The abstract state of a buffered reader: what has been handed over
and not consumed, what is still to come, and whether a violation has
been reported. -/
structure Rx (α : Type) where
  pending : List α
  coming : List α
  dead : Bool

/-- The stream the reader has not consumed. -/
def Rx.unread (s : Rx α) : List α := s.pending ++ s.coming

/-- What one call returns. -/
inductive Result (ρ : Type) where
  | ok (r : ρ)
  | bad
  | failed

/-- One call: it takes over a further piece of the stream and then
returns. Once a violation has been reported nothing happens any more. -/
inductive Call (F : Format α ρ) : Rx α → Result ρ → Rx α → Prop
  | ok {p got rest : List α} {n : Nat} {r : ρ} :
      F.cut (p ++ got) = .frame n r →
      Call F ⟨p, got ++ rest, false⟩ (.ok r)
        ⟨(p ++ got).drop n, rest, false⟩
  | bad {p got rest : List α} :
      F.cut (p ++ got) = .bad →
      Call F ⟨p, got ++ rest, false⟩ .bad ⟨p ++ got, rest, true⟩
  | failed {p got rest : List α} :
      Call F ⟨p, got ++ rest, false⟩ .failed ⟨p ++ got, rest, false⟩
  | dead {p rest : List α} :
      Call F ⟨p, rest, true⟩ .bad ⟨p, rest, true⟩

/-- A piece taken over before the call counts as taken over by it. -/
theorem Call.of_took {F : Format α ρ} {p bs rest : List α}
    {res : Result ρ} {s' : Rx α} (h : Call F ⟨p ++ bs, rest, false⟩ res s') :
    Call F ⟨p, bs ++ rest, false⟩ res s' := by
  cases h with
  | @ok _ got rest n r hcut =>
      rw [List.append_assoc] at hcut ⊢
      rw [← List.append_assoc bs]
      exact .ok hcut
  | @bad _ got rest hcut =>
      rw [List.append_assoc] at hcut ⊢
      rw [← List.append_assoc bs]
      exact .bad hcut
  | @failed _ got rest =>
      rw [List.append_assoc p, ← List.append_assoc bs]
      exact .failed

/-- A sequence of calls with their results. -/
inductive Calls (F : Format α ρ) : Rx α → List (Result ρ) → Rx α → Prop
  | nil {s : Rx α} : Calls F s [] s
  | cons {s s' s'' : Rx α} {r : Result ρ} {rs : List (Result ρ)} :
      Call F s r s' → Calls F s' rs s'' → Calls F s (r :: rs) s''

/-- The frames delivered by a sequence of calls. -/
def oks : List (Result ρ) → List ρ
  | [] => []
  | .ok r :: rs => r :: oks rs
  | _ :: rs => oks rs

variable {F : Format α ρ} {s s' : Rx α}

/-- A reader that has reported a violation stands in front of one. -/
def Rx.Sound (F : Format α ρ) (s : Rx α) : Prop :=
  s.dead = true → F.cut s.unread = .bad

/-- What a result says about the receivers before and after the call. -/
def Result.Means (F : Format α ρ) (s s' : Rx α) : Result ρ → Prop
  | .ok r => s'.dead = false ∧ ∃ n, F.cut s.unread = .frame n r
      ∧ s'.unread = s.unread.drop n
  | .bad => F.cut s.unread = .bad ∧ s'.dead = true ∧ s'.unread = s.unread
  | .failed => s'.dead = false ∧ s'.unread = s.unread

/-- What one call does to the unread stream. -/
theorem Call.unread {res : Result ρ} (h : Call F s res s')
    (hs : s.Sound F) : s'.Sound F ∧ res.Means F s s' := by
  cases h with
  | @ok p got rest n r hcut =>
      have hle := F.size_le hcut
      refine ⟨fun hd => Bool.noConfusion hd, rfl, n, ?_, ?_⟩
      · show F.cut (p ++ (got ++ rest)) = _
        rw [← List.append_assoc]
        exact F.frame_append rest hcut
      · show (p ++ got).drop n ++ rest = (p ++ (got ++ rest)).drop n
        rw [← List.append_assoc, List.drop_append_of_le_length hle]
  | @bad p got rest hcut =>
      have hun : F.cut (p ++ (got ++ rest)) = .bad := by
        rw [← List.append_assoc]
        exact F.bad_append rest hcut
      have heq : p ++ got ++ rest = p ++ (got ++ rest) :=
        List.append_assoc ..
      refine ⟨fun _ => ?_, hun, rfl, heq⟩
      show F.cut (p ++ got ++ rest) = _
      rw [heq]
      exact hun
  | @failed p got rest =>
      exact ⟨fun hd => Bool.noConfusion hd, rfl, List.append_assoc ..⟩
  | @dead p rest => exact ⟨hs, hs rfl, rfl, rfl⟩

/-- After a sequence of calls the unread stream is the one behind the
frames delivered. -/
theorem Calls.unread {rs : List (Result ρ)} (h : Calls F s rs s')
    (hs : s.Sound F) :
    s'.Sound F ∧ s'.unread = F.after (oks rs).length s.unread := by
  induction h with
  | nil => exact ⟨hs, rfl⟩
  | @cons s s₁ s₂ r rs hc _ ih =>
      obtain ⟨hs₁, hres⟩ := hc.unread hs
      obtain ⟨hs₂, hun⟩ := ih hs₁
      refine ⟨hs₂, ?_⟩
      cases r with
      | ok r =>
          obtain ⟨-, n, hcut, heq⟩ := hres
          show _ = F.after ((oks rs).length + 1) s.unread
          rw [hun, F.after_succ_frame hcut, heq]
      | bad => rw [hun, hres.2.2]; rfl
      | failed => rw [hun, hres.2]; rfl

/-- The frames delivered are a prefix of the one-shot reading: none is
lost, duplicated, merged or reordered. -/
theorem Calls.oks_prefix {rs : List (Result ρ)} (h : Calls F s rs s')
    (hs : s.Sound F) : oks rs <+: F.parse s.unread := by
  induction h with
  | nil => exact List.nil_prefix
  | @cons s s₁ s₂ r rs hc _ ih =>
      obtain ⟨hs₁, hres⟩ := hc.unread hs
      have ih := ih hs₁
      cases r with
      | ok r =>
          obtain ⟨-, n, hcut, heq⟩ := hres
          rw [oks, F.parse_frame hcut, ← heq]
          exact (List.prefix_cons_inj r).mpr ih
      | bad => rw [hres.2.2] at ih; exact ih
      | failed => rw [hres.2] at ih; exact ih

/-- A sequence of calls splits at every point. -/
theorem Calls.split {pre post : List (Result ρ)}
    (h : Calls F s (pre ++ post) s') :
    ∃ mid, Calls F s pre mid ∧ Calls F mid post s' := by
  induction pre generalizing s with
  | nil => exact ⟨s, .nil, h⟩
  | cons r pre ih =>
      cases h with
      | cons hc hrest =>
          obtain ⟨mid, hpre, hpost⟩ := ih hrest
          exact ⟨mid, .cons hc hpre, hpost⟩

/-- After a reported violation every call reports it. -/
theorem Calls.all_bad {rs : List (Result ρ)} (h : Calls F s rs s')
    (hd : s.dead = true) : ∀ r ∈ rs, r = .bad := by
  induction h with
  | nil => intro r hr; cases hr
  | @cons s s₁ s₂ r rs hc _ ih =>
      cases hc with
      | dead =>
          intro r hr
          rcases List.mem_cons.mp hr with rfl | hr
          · rfl
          · exact ih rfl r hr
      | ok => cases hd
      | bad => cases hd
      | failed => cases hd

/-- A call that the transport does not fail reports a violation exactly
when the frame it stands in front of violates the format, and from then
on every call does. -/
theorem Calls.verdict_iff {pre post : List (Result ρ)} {res : Result ρ}
    (h : Calls F s (pre ++ res :: post) s') (hs : s.Sound F) :
    (res = .bad ↔ F.cut (F.after (oks pre).length s.unread) = .bad
      ∧ res ≠ .failed)
    ∧ (res = .bad → ∀ r ∈ post, r = .bad) := by
  obtain ⟨mid, hpre, hpost⟩ := h.split
  obtain ⟨hmid, hun⟩ := hpre.unread hs
  cases hpost with
  | @cons _ s₁ _ _ _ hc hrest =>
      obtain ⟨-, hres⟩ := hc.unread hmid
      rw [← hun]
      cases res with
      | ok r =>
          obtain ⟨-, n, hcut, -⟩ := hres
          refine ⟨⟨fun hr => (by cases hr), fun hb => ?_⟩,
            fun hr => by cases hr⟩
          rw [hcut] at hb
          cases hb.1
      | bad =>
          exact ⟨⟨fun _ => ⟨hres.1, fun hr => (by cases hr)⟩, fun _ => rfl⟩,
            fun _ => hrest.all_bad hres.2.1⟩
      | failed =>
          exact ⟨⟨fun hr => (by cases hr), fun hb => absurd rfl hb.2⟩,
            fun hr => by cases hr⟩

end Framing
