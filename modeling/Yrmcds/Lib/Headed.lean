/-
Frames that announce their length, and streams that end with a frame.

`Headed` is the usual shape of a binary format: a header of fixed size
that says how long the body is, and a decoder for the whole frame. Every
such description is a `Format` (`Headed.format`): a verdict is reached
from the bytes of the frame, so it is final.

`Format.whole` reads a stream that has to end with its last frame. For a
format with an encoder (`Encodes`) it is the inverse of writing the frames
one after the other (`whole_iff`), which says at once that what is written
is read back, that nothing else is accepted, and that a stream has one
reading.
-/
import Yrmcds.Lib.Framing

namespace Framing

variable {α ρ σ : Type}

/-- A format whose frames start with `head` elements that tell the length
of the rest. -/
structure Headed (α ρ : Type) where
  head : Nat
  head_pos : 0 < head
  bodyLen : List α → Option Nat
  decode : List α → Option ρ

namespace Headed

variable (H : Headed α ρ)

/-- The verdict on the front of a stream. -/
def cut (s : List α) : Cut ρ :=
  if s.length < H.head then .more
  else
    match H.bodyLen (s.take H.head) with
    | none => .bad
    | some n =>
        if s.length < H.head + n then .more
        else
          match H.decode (s.take (H.head + n)) with
          | some r => .frame (H.head + n) r
          | none => .bad

variable {H} {s : List α}

/-- A stream that ends in the header. -/
theorem cut_of_short (h : s.length < H.head) : H.cut s = .more := by
  rw [cut, if_pos h]

/-- A stream that ends in the frame. -/
theorem cut_of_short_body {n : Nat} (hhead : H.bodyLen (s.take H.head) = some n)
    (h : s.length < H.head + n) : H.cut s = .more := by
  rw [cut, hhead]
  split
  next => rfl
  next => exact if_pos h

/-- A header that is not accepted. -/
theorem cut_of_head_none (hlen : H.head ≤ s.length)
    (h : H.bodyLen (s.take H.head) = none) : H.cut s = .bad := by
  rw [cut, if_neg (by omega), h]

/-- The verdict on a stream that has the whole frame. -/
theorem cut_of_head {n : Nat} (h : H.bodyLen (s.take H.head) = some n)
    (hlen : H.head + n ≤ s.length) :
    H.cut s = match H.decode (s.take (H.head + n)) with
      | some r => .frame (H.head + n) r
      | none => .bad := by
  rw [cut, if_neg (by omega), h]
  dsimp only
  rw [if_neg (by omega)]

/-- What a frame that was cut has said of its stream. -/
theorem of_cut_frame {m : Nat} {r : ρ} (h : H.cut s = .frame m r) :
    ∃ n, m = H.head + n ∧ m ≤ s.length
      ∧ H.bodyLen (s.take H.head) = some n ∧ H.decode (s.take m) = some r := by
  rw [cut] at h
  split at h
  next => cases h
  next =>
    split at h
    next => cases h
    next n hhead =>
      split at h
      next => cases h
      next hlen =>
        split at h
        next r' hdec =>
          injection h with hm hr
          subst hm hr
          exact ⟨n, rfl, by omega, hhead, hdec⟩
        next => cases h

/-- A verdict other than "more" does not change when the stream goes
on. -/
theorem cut_append (t : List α) (h : H.cut s ≠ .more) :
    H.cut (s ++ t) = H.cut s := by
  rw [cut] at h
  rw [cut, cut, List.length_append]
  by_cases hlen : s.length < H.head
  · rw [if_pos hlen] at h
    exact absurd rfl h
  · rw [if_neg hlen] at h ⊢
    rw [if_neg (by omega), List.take_append_of_le_length (by omega)]
    split
    next => rfl
    next n hhead =>
      rw [hhead] at h
      dsimp only at h
      by_cases htot : s.length < H.head + n
      · rw [if_pos htot] at h
        exact absurd rfl h
      · rw [if_neg htot, if_neg (by omega),
          List.take_append_of_le_length (by omega)]

/-- The description as a format. -/
def format (H : Headed α ρ) : Format α ρ where
  cut := H.cut
  size_pos h := by
    obtain ⟨n, hm, -⟩ := of_cut_frame h
    have := H.head_pos
    omega
  size_le h := by
    obtain ⟨n, -, hle, -⟩ := of_cut_frame h
    exact hle
  frame_append t h := by
    rw [cut_append t (by rw [h]; intro hm; cases hm)]
    exact h
  bad_append t h := by
    rw [cut_append t (by rw [h]; intro hm; cases hm)]
    exact h

theorem format_cut (H : Headed α ρ) (s : List α) :
    H.format.cut s = H.cut s := rfl

/-- A frame on its own is cut whole. -/
theorem cut_frame {f : List α} {n : Nat} {r : ρ}
    (hlen : f.length = H.head + n)
    (hhead : H.bodyLen (f.take H.head) = some n)
    (hdec : H.decode f = some r) : H.cut f = .frame f.length r := by
  rw [cut_of_head hhead (by omega), ← hlen, List.take_length, hdec]

end Headed

-- ======================================================= written frames

namespace Format

variable {F : Format α ρ} {enc : σ → List α} {dec : σ → ρ} {s : List α}

/-- Frames written one after the other are read one after the other. -/
theorem parse_flatMap {xs : List σ}
    (h : ∀ x ∈ xs, F.cut (enc x) = .frame (enc x).length (dec x)) :
    F.parse (xs.flatMap enc) = xs.map dec
      ∧ F.after xs.length (xs.flatMap enc) = [] := by
  induction xs with
  | nil => exact ⟨rfl, rfl⟩
  | cons x xs ih =>
      obtain ⟨hparse, hafter⟩ := ih fun y hy => h y (List.mem_cons_of_mem _ hy)
      have hcut : F.cut ((x :: xs).flatMap enc)
          = .frame (enc x).length (dec x) := by
        rw [List.flatMap_cons]
        exact F.frame_append _ (h x (List.mem_cons_self ..))
      have hdrop : ((x :: xs).flatMap enc).drop (enc x).length
          = xs.flatMap enc := by
        rw [List.flatMap_cons, List.drop_left]
      rw [F.parse_frame hcut, hdrop, hparse, List.length_cons,
        F.after_succ_frame hcut, hdrop]
      exact ⟨rfl, hafter⟩

/-- Behind any of these frames there is no violation. -/
theorem after_flatMap {xs : List σ}
    (h : ∀ x ∈ xs, F.cut (enc x) = .frame (enc x).length (dec x))
    (hnil : F.cut [] ≠ .bad) (j : Nat) :
    F.cut (F.after j (xs.flatMap enc)) ≠ .bad := by
  induction xs generalizing j with
  | nil =>
      intro hbad
      cases j with
      | zero => exact hnil hbad
      | succ j =>
          rw [after] at hbad
          split at hbad
          next hcut =>
            have hpos := F.size_pos hcut
            have hle := F.size_le hcut
            simp only [List.flatMap_nil, List.length_nil] at hle
            omega
          next => exact hnil hbad
  | cons x xs ih =>
      have hcut : F.cut ((x :: xs).flatMap enc)
          = .frame (enc x).length (dec x) := by
        rw [List.flatMap_cons]
        exact F.frame_append _ (h x (List.mem_cons_self ..))
      cases j with
      | zero =>
          intro hbad
          cases hcut.symm.trans hbad
      | succ j =>
          rw [F.after_succ_frame hcut, List.flatMap_cons, List.drop_left]
          exact ih (fun y hy => h y (List.mem_cons_of_mem _ hy)) j

-- ======================================================= whole streams

/-- The frames of a stream that ends with its last frame. -/
def whole (F : Format α ρ) (s : List α) : Option (List ρ) :=
  if (F.after (F.parse s).length s).isEmpty then some (F.parse s) else none

theorem parse_of_no_frame (h : ∀ n r, F.cut s ≠ .frame n r) :
    F.parse s = [] := by
  rw [parse]
  cases s.length with
  | zero => rfl
  | succ n =>
      rw [parseFuel]
      split
      next m r hcut => exact absurd hcut (h m r)
      next => rfl

/-- A stream that starts with a frame is whole when the rest is. -/
theorem whole_of_frame {n : Nat} {r : ρ} (h : F.cut s = .frame n r) :
    F.whole s = (F.whole (s.drop n)).map (r :: ·) := by
  unfold whole
  rw [F.parse_frame h, List.length_cons, F.after_succ_frame h]
  split <;> rfl

/-- A stream that is left over and does not start with a frame is not
whole. -/
theorem whole_of_no_frame (hne : s ≠ []) (h : ∀ n r, F.cut s ≠ .frame n r) :
    F.whole s = none := by
  unfold whole
  rw [parse_of_no_frame h]
  apply if_neg
  simpa [after] using hne

/-- A frame behind a whole stream is its last one. -/
theorem whole_append {f : List α} {r : ρ} {rs : List ρ}
    (h : F.whole s = some rs) (hf : F.cut f = .frame f.length r) :
    F.whole (s ++ f) = some (rs ++ [r]) := by
  induction rs generalizing s with
  | nil =>
      have hnil : s = [] := by
        by_cases hframe : ∃ n r, F.cut s = .frame n r
        · obtain ⟨n, r, hcut⟩ := hframe
          rw [whole_of_frame hcut] at h
          cases hrest : F.whole (s.drop n) with
          | none => rw [hrest] at h; cases h
          | some rs => rw [hrest] at h; cases h
        · by_contra hne
          rw [whole_of_no_frame hne fun n r hcut => hframe ⟨n, r, hcut⟩] at h
          cases h
      rw [hnil, List.nil_append, whole_of_frame hf, List.drop_length]
      rw [hnil] at h
      rw [h]
      rfl
  | cons r' rs ih =>
      by_cases hframe : ∃ n r, F.cut s = .frame n r
      · obtain ⟨n, r₁, hcut⟩ := hframe
        rw [whole_of_frame hcut] at h
        cases hrest : F.whole (s.drop n) with
        | none => rw [hrest] at h; cases h
        | some rs' =>
            rw [hrest] at h
            cases h
            rw [whole_of_frame (F.frame_append f hcut),
              List.drop_append_of_le_length (F.size_le hcut), ih hrest]
            rfl
      · by_cases hne : s = []
        · subst hne
          cases h
        · rw [whole_of_no_frame hne fun n r hcut => hframe ⟨n, r, hcut⟩] at h
          cases h

/-- `enc` writes the frames of `F`: what it writes of a `Good` value is
cut whole, and what is cut is what it writes of a good value. -/
structure Encodes (F : Format α ρ) (enc : ρ → List α) (Good : ρ → Prop) :
    Prop where
  cut_enc : ∀ {r}, Good r → F.cut (enc r) = .frame (enc r).length r
  enc_cut : ∀ {s n r}, F.cut s = .frame n r → Good r ∧ s.take n = enc r

/-- Reading a whole stream is the inverse of writing its frames. -/
theorem whole_iff {enc : ρ → List α} {Good : ρ → Prop}
    (E : F.Encodes enc Good) {rs : List ρ} :
    F.whole s = some rs ↔ (∀ r ∈ rs, Good r) ∧ s = rs.flatMap enc := by
  constructor
  · intro h
    induction rs generalizing s with
    | nil =>
        refine ⟨fun r hr => (by cases hr), ?_⟩
        by_cases hframe : ∃ n r, F.cut s = .frame n r
        · obtain ⟨n, r, hcut⟩ := hframe
          rw [whole_of_frame hcut] at h
          cases hrest : F.whole (s.drop n) with
          | none => rw [hrest] at h; cases h
          | some rs => rw [hrest] at h; cases h
        · by_contra hne
          rw [whole_of_no_frame hne fun n r hcut => hframe ⟨n, r, hcut⟩] at h
          cases h
    | cons r rs ih =>
        by_cases hframe : ∃ n r, F.cut s = .frame n r
        · obtain ⟨n, r', hcut⟩ := hframe
          rw [whole_of_frame hcut] at h
          cases hrest : F.whole (s.drop n) with
          | none => rw [hrest] at h; cases h
          | some rs' =>
              rw [hrest] at h
              cases h
              obtain ⟨hgood, henc⟩ := E.enc_cut hcut
              obtain ⟨hall, hdrop⟩ := ih hrest
              refine ⟨List.forall_mem_cons.mpr ⟨hgood, hall⟩, ?_⟩
              rw [List.flatMap_cons, ← henc, ← hdrop, List.take_append_drop]
        · by_cases hne : s = []
          · subst hne
            cases h
          · rw [whole_of_no_frame hne fun n r hcut => hframe ⟨n, r, hcut⟩] at h
            cases h
  · rintro ⟨hgood, rfl⟩
    have hread : F.parse (rs.flatMap enc) = rs.map id
        ∧ F.after rs.length (rs.flatMap enc) = [] :=
      parse_flatMap fun r hr => E.cut_enc (hgood r hr)
    obtain ⟨hparse, hafter⟩ := hread
    rw [List.map_id] at hparse
    rw [whole, hparse, hafter]
    rfl

end Format

end Framing
