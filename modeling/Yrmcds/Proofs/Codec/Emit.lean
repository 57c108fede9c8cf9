/-
What the compressor writes, piece by piece.

`Region.Put` is one piece: bytes at a position, everything below kept.
The two loops for long lengths write the same bytes, those of the length
code (`writeRun_spec`, `writeMatchRun_spec`), and the length of a match
is added to the token written before it (`writeMatchLength_spec`).
-/
import Yrmcds.Model.Codec.Compress
import Yrmcds.Proofs.Codec.Lengths

namespace Yrmcds

open Checked Region Lengths

variable {ε : Type} {E : ε → Prop}

namespace Region

/-- `r` is `dest` with `bs` at `op`, up to what comes behind. -/
structure Put (dest r : Region) (op : Nat) (bs : List UInt8) : Prop where
  kept : Kept dest r op
  bytes : r.bytes.slice op bs.length = bs

/-- Two pieces in a row. -/
theorem Put.append {dest r r' : Region} {op : Nat} {bs bs' : List UInt8}
    (h : Put dest r op bs) (h' : Put r r' (op + bs.length) bs') :
    Put dest r' op (bs ++ bs') := by
  refine ⟨h.kept.trans h'.kept (by omega), ?_⟩
  rw [List.length_append, Mem.slice_add, h'.bytes,
    h'.kept.slice (Nat.le_refl _), h.bytes]

theorem put_store (dest : Region) {op : Nat} {bs : List UInt8}
    (h : op + bs.length ≤ dest.size) :
    Ends (fun r => Put dest r op bs) E (dest.store op bs) :=
  (store_spec dest h).mono (fun _ h => ⟨h.1, h.2.1⟩) (fun _ h => h)

/-- Later bytes leave a piece in place. -/
theorem Put.then {dest r r' : Region} {op op' : Nat} {bs : List UInt8}
    (h : Put dest r op bs) (h' : Kept r r' op') (hle : op + bs.length ≤ op') :
    Put dest r' op bs :=
  ⟨h.kept.trans h' (by omega), (h'.slice hle).trans h.bytes⟩

end Region

/-- `for(; len >= 255 ; len-=255) ..` writes the length code. -/
theorem writeRun_spec (dest : Region) {op len : Nat}
    (h : op + (excess len).length ≤ dest.size) :
    Ends (fun w : Region × Nat => Put dest w.1 op (excess len)
        ∧ w.2 = op + (excess len).length) E (writeRun dest op len) := by
  induction hn : len using Nat.strongRecOn generalizing dest op len with
  | ind n ih =>
      subst hn
      rw [writeRun]
      split
      next hge =>
        rw [excess_of_ge hge, List.length_cons] at h ⊢
        refine (put_store dest (by simpa using by omega)).bind ?_
        intro r₁ h₁
        refine (ih (len - 255) (by omega) r₁
          (by rw [h₁.kept.size]; omega) rfl).mono ?_ (fun _ h => h)
        intro w hw
        exact ⟨h₁.append hw.1, by omega⟩
      next hlt =>
        rw [excess_of_lt (by omega)] at h ⊢
        refine (put_store dest h).bind ?_
        intro r₁ h₁
        exact ends_pure.mpr ⟨h₁, rfl⟩

/-- The loop in steps of two bytes writes the same. -/
theorem writeMatchRun_spec (dest : Region) {op len : Nat}
    (h : op + (excess len).length ≤ dest.size) :
    Ends (fun w : Region × Nat => Put dest w.1 op (excess len)
        ∧ w.2 = op + (excess len).length) E (writeMatchRun dest op len) := by
  induction hn : len using Nat.strongRecOn generalizing dest op len with
  | ind n ih =>
      subst hn
      rw [writeMatchRun]
      split
      next hge =>
        rw [excess_of_ge (n := len) (by omega),
          excess_of_ge (n := len - 255) (by omega), List.length_cons,
          List.length_cons, show len - 255 - 255 = len - 510 by omega] at h ⊢
        refine (put_store dest (by simpa using by omega)).bind ?_
        intro r₁ h₁
        refine (put_store r₁
          (by rw [h₁.kept.size]; simpa using by omega)).bind ?_
        intro r₂ h₂
        refine (ih (len - 510) (by omega) r₂
          (by rw [h₂.kept.size, h₁.kept.size]; omega) rfl).mono ?_ (fun _ h => h)
        intro w hw
        exact ⟨h₁.append (h₂.append hw.1), by omega⟩
      next hlt =>
        split
        next hge =>
          rw [excess_of_ge hge, excess_of_lt (n := len - 255) (by omega),
            List.length_cons, List.length_singleton] at h ⊢
          refine (put_store dest (by simpa using by omega)).bind ?_
          intro r₁ h₁
          refine (put_store r₁
            (by rw [h₁.kept.size]; simpa using by omega)).bind ?_
          intro r₂ h₂
          exact ends_pure.mpr ⟨h₁.append h₂, rfl⟩
        next hlt =>
          rw [excess_of_lt (by omega)] at h ⊢
          refine (put_store dest h).bind ?_
          intro r₁ h₁
          exact ends_pure.mpr ⟨h₁, rfl⟩

/-- A token for literals, and the bytes of their length. -/
theorem writeToken_spec (dest : Region) {op litLength : Nat}
    (h : op + 1 + (extra litLength).length ≤ dest.size) :
    Ends (fun w : Region × Nat =>
        Put dest w.1 op (pack (nibble litLength) 0 :: extra litLength)
          ∧ w.2 = op + 1 + (extra litLength).length) E
      (writeToken dest op litLength) := by
  unfold writeToken
  split
  next hge =>
    have hge : 15 ≤ litLength := hge
    rw [nibble_of_ge hge, extra_of_ge hge] at *
    refine (put_store dest (by simpa using by omega)).bind ?_
    intro r₁ h₁
    refine (writeRun_spec r₁ (by
      rw [h₁.kept.size]
      exact h)).mono ?_ (fun _ h => h)
    intro w hw
    exact ⟨h₁.append hw.1, hw.2⟩
  next hlt =>
    have hlt : litLength < 15 := by
      have : ¬ litLength ≥ 15 := hlt
      omega
    rw [nibble_of_lt hlt, extra_of_lt hlt] at *
    refine (put_store dest (by simpa using h)).bind ?_
    intro r₁ h₁
    exact ends_pure.mpr ⟨h₁, rfl⟩

theorem pack_add {high a : Nat} :
    pack high 0 + UInt8.ofNat a = pack high a := by
  unfold pack
  rw [Nat.add_zero, UInt8.ofNat_add]

/-- The length of a match goes into the token and behind `op`; what is
between them is kept. -/
theorem writeMatchLength_spec (dest : Region) {token op surplus lits : Nat}
    (htoken : dest.bytes token = pack lits 0) (hlt : token < op)
    (h : op + (extra surplus).length ≤ dest.size) :
    Ends (fun w : Region × Nat => w.1.size = dest.size
        ∧ w.1.bytes token = pack lits (nibble surplus)
        ∧ (∀ i < op, i ≠ token → w.1.bytes i = dest.bytes i)
        ∧ w.1.bytes.slice op (extra surplus).length = extra surplus
        ∧ w.2 = op + (extra surplus).length) E
      (writeMatchLength dest token op surplus) := by
  unfold writeMatchLength
  rw [byte_ok (by omega), ok_bind, htoken]
  split
  next hge =>
    have hge : 15 ≤ surplus := hge
    rw [nibble_of_ge hge, extra_of_ge hge] at *
    refine (store_spec dest
      (by simpa using by omega)).bind ?_
    intro r₁ h₁
    obtain ⟨hkept₁, hval₁, habove₁⟩ := h₁
    refine (writeMatchRun_spec r₁ (by
      rw [hkept₁.size]
      exact h)).mono ?_ (fun _ h => h)
    intro w hw
    obtain ⟨hput, hop⟩ := hw
    refine ⟨hput.kept.size.trans hkept₁.size, ?_, ?_, hput.bytes, hop⟩
    · rw [hput.kept.below token hlt, (Mem.slice_head hval₁).1, pack_add]
      rfl
    · intro i hi hne
      rw [hput.kept.below i hi]
      rcases Nat.lt_or_gt_of_ne hne with hlow | hhigh
      · exact hkept₁.below i hlow
      · exact habove₁ i (by simpa using by omega)
  next hlt' =>
    have hlt' : surplus < 15 := by
      have : ¬ surplus ≥ 15 := hlt'
      omega
    rw [nibble_of_lt hlt', extra_of_lt hlt'] at *
    refine (store_spec dest
      (by simpa using by omega)).bind ?_
    intro r₁ h₁
    obtain ⟨hkept₁, hval₁, habove₁⟩ := h₁
    refine ends_pure.mpr ⟨hkept₁.size, ?_, ?_, rfl, rfl⟩
    · rw [(Mem.slice_head hval₁).1, pack_add]
    · intro i hi hne
      rcases Nat.lt_or_gt_of_ne hne with hlow | hhigh
      · exact hkept₁.below i hlow
      · exact habove₁ i (by simpa using by omega)

end Yrmcds
