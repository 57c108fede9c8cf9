/-
The copy of a match.

`copyMatch` writes in steps of 8 bytes, so a distance below 8 is spread
first: the start is 8 bytes that repeat at the distance of the match, and
the copying goes on from a multiple of it that is at least 8
(`copyStart_spec`, where the two tables are evaluated). A copy at the
multiple continues the repetition (`Spread.repeats`), so whichever of the
three ways the rest is copied, the output repeats at the distance of the
match as far as the match goes, and never a byte outside of it is touched
(`copyMatch_spec`).

Nothing is said about the bytes a distance of zero leaves: the copy is
made of what was there before.
-/
import Mathlib.Tactic.IntervalCases
import Yrmcds.Model.Codec.Decompress
import Yrmcds.Proofs.Codec.Memory

namespace Yrmcds

open Checked Lz77 Region

/-- A distance `D` for steps of `w` bytes that stands for `d`: wide
enough, and a multiple that `w` bytes at `d` reach back over. -/
def Spread (w d D : Nat) : Prop :=
  w ≤ D ∧ ∃ k, D = (k + 1) * d ∧ k * d ≤ w

/-- A start at `d` goes on at `d` when it is copied at `D`. -/
theorem Spread.repeats {m : Mem} {w d D a c : Nat} (h : Spread w d D)
    (hstart : Repeats m d a (a + w)) (hrest : Repeats m D (a + w) c) :
    Repeats m d a c := by
  obtain ⟨-, k, rfl, hk⟩ := h
  exact hstart.multiple hrest (by omega)

theorem Spread.self {w d : Nat} (h : w ≤ d) : Spread w d d :=
  ⟨h, 0, by omega, by omega⟩

/-- The tables: from where the second half of the start is copied, and
from where the rest of the match. -/
theorem spread_tables {d : Nat} (h8 : d < 8) :
    ∃ half D : Nat, half + dec32table.getD d 0 = 4 + d
      ∧ (D : Int) = 8 + d - dec32table.getD d 0 + dec64table.getD d 0
      ∧ dec64table.getD d 0 ≤ dec32table.getD d 0
      ∧ (1 ≤ d → Spread 4 d half ∧ Spread 8 d D) := by
  interval_cases d
  · exact ⟨0, 4, by decide, by decide, by decide, fun h => absurd h (by decide)⟩
  · exact ⟨4, 8, by decide, by decide, by decide,
      fun _ => ⟨⟨by decide, 3, by decide⟩, ⟨by decide, 7, by decide⟩⟩⟩
  · exact ⟨4, 8, by decide, by decide, by decide,
      fun _ => ⟨⟨by decide, 1, by decide⟩, ⟨by decide, 3, by decide⟩⟩⟩
  · exact ⟨6, 9, by decide, by decide, by decide,
      fun _ => ⟨⟨by decide, 1, by decide⟩, ⟨by decide, 2, by decide⟩⟩⟩
  · exact ⟨4, 8, by decide, by decide, by decide,
      fun _ => ⟨⟨by decide, 0, by decide⟩, ⟨by decide, 1, by decide⟩⟩⟩
  · exact ⟨5, 10, by decide, by decide, by decide,
      fun _ => ⟨⟨by decide, 0, by decide⟩, ⟨by decide, 1, by decide⟩⟩⟩
  · exact ⟨6, 12, by decide, by decide, by decide,
      fun _ => ⟨⟨by decide, 0, by decide⟩, ⟨by decide, 1, by decide⟩⟩⟩
  · exact ⟨7, 14, by decide, by decide, by decide,
      fun _ => ⟨⟨by decide, 0, by decide⟩, ⟨by decide, 1, by decide⟩⟩⟩

variable {E : Int → Prop}

/-- The first 8 bytes of a match, and where the copying goes on from. -/
theorem copyStart_spec (dest : Region) {op match_ : Nat}
    (hsize : op + 8 ≤ dest.size) (hle : match_ ≤ op) :
    Ends (fun r => Kept dest r.1 op ∧ r.2 ≤ op + 8
      ∧ (match_ < op → Repeats r.1.bytes (op - match_) op (op + 8)
        ∧ Spread 8 (op - match_) (op + 8 - r.2))) E
      (copyStart dest op match_) := by
  unfold copyStart
  split
  next h8 =>
    obtain ⟨half, D, hhalf, hD, h64, hspread⟩ := spread_tables h8
    generalize dec32table.getD (op - match_) 0 = dec32 at hhalf hD h64 ⊢
    generalize dec64table.getD (op - match_) 0 = dec64 at hD h64 ⊢
    refine (copyBytes_spec dest 4 (by omega) hle).bind ?_
    intro r₁ h₁
    obtain ⟨hkept₁, hrep₁⟩ := h₁
    refine (lz4Copy_spec r₁ (d := op + 4) (s := match_ + dec32)
      (by rw [hkept₁.size]; omega) (by omega)).bind ?_
    intro r₂ h₂
    obtain ⟨hkept₂, hrep₂⟩ := h₂
    rw [ends_pure]
    refine ⟨hkept₁.trans hkept₂ (by omega), ?_, ?_⟩
    · show ((match_ + dec32 : Nat) - dec64).toNat ≤ op + 8
      omega
    · intro hlt
      obtain ⟨h4, h8⟩ := hspread (by omega)
      have hfar : op + 8 - ((match_ + dec32 : Nat) - dec64).toNat = D := by
        omega
      refine ⟨?_, hfar ▸ h8⟩
      -- the first half, then the second at a multiple of the distance
      have hhalf : op + 4 - (match_ + dec32) = half := by omega
      have hsecond := hrep₂ (by have := h4.1; omega)
      rw [hhalf, Nat.add_assoc] at hsecond
      exact h4.repeats (hkept₂.repeats (hrep₁ hlt) (Nat.le_refl _)) hsecond
  next h8 =>
    refine (lz4Copy_spec dest (by omega) hle).bind ?_
    intro r h
    obtain ⟨hkept, hrep⟩ := h
    rw [ends_pure]
    refine ⟨hkept, by show match_ + 8 ≤ op + 8; omega, ?_⟩
    intro hlt
    have hD : op + 8 - (match_ + 8) = op - match_ := by omega
    refine ⟨hrep (by omega), ?_⟩
    show Spread 8 (op - match_) (op + 8 - (match_ + 8))
    rw [hD]
    exact Spread.self (by omega)

/-- The rest of a match, `s` being where it is copied from: the output
repeats at the distance of the match. -/
theorem Spread.finish {r₁ r : Region} {op match_ s cpy : Nat}
    (hstart : match_ < op → Repeats r₁.bytes (op - match_) op (op + 8)
      ∧ Spread 8 (op - match_) (op + 8 - s))
    (hkept : Kept r₁ r (op + 8))
    (hrest : 8 ≤ op + 8 - s → Repeats r.bytes (op + 8 - s) (op + 8) cpy)
    (hlt : match_ < op) : Repeats r.bytes (op - match_) op cpy := by
  obtain ⟨hrep, hspread⟩ := hstart hlt
  exact hspread.repeats (hkept.repeats hrep (Nat.le_refl _)) (hrest hspread.1)

/-- The copy of a match fails exactly when the match ends within the last
literals, and otherwise repeats the output at its distance. -/
theorem copyMatch_spec (dest : Region) {oend op match_ length : Nat} (ip : Nat)
    (hoend : oend ≤ dest.size) (hop : op + 12 ≤ oend) (hle : match_ ≤ op)
    (hlen : 4 ≤ length) :
    Ends (fun r => op + length + 5 ≤ oend ∧ Kept dest r op
        ∧ (match_ < op → Repeats r.bytes (op - match_) op (op + length)))
      (fun e => e = -(ip : Int) - 1 ∧ oend < op + length + 5)
      (copyMatch oend ip dest op match_ length) := by
  unfold copyMatch
  have hlast : LASTLITERALS = 5 := rfl
  refine (copyStart_spec dest (by omega) hle).bind ?_
  intro r₁ h₁
  obtain ⟨hkept₁, hs, hstart⟩ := h₁
  have hsize := hkept₁.size
  dsimp only
  split
  next hclose =>
    split
    next hlate =>
      rw [outputError, ends_error]
      exact ⟨rfl, by omega⟩
    next hfits =>
      split
      next hwild =>
        -- wild up to 8 bytes before the end, byte by byte from there
        have hstop : (((oend : Int) - 8).toNat) = oend - 8 := by omega
        rw [hstop]
        refine (lz4WildCopy_self r₁.1 hs (by omega) (by omega)).bind ?_
        intro r₂ h₂
        obtain ⟨hkept₂, hrep₂⟩ := h₂
        refine (copyBytes_spec r₂ _ (by rw [hkept₂.size]; omega)
          (by omega)).mono ?_ (fun _ h => False.elim h)
        intro r h
        obtain ⟨hkept, hrep⟩ := h
        have hback : oend - 8 - (r₁.2 + (oend - 8 - (op + 8)))
            = op + 8 - r₁.2 := by omega
        rw [hback] at hrep
        refine ⟨by omega, ?_, ?_⟩
        · exact hkept₁.trans (hkept₂.trans hkept (by omega)) (by omega)
        · apply Spread.finish hstart (hkept₂.trans hkept (by omega))
          intro hfar
          exact ((hkept.repeats (hrep₂ hfar) (Nat.le_refl _)).append
            (hrep (by omega))).mono (Nat.le_refl _) (by omega)
      next hnear =>
        refine (copyBytes_spec r₁.1 _ (by omega) hs).mono ?_ (fun _ h => False.elim h)
        intro r h
        obtain ⟨hkept, hrep⟩ := h
        refine ⟨by omega, hkept₁.trans hkept (by omega), ?_⟩
        apply Spread.finish hstart hkept
        intro hfar
        exact (hrep (by omega)).mono (Nat.le_refl _) (by omega)
  next hfar =>
    refine (lz4WildCopy_self r₁.1 hs (by omega) (by omega)).mono ?_
      (fun _ h => False.elim h)
    intro r h
    obtain ⟨hkept, hrep⟩ := h
    refine ⟨by omega, hkept₁.trans hkept (by omega), ?_⟩
    exact Spread.finish hstart hkept hrep

end Yrmcds
