/-
`LZ4_count` is exact.

It compares 8 bytes at a time, then 4, 2 and 1, and finds the end of the
common bytes of the last 8 by counting the low zero bits of the
difference. The result is the first position at which the two sides
differ, or the limit (`lz4Count_spec`): the compressor relies on both
halves, since it must not stop in front of bytes it has already hashed.
-/
import Mathlib.Data.LawfulXor.Basic
import Yrmcds.Model.Codec.Compress
import Yrmcds.Proofs.Codec.Lengths

namespace Yrmcds

open Checked Region Endian Lz77

variable {ε : Type} {E : ε → Prop}

-- ================================================== the low zero bytes

theorem ctz_double (w n : Nat) : ctz (w + 1) (2 * n) = ctz w n + 1 := by
  rw [ctz, if_neg (by omega), Nat.mul_div_cancel_left n (by omega)]

theorem ctz_byte (w n : Nat) : ctz (w + 8) (256 * n) = ctz w n + 8 := by
  have h : 256 * n = 2 * (2 * (2 * (2 * (2 * (2 * (2 * (2 * n))))))) := by omega
  rw [h]
  simp only [ctz_double]

/-- A low byte that is not zero stops the count. -/
theorem ctz_lt (k : Nat) {w n : Nat} (h : n % 2 ^ k ≠ 0) : ctz (w + k) n < k := by
  induction k generalizing n with
  | zero => simp [Nat.mod_one] at h
  | succ k ih =>
      rw [← Nat.add_assoc, ctz]
      split
      next => omega
      next heven =>
        have hk : n / 2 % 2 ^ k ≠ 0 := by
          intro hzero
          apply h
          rw [Nat.pow_succ, Nat.mul_comm, Nat.mod_mul, hzero]
          omega
        have := ih hk
        omega

/-- The difference of two words, byte by byte. -/
theorem xor_byte {x y a b : Nat} (hx : x < 256) (hy : y < 256) :
    (x + 256 * a) ^^^ (y + 256 * b) = (x ^^^ y) + 256 * (a ^^^ b) := by
  have hmod := Nat.xor_mod_two_pow (a := x + 256 * a) (b := y + 256 * b) (n := 8)
  have hdiv := Nat.xor_div_two_pow (a := x + 256 * a) (b := y + 256 * b) (n := 8)
  have hlow : (x + 256 * a) % 2 ^ 8 = x := by omega
  have hlow' : (y + 256 * b) % 2 ^ 8 = y := by omega
  have hhigh : (x + 256 * a) / 2 ^ 8 = a := by omega
  have hhigh' : (y + 256 * b) / 2 ^ 8 = b := by omega
  rw [hlow, hlow'] at hmod
  rw [hhigh, hhigh'] at hdiv
  rw [← hmod, ← hdiv]
  omega

/-- Where two words differ first. -/
theorem ctz_slice (m : Mem) {a b : Nat} (n : Nat)
    (hne : ofLE (m.slice a n) ≠ ofLE (m.slice b n)) :
    ∃ j, ctz (8 * n) (ofLE (m.slice a n) ^^^ ofLE (m.slice b n)) / 8 = j
      ∧ j < n ∧ (∀ i < j, m (a + i) = m (b + i)) ∧ m (a + j) ≠ m (b + j) := by
  induction n generalizing a b with
  | zero => exact absurd rfl hne
  | succ n ih =>
      have hx := (m a).toNat_lt
      have hy := (m b).toNat_lt
      rw [Mem.slice_cons, Mem.slice_cons, ofLE_cons, ofLE_cons] at hne ⊢
      rw [xor_byte hx hy, show 8 * (n + 1) = 8 * n + 8 by omega]
      by_cases heq : m a = m b
      · rw [heq] at hne ⊢
        obtain ⟨j, hj, hlt, hsame, hdiff⟩ := ih (a := a + 1) (b := b + 1) (by omega)
        refine ⟨j + 1, ?_, by omega, ?_, ?_⟩
        · rw [Nat.xor_self, Nat.zero_add, ctz_byte]
          omega
        · intro i hi
          cases i with
          | zero => simpa using heq
          | succ i =>
              have := hsame i (by omega)
              rwa [Nat.add_assoc, Nat.add_assoc, Nat.add_comm 1 i] at this
        · rwa [Nat.add_assoc, Nat.add_assoc, Nat.add_comm 1 j] at hdiff
      · refine ⟨0, ?_, by omega, fun i hi => by omega, by simpa using heq⟩
        have hbyte : (m a).toNat ^^^ (m b).toNat ≠ 0 := by
          intro h0
          apply heq
          apply UInt8.toNat_inj.mp
          exact xor_eq_zero_iff.mp h0
        have hlt := Nat.xor_lt_two_pow (n := 8) hx hy
        have := ctz_lt 8 (w := 8 * n)
          (n := ((m a).toNat ^^^ (m b).toNat)
            + 256 * (ofLE (m.slice (a + 1) n) ^^^ ofLE (m.slice (b + 1) n)))
          (by omega)
        omega

-- ============================================================ the count

variable {source : Region}

/-- Words that are equal come from bytes that are. -/
theorem slice_eq_of_ofLE {m : Mem} {a b n i : Nat}
    (h : ofLE (m.slice a n) = ofLE (m.slice b n)) (hi : i < n) :
    m (a + i) = m (b + i) := by
  have heq := ofLE_inj (by simp) h
  have := congrArg (·[i]?) heq
  simpa [Mem.slice, hi] using this

/-- A mismatch at most `w` bytes on, or the limit. -/
def Near (m : Mem) (d w limit p : Nat) : Prop :=
  limit < p + w ∨ ∃ i < w, m (p + i) ≠ m (p + i - d)

/-- A step of the tail narrows the place down to half. -/
theorem countStep_spec {w limit : Nat} {p : Nat × Nat} (hw : 1 ≤ w)
    (hle : p.2 ≤ p.1) (hlimit : limit ≤ source.size)
    (hnear : Near source.bytes (p.1 - p.2) (2 * w) limit p.1) :
    Ends (fun r : Nat × Nat => p.1 ≤ r.1 ∧ r.2 ≤ r.1 ∧ r.1 - r.2 = p.1 - p.2
        ∧ (r.1 = p.1 ∨ r.1 ≤ limit)
        ∧ Repeats source.bytes (p.1 - p.2) p.1 r.1
        ∧ Near source.bytes (p.1 - p.2) w limit r.1) E
      (countStep source w limit p) := by
  unfold countStep
  split
  next hroom =>
    rw [load_ok (by omega), ok_bind, load_ok (by omega), ok_bind]
    split
    next heq =>
      have hsame : ∀ i < w, source.bytes (p.1 + i) = source.bytes (p.1 + i - (p.1 - p.2)) := by
        intro i hi
        have := slice_eq_of_ofLE (congrArg ofLE heq) hi
        rw [show p.1 + i - (p.1 - p.2) = p.2 + i by omega]
        exact this.symm
      refine ends_pure.mpr ⟨by dsimp only; omega, by dsimp only; omega,
        by dsimp only; omega, .inr (by dsimp only; omega), ?_, ?_⟩
      · intro i hi hi'
        have := hsame (i - p.1) (by dsimp only at hi'; omega)
        rwa [show p.1 + (i - p.1) = i by omega] at this
      · rcases hnear with hend | ⟨i, hi, hne⟩
        · exact .inl (by dsimp only; omega)
        · right
          have hiw : w ≤ i := by
            by_contra hlt
            exact hne (hsame i (by omega))
          refine ⟨i - w, by omega, ?_⟩
          dsimp only
          rwa [show p.1 + w + (i - w) = p.1 + i by omega]
    next hne =>
      refine ends_pure.mpr ⟨Nat.le_refl _, hle, rfl, .inl rfl,
        Repeats.empty _ _ _, .inr ?_⟩
      by_contra hall
      apply hne
      apply Mem.slice_congr
      intro i hi
      by_contra hdiff
      refine hall ⟨i, hi, ?_⟩
      rw [show p.1 + i - (p.1 - p.2) = p.2 + i by omega]
      exact fun h => hdiff h.symm
  next hroom =>
    exact ends_pure.mpr ⟨Nat.le_refl _, hle, rfl, .inl rfl,
      Repeats.empty _ _ _, .inl (by omega)⟩

/-- The count ends at the first mismatch or at the limit. -/
theorem lz4Count_spec {pIn pMatch limit : Nat} (hle : pMatch ≤ pIn)
    (hlimit : limit ≤ source.size) (hstart : pIn ≤ limit) :
    Ends (fun p => pIn ≤ p ∧ p ≤ limit
        ∧ Repeats source.bytes (pIn - pMatch) pIn p
        ∧ (p < limit → source.bytes p ≠ source.bytes (p - (pIn - pMatch)))) E
      (lz4Count source pIn pMatch limit) := by
  induction hn : limit - pIn using Nat.strongRecOn generalizing pIn pMatch with
  | ind n ih =>
      rw [lz4Count]
      split
      next hroom =>
        simp only [lz4Read64, load_ok (r := source) (i := pMatch)
          (n := 8) (by omega), load_ok (r := source) (i := pIn)
          (n := 8) (by omega), ok_bind, pure_bind]
        split
        next hzero =>
          have heq := xor_eq_zero_iff.mp hzero
          refine (ih _ (by omega)
            (by omega) (by omega) rfl).mono ?_ (fun _ h => h)
          intro p h
          obtain ⟨hge, hend, hrep, hdiff⟩ := h
          rw [show pIn + 8 - (pMatch + 8) = pIn - pMatch by omega] at hrep hdiff
          refine ⟨by omega, hend, Repeats.append (b := pIn + 8) ?_ hrep, hdiff⟩
          intro i hi hi'
          have := slice_eq_of_ofLE heq (i := i - pIn) (by omega)
          rw [show pIn + (i - pIn) = i by omega] at this
          rw [← this]
          congr 1
          omega
        next hne =>
          have hword : ofLE (source.bytes.slice pMatch 8)
              ≠ ofLE (source.bytes.slice pIn 8) :=
            fun h => hne (xor_eq_zero_iff.mpr h)
          obtain ⟨j, hj, hlt, hsame, hdiff⟩ := ctz_slice source.bytes 8 hword
          have hcommon : lz4NbCommonBytes (ofLE (source.bytes.slice pMatch 8)
              ^^^ ofLE (source.bytes.slice pIn 8)) = j := hj
          rw [hcommon, ends_pure]
          refine ⟨by omega, by omega, ?_, ?_⟩
          · intro i hi hi'
            have := hsame (i - pIn) (by omega)
            rw [show pIn + (i - pIn) = i by omega] at this
            rw [← this]
            congr 1
            omega
          · intro _ h
            apply hdiff
            rw [h]
            congr 1
            omega
      next hroom =>
        -- at most 7 bytes are left: 4, 2 and 1 narrow the end down
        refine (countStep_spec (w := 4) (p := (pIn, pMatch)) (by omega) hle hlimit
          (.inl (by dsimp only; omega))).bind ?_
        intro p₄ h₄
        obtain ⟨hge₄, hle₄, hd₄, hend₄, hrep₄, hnear₄⟩ := h₄
        rw [← hd₄] at hnear₄
        refine (countStep_spec (w := 2) (by omega) hle₄ hlimit hnear₄).bind ?_
        intro p₂ h₂
        obtain ⟨hge₂, hle₂, hd₂, hend₂, hrep₂, hnear₂⟩ := h₂
        rw [← hd₂] at hnear₂
        refine (countStep_spec (w := 1) (by omega) hle₂ hlimit hnear₂).bind ?_
        intro p₁ h₁
        obtain ⟨hge₁, hle₁, hd₁, hend₁, hrep₁, hnear₁⟩ := h₁
        rw [hd₂, hd₄] at hrep₁ hnear₁
        rw [hd₄] at hrep₂
        dsimp only at hge₄ hend₄ hrep₄ hrep₂ hrep₁ hnear₁
        refine ends_pure.mpr ⟨by omega, by omega,
          (hrep₄.append hrep₂).append hrep₁, ?_⟩
        intro hlt
        rcases hnear₁ with hend | ⟨i, hi, hne⟩
        · omega
        · obtain rfl : i = 0 := by omega
          exact hne

end Yrmcds
