/-
Lengths split over half a byte and as many further bytes as it takes.

The half byte holds a length below 15, or 15 for every longer one; the
rest follows in bytes that are added up, the last of them the first that
is not 255. `excess` is the rest, `nibble` and `extra` the two parts of a
length, `pack` two half bytes in one.
-/
import Mathlib.Data.List.Basic

namespace Lengths

/-- A number as bytes that add up to it, ended by one that is not 255. -/
def excess (n : Nat) : List UInt8 :=
  if n < 255 then [UInt8.ofNat n] else 255 :: excess (n - 255)
termination_by n

/-- The half byte of a length. -/
def nibble (n : Nat) : Nat := min n 15

/-- The bytes behind the half byte. -/
def extra (n : Nat) : List UInt8 := if n < 15 then [] else excess (n - 15)

/-- Two half bytes, the higher one first. -/
def pack (high low : Nat) : UInt8 := UInt8.ofNat (high * 16 + low)

theorem excess_of_lt {n : Nat} (h : n < 255) : excess n = [UInt8.ofNat n] := by
  rw [excess, if_pos h]

theorem excess_of_ge {n : Nat} (h : 255 ≤ n) :
    excess n = 255 :: excess (n - 255) := by
  rw [excess, if_neg (by omega)]

theorem length_excess (n : Nat) : (excess n).length = n / 255 + 1 := by
  induction n using Nat.strongRecOn with
  | ind n ih =>
      by_cases h : n < 255
      · rw [excess_of_lt h, Nat.div_eq_of_lt h]
        rfl
      · rw [excess_of_ge (by omega), List.length_cons, ih _ (by omega)]
        omega

theorem extra_of_lt {n : Nat} (h : n < 15) : extra n = [] := if_pos h

theorem extra_of_ge {n : Nat} (h : 15 ≤ n) : extra n = excess (n - 15) :=
  if_neg (by omega)

theorem length_extra (n : Nat) :
    (extra n).length = if n < 15 then 0 else (n - 15) / 255 + 1 := by
  unfold extra
  split
  · rfl
  · exact length_excess _

theorem nibble_le (n : Nat) : nibble n ≤ 15 := Nat.min_le_right n 15

theorem nibble_of_lt {n : Nat} (h : n < 15) : nibble n = n :=
  Nat.min_eq_left (by omega)

theorem nibble_of_ge {n : Nat} (h : 15 ≤ n) : nibble n = 15 :=
  Nat.min_eq_right h

theorem toNat_pack {high low : Nat} (hh : high ≤ 15) (hl : low ≤ 15) :
    (pack high low).toNat = high * 16 + low := by
  unfold pack
  rw [UInt8.toNat_ofNat', Nat.mod_eq_of_lt (by omega)]

theorem pack_high {high low : Nat} (hh : high ≤ 15) (hl : low ≤ 15) :
    (pack high low).toNat / 16 = high := by
  rw [toNat_pack hh hl]
  omega

theorem pack_low {high low : Nat} (hh : high ≤ 15) (hl : low ≤ 15) :
    (pack high low).toNat % 16 = low := by
  rw [toNat_pack hh hl]
  omega

/-- Two half bytes can be told apart. -/
theorem pack_inj {high low high' low' : Nat} (hh : high ≤ 15) (hl : low ≤ 15)
    (hh' : high' ≤ 15) (hl' : low' ≤ 15)
    (h : pack high low = pack high' low') : high = high' ∧ low = low' := by
  constructor
  · rw [← pack_high hh hl, h, pack_high hh' hl']
  · rw [← pack_low hh hl, h, pack_low hh' hl']

-- ==================================================== reading them back

/-- The last byte says where the number ends. -/
theorem excess_inj {m n : Nat} {xs ys : List UInt8}
    (h : excess m ++ xs = excess n ++ ys) : m = n ∧ xs = ys := by
  have hbyte : ∀ k < 255, UInt8.ofNat k ≠ 255 := by
    intro k hk heq
    have := congrArg UInt8.toNat heq
    rw [UInt8.toNat_ofNat', Nat.mod_eq_of_lt (by omega)] at this
    have h255 : (255 : UInt8).toNat = 255 := rfl
    omega
  induction m using Nat.strongRecOn generalizing n with
  | ind m ih =>
      by_cases hm : m < 255
      · by_cases hn : n < 255
        · rw [excess_of_lt hm, excess_of_lt hn] at h
          injection h with hb htail
          have := congrArg UInt8.toNat hb
          rw [UInt8.toNat_ofNat', UInt8.toNat_ofNat'] at this
          exact ⟨by omega, htail⟩
        · rw [excess_of_lt hm, excess_of_ge (by omega)] at h
          injection h with hb
          exact absurd hb (hbyte m hm)
      · by_cases hn : n < 255
        · rw [excess_of_ge (by omega), excess_of_lt hn] at h
          injection h with hb
          exact absurd hb.symm (hbyte n hn)
        · have hm : 255 ≤ m := by omega
          have hn : 255 ≤ n := by omega
          rw [excess_of_ge hm, excess_of_ge hn] at h
          injection h with _ h
          obtain ⟨heq, htail⟩ := ih (m - 255) (by omega) h
          exact ⟨by omega, htail⟩

/-- The half byte and the bytes behind it say the length. -/
theorem extra_inj {m n : Nat} {xs ys : List UInt8} (hhalf : nibble m = nibble n)
    (h : extra m ++ xs = extra n ++ ys) : m = n ∧ xs = ys := by
  by_cases hm : m < 15
  · have hn : n < 15 := by
      unfold nibble at hhalf
      omega
    rw [nibble_of_lt hm, nibble_of_lt hn] at hhalf
    rw [extra_of_lt hm, extra_of_lt hn] at h
    exact ⟨hhalf, h⟩
  · have hn : 15 ≤ n := by
      unfold nibble at hhalf
      omega
    rw [extra_of_ge (by omega), extra_of_ge hn] at h
    obtain ⟨heq, htail⟩ := excess_inj h
    exact ⟨by omega, htail⟩

/-- Every byte is two half bytes. -/
theorem pack_div_mod (b : UInt8) : pack (b.toNat / 16) (b.toNat % 16) = b := by
  unfold pack
  rw [Nat.div_add_mod']
  exact UInt8.ofNat_toNat

end Lengths
