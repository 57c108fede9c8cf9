/-
Fixed-width words as byte strings. `toBE w n` writes the low `w` bytes of
`n` most significant first, `ofBE` reads a byte string back; the `LE`
pair is the same word reversed, which is what a `memcpy` of a host word
leaves in memory on a little-endian host.

The two laws every format proof needs: `ofBE_toBE` (writing then reading
truncates to the width) and `toBE_ofBE` (reading then writing gives the
bytes back).
-/
import Mathlib.Data.Nat.Basic
import Mathlib.Tactic.Ring

namespace Endian

-- ========================================================= big endian

/-- The `w` big-endian bytes of `n`; higher bits are dropped. -/
def toBE : Nat → Nat → List UInt8
  | 0, _ => []
  | w + 1, n => UInt8.ofNat (n / 256 ^ w) :: toBE w n

/-- The number a big-endian byte string stands for. -/
def ofBE : List UInt8 → Nat
  | [] => 0
  | b :: bs => b.toNat * 256 ^ bs.length + ofBE bs

@[simp] theorem length_toBE (w n : Nat) : (toBE w n).length = w := by
  induction w with
  | zero => rfl
  | succ w ih => simp [toBE, ih]

/-- A byte string of length `w` stands for a number below `256 ^ w`. -/
theorem ofBE_lt (bs : List UInt8) : ofBE bs < 256 ^ bs.length := by
  induction bs with
  | nil => simp [ofBE]
  | cons b bs ih =>
      have hb : b.toNat < 256 := b.toNat_lt
      have hmul : (b.toNat + 1) * 256 ^ bs.length ≤ 256 * 256 ^ bs.length :=
        Nat.mul_le_mul_right _ hb
      rw [Nat.add_mul, Nat.one_mul] at hmul
      rw [ofBE, List.length_cons, pow_succ']
      omega

/-- Writing a word and reading it back truncates it to its width. -/
theorem ofBE_toBE (w n : Nat) : ofBE (toBE w n) = n % 256 ^ w := by
  induction w with
  | zero => simp [toBE, ofBE, Nat.mod_one]
  | succ w ih =>
      have hbyte : (UInt8.ofNat (n / 256 ^ w)).toNat = n / 256 ^ w % 256 := by
        simp [UInt8.toNat_ofNat']
      rw [toBE, ofBE, length_toBE, ih, hbyte, pow_succ, Nat.mod_mul]
      ring

/-- Below the width nothing is lost. -/
theorem ofBE_toBE_of_lt {w n : Nat} (h : n < 256 ^ w) : ofBE (toBE w n) = n := by
  rw [ofBE_toBE, Nat.mod_eq_of_lt h]

/-- A single byte. -/
theorem ofBE_singleton {n : Nat} (h : n < 2 ^ 8) : ofBE [UInt8.ofNat n] = n := by
  rw [show [UInt8.ofNat n] = toBE 1 n by simp [toBE]]
  exact ofBE_toBE_of_lt h

/-- The low bytes of a word do not see its high part. -/
theorem toBE_add_mul (w a b : Nat) : toBE w (a * 256 ^ w + b) = toBE w b := by
  induction w generalizing a with
  | zero => rfl
  | succ w ih =>
      have hpow : a * 256 ^ (w + 1) = (a * 256) * 256 ^ w := by rw [pow_succ]; ring
      have hdiv : (a * 256 ^ (w + 1) + b) / 256 ^ w = b / 256 ^ w + 256 * a := by
        rw [hpow, Nat.add_comm, Nat.add_mul_div_right _ _ (Nat.pow_pos (by decide))]
        ring
      rw [toBE, toBE, hdiv, hpow, ih]
      congr 1
      apply UInt8.toNat_inj.mp
      simp [UInt8.toNat_ofNat']

/-- Reading a byte string and writing it back gives the bytes back. -/
theorem toBE_ofBE (bs : List UInt8) : toBE bs.length (ofBE bs) = bs := by
  induction bs with
  | nil => rfl
  | cons b bs ih =>
      have hlt := ofBE_lt bs
      have hdiv : (b.toNat * 256 ^ bs.length + ofBE bs) / 256 ^ bs.length = b.toNat := by
        rw [Nat.add_comm, Nat.add_mul_div_right _ _ (Nat.pow_pos (by decide)),
          Nat.div_eq_of_lt hlt, Nat.zero_add]
      rw [List.length_cons, toBE, ofBE, hdiv, toBE_add_mul, ih, UInt8.ofNat_toNat]

-- ====================================================== little endian

/-- The `w` little-endian bytes of `n`. -/
def toLE (w n : Nat) : List UInt8 := (toBE w n).reverse

/-- The number a little-endian byte string stands for. -/
def ofLE (bs : List UInt8) : Nat := ofBE bs.reverse

@[simp] theorem length_toLE (w n : Nat) : (toLE w n).length = w := by
  simp [toLE]

/-- Below the width nothing is lost. -/
theorem ofLE_toLE_of_lt {w n : Nat} (h : n < 256 ^ w) : ofLE (toLE w n) = n := by
  rw [ofLE, toLE, List.reverse_reverse, ofBE_toBE_of_lt h]

/-- The first byte of a word is its lowest. -/
theorem ofBE_append (bs : List UInt8) (b : UInt8) :
    ofBE (bs ++ [b]) = ofBE bs * 256 + b.toNat := by
  induction bs with
  | nil => simp [ofBE]
  | cons c bs ih =>
      rw [List.cons_append, ofBE, ih, ofBE, List.length_append,
        List.length_singleton, pow_succ]
      ring

theorem ofLE_cons (b : UInt8) (bs : List UInt8) :
    ofLE (b :: bs) = b.toNat + 256 * ofLE bs := by
  rw [ofLE, List.reverse_cons, ofBE_append, ofLE]
  omega

theorem ofLE_lt (bs : List UInt8) : ofLE bs < 256 ^ bs.length := by
  have h := ofBE_lt bs.reverse
  rwa [List.length_reverse] at h

/-- Reading a byte string and writing it back gives the bytes back. -/
theorem toLE_ofLE (bs : List UInt8) : toLE bs.length (ofLE bs) = bs := by
  have h := toBE_ofBE bs.reverse
  rw [List.length_reverse] at h
  rw [toLE, ofLE, h, List.reverse_reverse]

/-- Different byte strings of one length are different words. -/
theorem ofLE_inj {bs bs' : List UInt8} (hlen : bs.length = bs'.length)
    (h : ofLE bs = ofLE bs') : bs = bs' := by
  rw [← toLE_ofLE bs, ← toLE_ofLE bs', hlen, h]

end Endian
