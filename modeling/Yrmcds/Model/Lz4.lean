/-
The LZ4 block codec as libyrmcds uses it (`lz4/lib/lz4.h`): the codec
itself is a parameter, the size checks in front of it are the sources'.

`Lz4` carries the two directions. `compress` is the compressor on the
sizes `LZ4_compress_generic` accepts, as the bytes it leaves in `dest`
(none where it returns 0). `decompressSafe` is `LZ4_decompress_safe` as
the bytes it decodes, or `none` for any negative return value: the
caller compares the value with a non-negative size and never looks at
which error it is.

`Lz4.Lawful` is what the sources of the codec promise: the header
documents the round trip, the worst-case bound and that decoding never
looks outside its input; that a negative input size is refused follows
from the end-of-input test, which compares against a pointer in front of
the first byte.
-/
import Yrmcds.Model.Basic

namespace Yrmcds

/-- An LZ4 block codec. -/
structure Lz4 where
  compress : List UInt8 → List UInt8
  decompressSafe : Mem → Int → Nat → Option (List UInt8)

/-- `LZ4_MAX_INPUT_SIZE`. -/
def LZ4_MAX_INPUT_SIZE : Nat := 0x7E000000

/-- `(unsigned int)` of an `int`. -/
def toUnsigned (n : Int) : Nat := (n % 2 ^ 32).toNat

/-- `LZ4_compressBound`. -/
def lz4CompressBound (isize : Int) : Nat :=
  if toUnsigned isize > LZ4_MAX_INPUT_SIZE then 0
  else (isize + isize.tdiv 255 + 16).toNat

/-- `LZ4_compress`: the first `inputSize` bytes of `source`, compressed.
A size that is negative or above the maximum is refused with 0. -/
def Lz4.compressBytes (lz : Lz4) (source : List UInt8) (inputSize : Int) :
    List UInt8 :=
  if toUnsigned inputSize > LZ4_MAX_INPUT_SIZE then []
  else lz.compress (source.take inputSize.toNat)

/-- What the codec's sources promise. -/
structure Lz4.Lawful (lz : Lz4) : Prop where
  /-- A negative input size is an error. -/
  neg : ∀ (src : Mem) (n : Int) (max : Nat), n < 0 →
    lz.decompressSafe src n max = none
  /-- Decoding depends on its input bytes only. -/
  inside : ∀ (src src' : Mem) (n max : Nat), (∀ i < n, src i = src' i) →
    lz.decompressSafe src n max = lz.decompressSafe src' n max
  /-- A block decodes to what was compressed. -/
  round : ∀ (d : List UInt8) (src : Mem), d.length ≤ LZ4_MAX_INPUT_SIZE →
    lz.compress d ≠ [] → src.slice 0 (lz.compress d).length = lz.compress d →
    lz.decompressSafe src (lz.compress d).length d.length = some d
  /-- The block fits the bound the caller allocates. -/
  bound : ∀ d : List UInt8, d.length ≤ LZ4_MAX_INPUT_SIZE →
    (lz.compress d).length ≤ lz4CompressBound d.length

-- ======================================================= literal blocks

/-- The codec of blocks without matches: a token with the length in its
high half, and the bytes themselves. It is what the compressor emits for
fewer than 13 bytes; longer inputs it refuses. -/
def Lz4.literals : Lz4 where
  compress d := if d.length < 13 then UInt8.ofNat (d.length * 16) :: d else []
  decompressSafe src n max :=
    let len := (src 0).toNat / 16
    if n = len + 1 ∧ len < 15 ∧ len ≤ max then some (src.slice 1 len)
    else none

/-- The codec of literal blocks keeps every promise. -/
theorem Lz4.literals_lawful : Lz4.literals.Lawful where
  neg src n max h := if_neg (by omega)
  inside src src' n max h := by
    show (if _ then _ else _) = (if _ then _ else _)
    by_cases hn : n = 0
    · rw [if_neg (by omega), if_neg (by omega)]
    · rw [h 0 (by omega)]
      split
      next hfit =>
        refine congrArg some (List.map_congr_left fun i hi => ?_)
        exact h (1 + i) (by have := List.mem_range.mp hi; omega)
      next => rfl
  round d src _ hne hsrc := by
    have hcomp : Lz4.literals.compress d
        = if d.length < 13 then UInt8.ofNat (d.length * 16) :: d else [] := rfl
    rw [hcomp] at hne hsrc ⊢
    split at hsrc
    next hlt =>
      rw [if_pos hlt]
      have hsplit : src 0 :: src.slice 1 d.length
          = UInt8.ofNat (d.length * 16) :: d := by
        rw [← hsrc, List.length_cons, Mem.slice, Mem.slice,
          List.range_succ_eq_map, List.map_cons, List.map_map]
        congr 1
        apply List.map_congr_left
        intro i _
        rw [Function.comp_apply, Nat.zero_add, Nat.add_comm]
      injection hsplit with htoken hbytes
      have hlen : (src 0).toNat / 16 = d.length := by
        rw [htoken, UInt8.toNat_ofNat']
        omega
      show (if _ then some (src.slice 1 ((src 0).toNat / 16)) else none) = _
      rw [hlen, hbytes, if_pos ⟨by rw [List.length_cons]; rfl, by omega,
        Nat.le_refl _⟩]
    next hge =>
      rw [if_neg hge] at hne
      exact absurd rfl hne
  bound d hd := by
    have hsize : toUnsigned d.length = d.length := by
      unfold toUnsigned
      have : LZ4_MAX_INPUT_SIZE < 2 ^ 32 := by decide
      omega
    show (if d.length < 13 then _ else _ : List UInt8).length ≤ _
    split
    next =>
      rw [lz4CompressBound, hsize, if_neg (by omega)]
      have : 0 ≤ (d.length : Int).tdiv 255 := Int.tdiv_nonneg (by omega) (by omega)
      rw [List.length_cons]
      omega
    next => exact Nat.zero_le _

end Yrmcds
