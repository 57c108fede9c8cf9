/-
The codec libyrmcds is built with, as the pair of functions its callers
use: `LZ4_compress` and `LZ4_decompress_safe` on fresh memory.

`fresh` and `junk` are what `malloc` found in the blocks that the callers
of the two allocate for the output. The caller of the decoder lets it read
two bytes of the receive buffer in any case, which is more than the input
if that is shorter; it makes no other use of what is behind its input.
-/
import Yrmcds.Model.Codec.Compress
import Yrmcds.Model.Codec.Decompress

namespace Yrmcds

/-- The first `size` bytes of a memory. -/
def Region.of (m : Mem) (size : Nat) : Region :=
  ⟨size, fun i => if i < size then m i else 0⟩

/-- The block of the bytes `d`: what `LZ4_compress` leaves in a fresh
`dest` of `LZ4_compressBound` bytes. -/
def lz4CompressBlock (fresh : Mem) (d : List UInt8) :
    Checked Empty (Nat × Region) :=
  lz4Compress (Region.of (fun i => d.getD i 0) d.length)
    ⟨lz4CompressBound d.length, fresh⟩ d.length

/-- `LZ4_decompress_safe` into a fresh block of `max` bytes. -/
def lz4DecompressBlock (junk src : Mem) (n : Int) (max : Nat) :
    Checked Int (Nat × Region) :=
  lz4DecompressSafe (Region.of src (Nat.max 2 n.toNat)) ⟨max, junk⟩ n max

/-- The bytes of a call that returned their number. -/
def outputBytes {ε : Type} : Checked ε (Nat × Region) → Option (List UInt8)
  | .ok r => some (r.2.bytes.slice 0 r.1)
  | .error _ => none

/-- The codec. -/
def lz4 (fresh junk : Mem) : Lz4 where
  compress d := (outputBytes (lz4CompressBlock fresh d)).getD []
  decompressSafe src n max := outputBytes (lz4DecompressBlock junk src n max)

theorem Lz4.mk_compress (f : List UInt8 → List UInt8)
    (g : Mem → Int → Nat → Option (List UInt8)) (d : List UInt8) :
    (Lz4.mk f g).compress d = f d := rfl

theorem Lz4.mk_decompressSafe (f : List UInt8 → List UInt8)
    (g : Mem → Int → Nat → Option (List UInt8)) (src : Mem) (n : Int)
    (max : Nat) : (Lz4.mk f g).decompressSafe src n max = g src n max := rfl

theorem lz4_compress (fresh junk : Mem) (d : List UInt8) :
    (lz4 fresh junk).compress d
      = (outputBytes (lz4CompressBlock fresh d)).getD [] := by
  rw [lz4, Lz4.mk_compress]

theorem lz4_decompressSafe (fresh junk src : Mem) (n : Int) (max : Nat) :
    (lz4 fresh junk).decompressSafe src n max
      = outputBytes (lz4DecompressBlock junk src n max) := by
  rw [lz4, Lz4.mk_decompressSafe]

end Yrmcds
