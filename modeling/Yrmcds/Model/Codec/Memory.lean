/-
How the LZ4 codec reads and writes memory (`lz4/lib/lz4.c`, the routines
in front of the algorithms).

A pointer is a position in a `Region`, a block of memory with its
extent, and an access outside the extent is a fault. Which of the
`LZ4_UNALIGNED_ACCESS` variants a routine takes makes no difference to
the bytes; the words are those of a little-endian host.
-/
import Yrmcds.Lib.Checked
import Yrmcds.Model.Basic

namespace Yrmcds

open Endian

variable {ε : Type}

/-- A block of memory and its extent. -/
structure Region where
  size : Nat
  bytes : Mem

namespace Region

/-- `*p`. -/
def byte (r : Region) (i : Nat) : Checked ε UInt8 :=
  if i < r.size then .ok (r.bytes i) else .error .fault

/-- The `n` bytes at `p`. -/
def load (r : Region) (i n : Nat) : Checked ε (List UInt8) :=
  if i + n ≤ r.size then .ok (r.bytes.slice i n) else .error .fault

/-- `memcpy` to `p`. -/
def store (r : Region) (i : Nat) (bs : List UInt8) : Checked ε Region :=
  if i + bs.length ≤ r.size then .ok { r with bytes := r.bytes.write i bs }
  else .error .fault

end Region

/-- `LZ4_read16`, on a little-endian host also `LZ4_readLE16`. -/
def lz4Read16 (r : Region) (i : Nat) : Checked ε Nat := do
  return ofLE (← r.load i 2)

/-- `LZ4_read32`. -/
def lz4Read32 (r : Region) (i : Nat) : Checked ε UInt32 := do
  return UInt32.ofNat (ofLE (← r.load i 4))

/-- `LZ4_read64`, which is `LZ4_read_ARCH` with pointers of 8 bytes. -/
def lz4Read64 (r : Region) (i : Nat) : Checked ε Nat := do
  return ofLE (← r.load i 8)

/-- `LZ4_writeLE16`. -/
def lz4WriteLE16 (r : Region) (i value : Nat) : Checked ε Region :=
  r.store i (toLE 2 value)

/-- `LZ4_copy8` and `LZ4_copy4` within one region: all bytes are loaded
before any is stored. -/
def lz4Copy (n : Nat) (dest : Region) (d s : Nat) : Checked ε Region := do
  dest.store d (← dest.load s n)

/-- `LZ4_wildCopy`: steps of 8 bytes, at least one, until `e` is reached.
`from_` is the region the source pointer points into, another one or
`dest` as it has become. -/
def lz4WildCopy (from_ : Region → Region) (dest : Region) (d s e : Nat) :
    Checked ε Region := do
  let bytes ← (from_ dest).load s 8
  let dest ← dest.store d bytes
  if d + 8 < e then lz4WildCopy from_ dest (d + 8) (s + 8) e
  else return dest
termination_by e - d

/-- `*op++ = *match++`, `n` times. -/
def copyBytes (dest : Region) (op match_ : Nat) : Nat → Checked ε Region
  | 0 => return dest
  | n + 1 => do
      let dest ← dest.store op [← dest.byte match_]
      copyBytes dest (op + 1) (match_ + 1) n

-- ===================================================== common constants

def MINMATCH : Nat := 4
def COPYLENGTH : Nat := 8
def LASTLITERALS : Nat := 5
def MFLIMIT : Nat := COPYLENGTH + MINMATCH
def MAX_DISTANCE : Nat := 2 ^ 16 - 1
def ML_MASK : Nat := 15
def RUN_MASK : Nat := 15

end Yrmcds
