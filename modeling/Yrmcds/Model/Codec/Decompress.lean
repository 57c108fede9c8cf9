/-
The LZ4 decoder (`LZ4_decompress_generic` of `lz4/lib/lz4.c`) as
`LZ4_decompress_safe` instantiates it: the input size is known, the whole
block is decoded, there is no dictionary in front of the output.

`ip` and `op` are positions in the input and the output; the ends of
both are integers, since the sizes are `int`. An error exit is the
negative value returned there. What it leaves in the output is not kept:
the caller frees it. The three tests of the form `op + length < op` are
not made, as no sum of a position and a length wraps around 2^64.

`decodeLoop` bounds the rounds of the `while (1)`.
-/
import Yrmcds.Model.Codec.Memory

namespace Yrmcds

open Endian

/-- Where the decoder is. -/
structure Cursor where
  ip : Nat
  op : Nat
  dest : Region

/-- `goto _output_error`. -/
def outputError {α : Type} (ip : Nat) : Checked Int α :=
  .error (.error (-(ip : Int) - 1))

-- ============================================================== lengths

/-- `do { s = *ip++; length += s; } while (ip < iend - RUN_MASK && s == 255)`. -/
def literalRun (source : Region) (iend : Int) (ip length : Nat) :
    Checked Int (Nat × Nat) := do
  let s ← source.byte ip
  if (ip + 1 : Int) < iend - RUN_MASK ∧ s = 255 then
    literalRun source iend (ip + 1) (length + s.toNat)
  else return (ip + 1, length + s.toNat)
termination_by (iend - ip).toNat

/-- The length of the literals, and where they start. -/
def literalLength (source : Region) (iend : Int) (token : UInt8) (ip : Nat) :
    Checked Int (Nat × Nat) :=
  let length := token.toNat / 16
  if length = RUN_MASK then literalRun source iend ip length
  else return (ip, length)

/-- The loop of the match length, which looks at the end of the input
before each byte. -/
def matchRun (source : Region) (iend : Int) (ip length : Nat) :
    Checked Int (Nat × Nat) :=
  if (ip : Int) > iend - LASTLITERALS then outputError ip
  else do
    let s ← source.byte ip
    if s = 255 then matchRun source iend (ip + 1) (length + s.toNat)
    else return (ip + 1, length + s.toNat)
termination_by (iend - ip).toNat
decreasing_by
  have : LASTLITERALS = 5 := rfl
  omega

/-- The length of the match, and where the next sequence starts. -/
def matchLength (source : Region) (iend : Int) (token : UInt8) (ip : Nat) :
    Checked Int (Nat × Nat) := do
  let length := token.toNat % 16
  let r ← if length = ML_MASK then matchRun source iend ip length
    else pure (ip, length)
  return (r.1, r.2 + MINMATCH)

-- ============================================================ the match

def dec32table : List Nat := [4, 1, 2, 1, 4, 4, 4, 4]

def dec64table : List Int := [0, 0, 0, -1, 0, 1, 2, 3]

/-- The first 8 bytes of a match. A distance below 8 is spread, so that
the copying after it never reads what its own step writes; the position
the copying goes on from is returned with the region. -/
def copyStart (dest : Region) (op match_ : Nat) : Checked Int (Region × Nat) :=
  if op - match_ < 8 then do
    let dec64 := dec64table.getD (op - match_) 0
    let dest ← copyBytes dest op match_ 4
    let match_ := match_ + dec32table.getD (op - match_) 0
    let dest ← lz4Copy 4 dest (op + 4) match_
    return (dest, (match_ - dec64).toNat)
  else do
    let dest ← lz4Copy 8 dest op match_
    return (dest, match_ + 8)

/-- Copy the match, `length` bytes from `match_` on. `ip` is only for the
error exit. -/
def copyMatch (oend : Int) (ip : Nat) (dest : Region) (op match_ length : Nat) :
    Checked Int Region := do
  let cpy := op + length
  let r ← copyStart dest op match_
  let op := op + 8
  let match_ := r.2
  if (cpy : Int) > oend - 12 then
    if (cpy : Int) > oend - LASTLITERALS then outputError ip
    else if (op : Int) < oend - 8 then do
      let stop := (oend - 8).toNat
      let dest ← lz4WildCopy id r.1 op match_ stop
      copyBytes dest stop (match_ + (stop - op)) (cpy - stop)
    else copyBytes r.1 op match_ (cpy - op)
  else lz4WildCopy id r.1 op match_ cpy

-- ============================================================= the loop

/-- How one round of the main loop ends. -/
inductive Round where
  | more (c : Cursor)
  | done (c : Cursor)

/-- One round of the main loop: a sequence, or the last literals. -/
def decodeSequence (source : Region) (iend oend : Int) (c : Cursor) :
    Checked Int Round := do
  let token ← source.byte c.ip
  let r ← literalLength source iend token (c.ip + 1)
  let ip := r.1
  let length := r.2
  let cpy := c.op + length
  if (cpy : Int) > oend - MFLIMIT
      ∨ (ip + length : Int) > iend - (2 + 1 + LASTLITERALS) then
    if (ip + length : Int) ≠ iend ∨ (cpy : Int) > oend then outputError ip
    else do
      let dest ← c.dest.store c.op (← source.load ip length)
      return .done ⟨ip + length, cpy, dest⟩
  else do
    let dest ← lz4WildCopy (fun _ => source) c.dest c.op ip cpy
    let ip := ip + length
    let offset ← lz4Read16 source ip
    let ip := ip + 2
    -- `match = cpy - offset` in front of the output
    if cpy < offset then outputError ip
    else do
      let r ← matchLength source iend token ip
      let dest ← copyMatch oend r.1 dest cpy (cpy - offset) r.2
      return .more ⟨r.1, cpy + r.2, dest⟩

/-- The main loop, for so many rounds. -/
def decodeLoop (source : Region) (iend oend : Int) :
    Nat → Cursor → Checked Int Cursor
  | 0, _ => .error .spent
  | fuel + 1, c => do
      match ← decodeSequence source iend oend c with
      | .more c => decodeLoop source iend oend fuel c
      | .done c => return c

/-- `LZ4_decompress_safe`: the number of bytes decoded and the output, or
the negative value returned. Each round reads a token, so there are no
more rounds than input bytes. -/
def lz4DecompressSafe (source dest : Region)
    (compressedSize maxDecompressedSize : Int) : Checked Int (Nat × Region) :=
  if maxDecompressedSize = 0 then
    -- an empty output is only what a lone zero token decodes to
    if compressedSize = 1 then do
      if (← source.byte 0) = 0 then return (0, dest) else outputError 0
    else outputError 0
  else do
    let c ← decodeLoop source compressedSize maxDecompressedSize
      (compressedSize.toNat + 1) ⟨0, 0, dest⟩
    return (c.op, c.dest)

end Yrmcds
