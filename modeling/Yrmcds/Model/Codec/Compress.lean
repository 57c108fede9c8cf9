/-
The LZ4 compressor (`LZ4_compress` and `LZ4_compress_generic` of
`lz4/lib/lz4.c`) as libyrmcds calls it: no limit on the output, no
dictionary, a hash table on the stack that starts out zero.

Positions are positions in the source, so `base` and `lowLimit` are 0;
`anchor`, `ip`, `match`, `op` and `token` are the source's pointers.
The labels the function jumps between are the constructors of `Label`:
`search` is the head of the main loop, where `forwardH` is the hash of
the bytes at `ip`, and `nextMatch` is `_next_match`; a step without a
label goes to `_last_literals`. `compressLoop` bounds the number of
jumps, `findMatch` the rounds of the search.

A `size_t` is 8 bytes, so the table holds `U32` or, for a short input,
`U16` positions, and `LZ4_count` compares 8 bytes at a time.
-/
import Yrmcds.Model.Codec.Memory
import Yrmcds.Model.Lz4

namespace Yrmcds

open Endian

variable {ε : Type}

-- ============================================================ LZ4_count

/-- `__builtin_ctzll` on the low `w` bits. -/
def ctz : Nat → Nat → Nat
  | 0, _ => 0
  | w + 1, n => if n % 2 = 1 then 0 else ctz w (n / 2) + 1

/-- `LZ4_NbCommonBytes`. -/
def lz4NbCommonBytes (val : Nat) : Nat := ctz 64 val / 8

/-- The tail of `LZ4_count`, below 8 bytes: one step of `w` bytes, if as
many are left and agree. -/
def countStep (source : Region) (w pInLimit : Nat) (p : Nat × Nat) :
    Checked ε (Nat × Nat) :=
  if p.1 + (w - 1) < pInLimit then do
    let a ← source.load p.2 w
    let b ← source.load p.1 w
    if a = b then return (p.1 + w, p.2 + w) else return p
  else return p

/-- `LZ4_count`, as the position `pIn` ends at. -/
def lz4Count (source : Region) (pIn pMatch pInLimit : Nat) : Checked ε Nat :=
  if pIn + 7 < pInLimit then do
    let a ← lz4Read64 source pMatch
    let b ← lz4Read64 source pIn
    let diff := a ^^^ b
    if diff = 0 then lz4Count source (pIn + 8) (pMatch + 8) pInLimit
    else return pIn + lz4NbCommonBytes diff
  else do
    let p ← countStep source 4 pInLimit (pIn, pMatch)
    let p ← countStep source 2 pInLimit p
    let p ← countStep source 1 pInLimit p
    return p.1
termination_by pInLimit - pIn

-- ======================================================= the hash table

/-- `tableType_t`, with pointers of 8 bytes. -/
inductive TableType where
  | byU32
  | byU16
  deriving DecidableEq, Repr

/-- `LZ4_HASHLOG`, one more for `byU16`. -/
def TableType.hashLog : TableType → Nat
  | .byU32 => 12
  | .byU16 => 13

/-- The width of an entry. -/
def TableType.width : TableType → Nat
  | .byU32 => 32
  | .byU16 => 16

/-- The hash table, as positions in the source. -/
abbrev Table := Nat → Nat

/-- `LZ4_hashSequence`. -/
def lz4HashSequence (sequence : UInt32) (tableType : TableType) : UInt32 :=
  (sequence * 2654435761) >>> UInt32.ofNat (MINMATCH * 8 - tableType.hashLog)

/-- `LZ4_hashPosition`. -/
def lz4HashPosition (source : Region) (p : Nat) (tableType : TableType) :
    Checked ε UInt32 := do
  return lz4HashSequence (← lz4Read32 source p) tableType

/-- `LZ4_putPositionOnHash`. -/
def lz4PutPositionOnHash (p : Nat) (h : UInt32) (table : Table)
    (tableType : TableType) : Checked ε Table :=
  if h.toNat < 2 ^ tableType.hashLog then
    .ok fun i => if i = h.toNat then p % 2 ^ tableType.width else table i
  else .error .fault

/-- `LZ4_getPositionOnHash`. -/
def lz4GetPositionOnHash (h : UInt32) (table : Table)
    (tableType : TableType) : Checked ε Nat :=
  if h.toNat < 2 ^ tableType.hashLog then .ok (table h.toNat)
  else .error .fault

/-- `LZ4_putPosition`. -/
def lz4PutPosition (source : Region) (p : Nat) (table : Table)
    (tableType : TableType) : Checked ε Table := do
  lz4PutPositionOnHash p (← lz4HashPosition source p tableType) table tableType

/-- `LZ4_getPosition`. -/
def lz4GetPosition (source : Region) (p : Nat) (table : Table)
    (tableType : TableType) : Checked ε Nat := do
  lz4GetPositionOnHash (← lz4HashPosition source p tableType) table tableType

-- ========================================================= find a match

/-- What the search found. -/
structure Found where
  ip : Nat
  match_ : Nat
  table : Table

/-- The `do` loop that finds a match, or none where it runs into
`mflimit`. -/
def findMatch (source : Region) (tableType : TableType) (mflimit : Nat) :
    Nat → Nat → Nat → Nat → UInt32 → Table → Checked ε (Option Found)
  | 0, _, _, _, _, _ => .error .spent
  | fuel + 1, forwardIp, step, searchMatchNb, forwardH, table => do
      let h := forwardH
      let ip := forwardIp
      let forwardIp := forwardIp + step
      let step := searchMatchNb / 2 ^ 6
      if forwardIp > mflimit then return none
      else
        let match_ ← lz4GetPositionOnHash h table tableType
        let forwardH ← lz4HashPosition source forwardIp tableType
        let table ← lz4PutPositionOnHash ip h table tableType
        if tableType ≠ .byU16 ∧ match_ + MAX_DISTANCE < ip then
          findMatch source tableType mflimit fuel forwardIp step
            (searchMatchNb + 1) forwardH table
        else
          let a ← lz4Read32 source match_
          let b ← lz4Read32 source ip
          if a ≠ b then
            findMatch source tableType mflimit fuel forwardIp step
              (searchMatchNb + 1) forwardH table
          else return some ⟨ip, match_, table⟩

/-- Catch up: a match is extended to the left. -/
def catchUp (source : Region) (anchor ip match_ : Nat) :
    Checked ε (Nat × Nat) :=
  if ip > anchor ∧ match_ > 0 then do
    let a ← source.byte (ip - 1)
    let b ← source.byte (match_ - 1)
    if a = b then catchUp source anchor (ip - 1) (match_ - 1)
    else return (ip, match_)
  else return (ip, match_)
termination_by ip

-- ========================================================= the encoding

/-- `for(; len >= 255 ; len-=255) *op++ = 255; *op++ = (BYTE)len;` -/
def writeRun (dest : Region) (op len : Nat) : Checked ε (Region × Nat) :=
  if len ≥ 255 then do
    let dest ← dest.store op [255]
    writeRun dest (op + 1) (len - 255)
  else do
    let dest ← dest.store op [UInt8.ofNat len]
    return (dest, op + 1)
termination_by len

/-- The same for a match length, two bytes at a time. -/
def writeMatchRun (dest : Region) (op len : Nat) :
    Checked ε (Region × Nat) :=
  if len ≥ 510 then do
    let dest ← dest.store op [255]
    let dest ← dest.store (op + 1) [255]
    writeMatchRun dest (op + 2) (len - 510)
  else if len ≥ 255 then do
    let dest ← dest.store op [255]
    let dest ← dest.store (op + 1) [UInt8.ofNat (len - 255)]
    return (dest, op + 2)
  else do
    let dest ← dest.store op [UInt8.ofNat len]
    return (dest, op + 1)
termination_by len

/-- The token of a run of literals, with its length bytes after it. -/
def writeToken (dest : Region) (op litLength : Nat) :
    Checked ε (Region × Nat) :=
  if litLength ≥ RUN_MASK then do
    let dest ← dest.store op [UInt8.ofNat (RUN_MASK * 16)]
    writeRun dest (op + 1) (litLength - RUN_MASK)
  else do
    let dest ← dest.store op [UInt8.ofNat (litLength * 16)]
    return (dest, op + 1)

/-- Where the compressor is. -/
structure Frame where
  ip : Nat
  anchor : Nat
  op : Nat
  table : Table
  dest : Region

/-- The labels of `LZ4_compress_generic`, with what is live there. -/
inductive Label where
  | search (forwardH : UInt32)
  | nextMatch (token match_ : Nat)

/-- From the head of the main loop: search, catch up, and encode the
literals. -/
def searchMatch (source : Region) (tableType : TableType) (inputSize : Nat)
    (forwardH : UInt32) (f : Frame) : Checked ε (Frame × Option Label) := do
  let found ← findMatch source tableType (inputSize - MFLIMIT) (inputSize + 1)
    f.ip 1 (2 ^ 6) forwardH f.table
  match found with
  | none => return (f, none)
  | some s => do
      let p ← catchUp source f.anchor s.ip s.match_
      let ip := p.1
      let litLength := ip - f.anchor
      let token := f.op
      let w ← writeToken f.dest token litLength
      let op := w.2
      let dest ← lz4WildCopy (fun _ => source) w.1 op f.anchor (op + litLength)
      return (⟨ip, f.anchor, op + litLength, s.table, dest⟩,
        some (.nextMatch token p.2))

/-- The length of a match into the token at `token`, and behind it. -/
def writeMatchLength (dest : Region) (token op matchLength : Nat) :
    Checked ε (Region × Nat) := do
  let t ← dest.byte token
  if matchLength ≥ ML_MASK then do
    let dest ← dest.store token [t + UInt8.ofNat ML_MASK]
    writeMatchRun dest op (matchLength - ML_MASK)
  else do
    let dest ← dest.store token [t + UInt8.ofNat matchLength]
    return (dest, op)

/-- From `_next_match`: encode the offset and the length of the match,
then look for a further match at the position behind it. -/
def nextMatch (source : Region) (tableType : TableType) (inputSize : Nat)
    (token match_ : Nat) (f : Frame) : Checked ε (Frame × Option Label) := do
  let dest ← lz4WriteLE16 f.dest f.op (f.ip - match_)
  let ip ← lz4Count source (f.ip + MINMATCH) (match_ + MINMATCH)
    (inputSize - LASTLITERALS)
  let w ← writeMatchLength dest token (f.op + 2) (ip - (f.ip + MINMATCH))
  let dest := w.1
  let op := w.2
  let anchor := ip
  if ip > inputSize - MFLIMIT then
    return (⟨ip, anchor, op, f.table, dest⟩, none)
  else do
    let table ← lz4PutPosition source (ip - 2) f.table tableType
    let match_ ← lz4GetPosition source ip table tableType
    let table ← lz4PutPosition source ip table tableType
    let again ← if match_ + MAX_DISTANCE ≥ ip then do
        let a ← lz4Read32 source match_
        let b ← lz4Read32 source ip
        pure (decide (a = b))
      else pure false
    if again then do
      let dest ← dest.store op [0]
      return (⟨ip, anchor, op + 1, table, dest⟩, some (.nextMatch op match_))
    else do
      let forwardH ← lz4HashPosition source (ip + 1) tableType
      return (⟨ip + 1, anchor, op, table, dest⟩, some (.search forwardH))

/-- One step from label to label. -/
def compressStep (source : Region) (tableType : TableType) (inputSize : Nat) :
    Label → Frame → Checked ε (Frame × Option Label)
  | .search forwardH => searchMatch source tableType inputSize forwardH
  | .nextMatch token match_ => nextMatch source tableType inputSize token match_

/-- So many steps, until `_last_literals`. -/
def compressLoop (source : Region) (tableType : TableType) (inputSize : Nat) :
    Nat → Label → Frame → Checked ε Frame
  | 0, _, _ => .error .spent
  | fuel + 1, label, f => do
      let r ← compressStep source tableType inputSize label f
      match r.2 with
      | none => return r.1
      | some label => compressLoop source tableType inputSize fuel label r.1

/-- `_last_literals`: the bytes written in all, and the output. -/
def lastLiterals (source : Region) (inputSize anchor op : Nat)
    (dest : Region) : Checked ε (Nat × Region) := do
  let lastRun := inputSize - anchor
  let w ← writeToken dest op lastRun
  let dest ← w.1.store w.2 (← source.load anchor lastRun)
  return (w.2 + lastRun, dest)

-- ========================================================= the function

/-- `LZ4_minLength`. -/
def lz4MinLength : Nat := MFLIMIT + 1

/-- `LZ4_64Klimit`. -/
def lz4_64Klimit : Nat := 2 ^ 16 + (MFLIMIT - 1)

/-- `LZ4_compress_generic`. Each step to `_next_match` and back consumes
input, so twice its size bounds the jumps. -/
def lz4CompressGeneric (source dest : Region) (inputSize : Int)
    (tableType : TableType) : Checked ε (Nat × Region) := do
  let size := inputSize.toNat
  if toUnsigned inputSize > LZ4_MAX_INPUT_SIZE then return (0, dest)
  else if tableType = .byU16 ∧ size ≥ lz4_64Klimit then return (0, dest)
  else if size < lz4MinLength then lastLiterals source size 0 0 dest
  else do
    let table ← lz4PutPosition source 0 (fun _ => 0) tableType
    let forwardH ← lz4HashPosition source 1 tableType
    let f ← compressLoop source tableType size (2 * size + 1) (.search forwardH)
      ⟨1, 0, 0, table, dest⟩
    lastLiterals source size f.anchor f.op f.dest

/-- `LZ4_compress`. -/
def lz4Compress (source dest : Region) (inputSize : Int) :
    Checked ε (Nat × Region) :=
  if inputSize < lz4_64Klimit then
    lz4CompressGeneric source dest inputSize .byU16
  else lz4CompressGeneric source dest inputSize .byU32

end Yrmcds
