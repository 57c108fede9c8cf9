/-
The request formats, as a server's reader sees them: what it cuts a stream
of requests into, and what each request says. One is the binary request
format of memcached, the other that of the counter extension. These are
the references the writing code is compared with.
-/
import Yrmcds.Lib.Headed
import Yrmcds.Model.Counter
import Yrmcds.Spec.ResponseFormat

namespace Yrmcds

open Endian Framing

-- ======================================================= memcached requests

/-- The commands there are. -/
def Command.all : List Command :=
  [.get, .set, .add, .replace, .delete, .increment, .decrement, .quit,
    .flush, .getQ, .noop, .version, .getK, .getKQ, .append, .prepend,
    .stat, .setQ, .addQ, .replaceQ, .deleteQ, .incrementQ, .decrementQ,
    .quitQ, .flushQ, .appendQ, .prependQ, .touch, .gat, .gatQ, .gatK,
    .gatKQ, .lock, .lockQ, .unlock, .unlockQ, .unlockAll, .unlockAllQ,
    .lag, .lagQ, .lagK, .lagKQ, .rau, .rauQ, .keys]

/-- The command of an opcode. -/
def Command.ofCode (code : UInt8) : Option Command :=
  Command.all.find? fun cmd => cmd.code == code

/-- What a request says. -/
structure RequestMessage where
  command : Command
  serial : UInt32
  cas : UInt64
  extras : List UInt8
  key : List UInt8
  data : List UInt8
  deriving DecidableEq

/-- The binary request format: a header of 24 bytes with the lengths of the
key, the extras and the whole body, then extras, key and data. -/
def requestHeaded : Headed UInt8 RequestMessage where
  head := 24
  head_pos := Nat.zero_lt_succ _
  bodyLen h :=
    let keyLen := ofBE (field h 2 2)
    let extrasLen := ofBE (field h 4 1)
    let totalLen := ofBE (field h 8 4)
    if (field h 0 1).headD 0 ≠ 0x80 then none
    else if totalLen < extrasLen + keyLen then none
    else some totalLen
  decode f :=
    let keyLen := ofBE (field f 2 2)
    let extrasLen := ofBE (field f 4 1)
    (Command.ofCode ((field f 1 1).headD 0)).map fun command =>
      { command
        serial := UInt32.ofNat (ofLE (field f 12 4))
        cas := UInt64.ofNat (ofBE (field f 16 8))
        extras := field f 24 extrasLen
        key := field f (24 + extrasLen) keyLen
        data := f.drop (24 + extrasLen + keyLen) }

/-- Streams of requests. -/
def requestFormat : Format UInt8 RequestMessage := requestHeaded.format

/-- What a request is to say. -/
def Packet.message (p : Packet) (serial : UInt32) : RequestMessage where
  command := p.cmd
  serial
  cas := p.cas
  extras := p.extras.bytes
  key := p.key.bytes
  data := p.data.bytes

-- ========================================================= counter requests

/-- An operation of the counter extension. -/
inductive CntOp where
  | noop
  | get (name : List UInt8)
  | acquire (name : List UInt8) (resources initial : UInt32)
  | release (name : List UInt8) (resources : UInt32)
  | stats
  | dump
  deriving DecidableEq

/-- What a counter request says. -/
structure CntMessage where
  serial : UInt32
  op : CntOp
  deriving DecidableEq

/-- The name behind a fixed part of `fixed` bytes, which ends with its
length. -/
def refName (fixed : Nat) (body : List UInt8) : Option (List UInt8) :=
  if body.length < fixed then none
  else if body.length ≠ fixed + ofBE (field body (fixed - 2) 2) then none
  else some (body.drop fixed)

/-- An operation without arguments. -/
def refBare (op : CntOp) (body : List UInt8) : Option CntOp :=
  if body.isEmpty then some op else none

/-- The operation of an opcode and a body. -/
def refOp (opcode : UInt8) (body : List UInt8) : Option CntOp :=
  if opcode = CntCommand.noop.code then refBare .noop body
  else if opcode = CntCommand.get.code then (refName 2 body).map .get
  else if opcode = CntCommand.acquire.code then
    (refName 10 body).map fun name =>
      .acquire name (UInt32.ofNat (ofBE (field body 0 4)))
        (UInt32.ofNat (ofBE (field body 4 4)))
  else if opcode = CntCommand.release.code then
    (refName 6 body).map fun name =>
      .release name (UInt32.ofNat (ofBE (field body 0 4)))
  else if opcode = CntCommand.stats.code then refBare .stats body
  else if opcode = CntCommand.dump.code then refBare .dump body
  else none

theorem cntRequestHead_pos : 0 < 12 := by decide

/-- The request format of the counter extension. -/
def cntRequestHeaded : Headed UInt8 CntMessage where
  head := 12
  head_pos := cntRequestHead_pos
  bodyLen h :=
    if (field h 0 1).headD 0 ≠ 0x90 then none else some (ofBE (field h 4 4))
  decode f :=
    (refOp ((field f 1 1).headD 0) (f.drop 12)).map fun op =>
      { serial := UInt32.ofNat (ofLE (field f 8 4)), op }

/-- Streams of counter requests. -/
def cntRequestFormat : Format UInt8 CntMessage := cntRequestHeaded.format

/-- The operation a call asks for. -/
def CntRequest.op : CntRequest → CntOp
  | noop => .noop
  | get name => .get name.bytes
  | acquire name resources initial => .acquire name.bytes resources initial
  | release name resources => .release name.bytes resources
  | stats => .stats
  | dump => .dump

-- ============================================================== numbering

/-- What calls are to say, with the serials that follow on `serial`. -/
def numbered {κ ρ : Type} (message : κ → UInt32 → ρ) :
    UInt32 → List κ → List ρ
  | _, [] => []
  | serial, call :: calls =>
      message call (serial + 1) :: numbered message (serial + 1) calls

end Yrmcds
