/-
`counter.c`, the request side of the counter extension: a connection, the
six commands and the `writev` loop, which here steps an index through an
array of three entries instead of shifting the array.
-/
import Yrmcds.Model.Send

namespace Yrmcds

open Endian Gather

/-- `HEADER_SIZE` of `counter.c`. -/
def CNT_HEADER_SIZE : Nat := 12

/-- `UINT32_MAX`. -/
def UINT32_MAX : Nat := 2 ^ 32 - 1

/-- `UINT16_MAX`. -/
def UINT16_MAX : Nat := 2 ^ 16 - 1

/-- `yrmcds_cnt_command`. -/
inductive CntCommand where
  | noop | get | acquire | release | stats | dump
  deriving DecidableEq, Repr

/-- The opcode of a command. -/
def CntCommand.code : CntCommand → UInt8
  | .noop => 0x00 | .get => 0x01 | .acquire => 0x02 | .release => 0x03
  | .stats => 0x10 | .dump => 0x11

/-- `yrmcds_cnt`, what sending uses of it. -/
structure CntConn where
  sock : Int
  serial : UInt32

/-- What a command function hands to `send_command`. -/
structure CntPacket where
  cmd : CntCommand
  body1 : Ptr
  body2 : Ptr

/-- The argument checks of `send_command`. The subtraction is one of
`size_t`. -/
def CntPacket.rejected (p : CntPacket) : Prop :=
  p.body1.len > (UINT32_MAX + 2 ^ 64 - p.body2.len) % 2 ^ 64
  ∨ (p.body1.len ≠ 0 ∧ p.body1.isNull = true)
  ∨ (p.body2.len ≠ 0 ∧ p.body2.isNull = true)

instance (p : CntPacket) : Decidable p.rejected := by
  unfold CntPacket.rejected
  infer_instance

/-- The request header; the serial is copied in host order. -/
def CntPacket.header (p : CntPacket) (serial : UInt32) : List UInt8 :=
  [0x90, p.cmd.code, 0, 0]
    ++ toBE 4 (p.body1.len + p.body2.len)
    ++ toLE 4 serial.toNat

/-- The entries of `iov` that are filled in. -/
def CntPacket.iov (p : CntPacket) (serial : UInt32) : List (List UInt8) :=
  [p.header serial]
    ++ (if p.body1.len ≠ 0 then [p.body1.bytes] else [])
    ++ (if p.body2.len ≠ 0 then [p.body2.bytes] else [])

/-- The bytes of a request. -/
def CntPacket.frame (p : CntPacket) (serial : UInt32) : List UInt8 :=
  p.header serial ++ p.body1.bytes ++ p.body2.bytes

/-- `while( n2 > 0 ) { .. }`: the entries and the index `n2` bytes further
on. An index outside the array is `none`; `fuel` bounds the steps of the
index by the length of the array. -/
def cntAdvance : Nat → List (List UInt8) → Nat → Nat →
    Option (List (List UInt8) × Nat)
  | 0, _, _, _ => none
  | fuel + 1, iov, i, n2 =>
      if n2 > 0 then
        match iov[i]? with
        | none => none
        | some entry =>
            if n2 < entry.length then some (iov.set i (entry.drop n2), i)
            else cntAdvance fuel iov (i + 1) (n2 - entry.length)
      else some (iov, i)

/-- `for( i = 0; i < iovcnt; ) { n = writev(..); .. }`. -/
def cntSendLoop (iovcnt : Nat) :
    List Ack → List (List UInt8) → Nat → Option (Poured UInt8)
  | [], _, i => if i < iovcnt then some ⟨[], .waiting⟩ else some ⟨[], .done⟩
  | a :: acks, iov, i =>
      if i < iovcnt then
        match a with
        | .again => cntSendLoop iovcnt acks iov i
        | .refused => some ⟨[], .refused⟩
        | .took n =>
            let offered := ((iov.take iovcnt).drop i).flatten
            if 0 < n ∧ n ≤ offered.length then
              match cntAdvance (iov.length + 1) iov i n with
              | none => none
              | some (iov, i) =>
                  (cntSendLoop iovcnt acks iov i).map
                    (·.behind (offered.take n))
            else some ⟨[], .waiting⟩
      else some ⟨[], .done⟩

/-- `send_command`. The entries of `iov` that are not filled in are never
looked at; they are empty here. -/
def cntSendCommand (c : CntConn) (p : CntPacket) (acks : List Ack) :
    Sent CntConn :=
  if p.rejected then .early c .badArgument
  else
    let serial := c.serial + 1
    let iov := p.iov serial
    let out := cntSendLoop iov.length acks
      (iov ++ List.replicate (3 - iov.length) []) 0
    { result := loopResult out
      frame := some (p.frame serial)
      written := loopWritten out
      serial := some serial
      conn := { c with serial } }

-- ===================================================== command functions

/-- The checks on a counter's name. -/
def badName (name : Ptr) : Prop :=
  name.isNull = true ∨ name.len = 0 ∨ name.len > UINT16_MAX

instance (name : Ptr) : Decidable (badName name) := by
  unfold badName
  infer_instance

/-- `yrmcds_cnt_noop`. -/
def yrmcdsCntNoop : Except Error CntPacket :=
  .ok { cmd := .noop, body1 := .none, body2 := .none }

/-- `yrmcds_cnt_get`. -/
def yrmcdsCntGet (name : Ptr) : Except Error CntPacket :=
  if badName name then .error .badArgument
  else
    .ok { cmd := .get
          body1 := .buf (toBE 2 name.len)
          body2 := name }

/-- `yrmcds_cnt_acquire`. -/
def yrmcdsCntAcquire (name : Ptr) (resources initial : UInt32) :
    Except Error CntPacket :=
  if badName name ∨ resources = 0 ∨ resources > initial then
    .error .badArgument
  else
    .ok { cmd := .acquire
          body1 := .buf (toBE 4 resources.toNat ++ toBE 4 initial.toNat
            ++ toBE 2 name.len)
          body2 := name }

/-- `yrmcds_cnt_release`. -/
def yrmcdsCntRelease (name : Ptr) (resources : UInt32) :
    Except Error CntPacket :=
  if badName name then .error .badArgument
  else
    .ok { cmd := .release
          body1 := .buf (toBE 4 resources.toNat ++ toBE 2 name.len)
          body2 := name }

/-- `yrmcds_cnt_stats`. -/
def yrmcdsCntStats : Except Error CntPacket :=
  .ok { cmd := .stats, body1 := .none, body2 := .none }

/-- `yrmcds_cnt_dump`. -/
def yrmcdsCntDump : Except Error CntPacket :=
  .ok { cmd := .dump, body1 := .none, body2 := .none }

/-- A call of a command function with its arguments. -/
inductive CntRequest where
  | noop
  | get (name : Ptr)
  | acquire (name : Ptr) (resources initial : UInt32)
  | release (name : Ptr) (resources : UInt32)
  | stats
  | dump

/-- The `send_command` call a command function ends in, or the error it
returns before. -/
def CntRequest.packet : CntRequest → Except Error CntPacket
  | noop => yrmcdsCntNoop
  | get name => yrmcdsCntGet name
  | acquire name resources initial => yrmcdsCntAcquire name resources initial
  | release name resources => yrmcdsCntRelease name resources
  | stats => yrmcdsCntStats
  | dump => yrmcdsCntDump

/-- A call together with what the kernel answers. -/
structure CntSendCall where
  request : CntRequest
  acks : List Ack

/-- One call on a connection. -/
def CntSendCall.exec (c : CntConn) (call : CntSendCall) : Sent CntConn :=
  match call.request.packet with
  | .error e => .early c e
  | .ok p => cntSendCommand c p call.acks

end Yrmcds
