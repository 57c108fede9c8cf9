/-
`send.c`: the request side of libyrmcds.

Every command function either returns an error of its own or ends in one
call of `send_command`; it is modelled as that call (`Packet`) or that
error. `sendCommand` is the rest: the argument checks, the serial, and
the `writev` loop over an array of four entries (`sendLoop`), run against
a script of answers.

A `size_t` is a `Nat` here too. Where the sources narrow a length it is
`toInt` or the width of `toBE` that does it.
-/
import Yrmcds.Lib.Gather
import Yrmcds.Model.Lz4

namespace Yrmcds

open Endian Gather

/-- `MAX_DATA_SIZE` of `send.c`. -/
def MAX_DATA_SIZE : Nat := 2 ^ 30

/-- A `const char*` argument with its length. -/
inductive Ptr where
  | null (len : Nat)
  | buf (bs : List UInt8)
  deriving DecidableEq

namespace Ptr

def isNull : Ptr → Bool
  | null _ => true
  | buf _ => false

def len : Ptr → Nat
  | null n => n
  | buf bs => bs.length

def bytes : Ptr → List UInt8
  | null _ => []
  | buf bs => bs

end Ptr

/-- No argument: `0, NULL`. -/
abbrev Ptr.none : Ptr := .null 0

/-- What a command function hands to `send_command`. -/
structure Packet where
  cmd : Command
  cas : UInt64
  key : Ptr
  extras : Ptr
  data : Ptr

/-- The argument checks of `send_command`. -/
def Packet.rejected (p : Packet) : Prop :=
  p.cmd.code ≥ Command.bottom.code
  ∨ p.key.len > 65535 ∨ p.extras.len > 127 ∨ p.data.len > MAX_DATA_SIZE
  ∨ (p.key.len ≠ 0 ∧ p.key.isNull = true)
  ∨ (p.extras.len ≠ 0 ∧ p.extras.isNull = true)
  ∨ (p.data.len ≠ 0 ∧ p.data.isNull = true)

instance (p : Packet) : Decidable p.rejected := by
  unfold Packet.rejected
  infer_instance

/-- The request header; the serial is copied in host order. -/
def Packet.header (p : Packet) (serial : UInt32) : List UInt8 :=
  [0x80, p.cmd.code]
    ++ toBE 2 p.key.len
    ++ [UInt8.ofNat p.extras.len, 0, 0, 0]
    ++ toBE 4 (p.key.len + p.extras.len + p.data.len)
    ++ toLE 4 serial.toNat
    ++ toBE 8 p.cas.toNat

/-- The entries of `iov` that are filled in. -/
def Packet.iov (p : Packet) (serial : UInt32) : List (List UInt8) :=
  [p.header serial]
    ++ (if p.extras.len > 0 then [p.extras.bytes] else [])
    ++ (if p.key.len > 0 then [p.key.bytes] else [])
    ++ (if p.data.len > 0 then [p.data.bytes] else [])

/-- The bytes of a request. -/
def Packet.frame (p : Packet) (serial : UInt32) : List UInt8 :=
  p.header serial ++ p.extras.bytes ++ p.key.bytes ++ p.data.bytes

-- ==================================================== the writev loop

/-- `for( ; i < i + n; ++i ) iov[i] = iov[i+1];`. An index outside the
array is `none`. -/
def shiftIov : Nat → Nat → List (List UInt8) → Option (List (List UInt8))
  | 0, _, iov => some iov
  | n + 1, i, iov =>
      match iov[i + 1]? with
      | none => none
      | some next => shiftIov n (i + 1) (iov.set i next)

/-- `while( n2 > 0 ) { .. }`: the entries `n2` bytes further on, and how
many are left. -/
def advance : List (List UInt8) → Nat → Nat →
    Option (List (List UInt8) × Nat)
  | iov, 0, _ => some (iov, 0)
  | iov, iovcnt + 1, n2 =>
      if n2 > 0 then
        match iov[0]? with
        | none => none
        | some entry =>
            if n2 < entry.length then
              some (iov.set 0 (entry.drop n2), iovcnt + 1)
            else if iovcnt = 0 then some (iov, 0)
            else
              match shiftIov iovcnt 0 iov with
              | none => none
              | some iov => advance iov iovcnt (n2 - entry.length)
      else some (iov, iovcnt + 1)

/-- `while( iovcnt > 0 ) { n = writev(..); .. }`. -/
def sendLoop : List Ack → List (List UInt8) → Nat → Option (Poured UInt8)
  | _, _, 0 => some ⟨[], .done⟩
  | [], _, _ + 1 => some ⟨[], .waiting⟩
  | .again :: acks, iov, iovcnt + 1 => sendLoop acks iov (iovcnt + 1)
  | .refused :: _, _, _ + 1 => some ⟨[], .refused⟩
  | .took n :: acks, iov, iovcnt + 1 =>
      let offered := (iov.take (iovcnt + 1)).flatten
      if 0 < n ∧ n ≤ offered.length then
        match advance iov (iovcnt + 1) n with
        | none => none
        | some (iov, iovcnt) =>
            (sendLoop acks iov iovcnt).map (·.behind (offered.take n))
      else some ⟨[], .waiting⟩

-- ======================================================== send_command

/-- What a command function has done. `result` is `none` while it is
still waiting in `writev` (a loop that left its array would have none
either). `frame` is the request an accepted call is to write. -/
structure Sent (σ : Type) where
  result : Option Error
  frame : Option (List UInt8)
  written : List UInt8
  serial : Option UInt32
  conn : σ

/-- An early return. -/
def Sent.early {σ : Type} (c : σ) (e : Error) : Sent σ :=
  ⟨some e, none, [], none, c⟩

/-- `ret` of a `writev` loop. -/
def loopResult : Option (Poured UInt8) → Option Error
  | none => none
  | some ⟨_, .done⟩ => some .ok
  | some ⟨_, .refused⟩ => some .systemError
  | some ⟨_, .waiting⟩ => none

/-- What a `writev` loop wrote. -/
def loopWritten : Option (Poured UInt8) → List UInt8
  | none => []
  | some p => p.written

/-- `send_command`. The entries of `iov` that are not filled in are never
looked at; they are empty here. -/
def sendCommand (c : Conn) (p : Packet) (acks : List Ack) : Sent Conn :=
  if p.rejected then .early c .badArgument
  else
    let serial := c.serial + 1
    let iov := p.iov serial
    let out := sendLoop acks (iov ++ List.replicate (4 - iov.length) [])
      iov.length
    { result := loopResult out
      frame := some (p.frame serial)
      written := loopWritten out
      serial := some serial
      conn := { c with serial } }

-- ===================================================== command functions

/-- A command whose arguments are a key and extras. -/
def keyCommand (cmd : Command) (key extras : Ptr) : Except Error Packet :=
  if key.isNull ∨ key.len = 0 then .error .badArgument
  else .ok { cmd, cas := 0, key, extras, data := .none }

/-- A command without a key check. -/
def bareCommand (cmd : Command) (key extras : Ptr) : Except Error Packet :=
  .ok { cmd, cas := 0, key, extras, data := .none }

/-- `quiet ? q : cmd`. -/
def pick (quiet : Bool) (q cmd : Command) : Command := if quiet then q else cmd

/-- `send_data` up to the call of `send_command`; `malloc` says whether
the allocation for the compressed data succeeds. -/
def sendData (lz : Lz4) (c : Conn) (malloc : Bool) (cmd : Command)
    (key data : Ptr) (flags expire : UInt32) (cas : UInt64) :
    Except Error Packet :=
  if key.isNull ∨ key.len = 0 ∨ data.isNull ∨ data.len = 0 then
    .error .badArgument
  else if c.compressSize > 0 ∧ data.len > c.compressSize then
    if flags &&& FLAG_COMPRESS ≠ 0 then .error .badArgument
    else if malloc = false then .error .outOfMemory
    else
      let block := lz.compressBytes data.bytes (toInt data.len)
      if block.length = 0 then .error .compressFailed
      else
        let flags := flags ||| FLAG_COMPRESS
        .ok { cmd, cas, key
              extras := .buf (toBE 4 flags.toNat ++ toBE 4 expire.toNat)
              data := .buf (toBE 4 data.len ++ block) }
  else
    .ok { cmd, cas, key
          extras := .buf (toBE 4 flags.toNat ++ toBE 4 expire.toNat)
          data }

/-- `yrmcds_noop`. -/
def yrmcdsNoop : Except Error Packet := bareCommand .noop .none .none

/-- `yrmcds_get`. -/
def yrmcdsGet (key : Ptr) (quiet : Bool) : Except Error Packet :=
  keyCommand (pick quiet .getQ .get) key .none

/-- `yrmcds_getk`. -/
def yrmcdsGetk (key : Ptr) (quiet : Bool) : Except Error Packet :=
  keyCommand (pick quiet .getKQ .getK) key .none

/-- `yrmcds_get_touch`. -/
def yrmcdsGetTouch (key : Ptr) (expire : UInt32) (quiet : Bool) :
    Except Error Packet :=
  keyCommand (pick quiet .gatQ .gat) key (.buf (toBE 4 expire.toNat))

/-- `yrmcds_getk_touch`. -/
def yrmcdsGetkTouch (key : Ptr) (expire : UInt32) (quiet : Bool) :
    Except Error Packet :=
  keyCommand (pick quiet .gatKQ .gatK) key (.buf (toBE 4 expire.toNat))

/-- `yrmcds_lock_get`. -/
def yrmcdsLockGet (key : Ptr) (quiet : Bool) : Except Error Packet :=
  keyCommand (pick quiet .lagQ .lag) key .none

/-- `yrmcds_lock_getk`. -/
def yrmcdsLockGetk (key : Ptr) (quiet : Bool) : Except Error Packet :=
  keyCommand (pick quiet .lagKQ .lagK) key .none

/-- `yrmcds_touch` ignores `quiet`. -/
def yrmcdsTouch (key : Ptr) (expire : UInt32) (_quiet : Bool) :
    Except Error Packet :=
  keyCommand .touch key (.buf (toBE 4 expire.toNat))

/-- `yrmcds_set`. -/
def yrmcdsSet (lz : Lz4) (c : Conn) (malloc : Bool) (key data : Ptr)
    (flags expire : UInt32) (cas : UInt64) (quiet : Bool) :
    Except Error Packet :=
  sendData lz c malloc (pick quiet .setQ .set) key data flags expire cas

/-- `yrmcds_replace`. -/
def yrmcdsReplace (lz : Lz4) (c : Conn) (malloc : Bool) (key data : Ptr)
    (flags expire : UInt32) (cas : UInt64) (quiet : Bool) :
    Except Error Packet :=
  sendData lz c malloc (pick quiet .replaceQ .replace) key data flags expire
    cas

/-- `yrmcds_add`. -/
def yrmcdsAdd (lz : Lz4) (c : Conn) (malloc : Bool) (key data : Ptr)
    (flags expire : UInt32) (cas : UInt64) (quiet : Bool) :
    Except Error Packet :=
  sendData lz c malloc (pick quiet .addQ .add) key data flags expire cas

/-- `yrmcds_replace_unlock`. -/
def yrmcdsReplaceUnlock (lz : Lz4) (c : Conn) (malloc : Bool)
    (key data : Ptr) (flags expire : UInt32) (quiet : Bool) :
    Except Error Packet :=
  sendData lz c malloc (pick quiet .rauQ .rau) key data flags expire 0

/-- The extras of `Increment` and `Decrement`. -/
def counterExtras (value initial : UInt64) (expire : UInt32) : Ptr :=
  .buf (toBE 8 value.toNat ++ toBE 8 initial.toNat ++ toBE 4 expire.toNat)

/-- `yrmcds_incr`. -/
def yrmcdsIncr (key : Ptr) (value : UInt64) (quiet : Bool) :
    Except Error Packet :=
  keyCommand (pick quiet .incrementQ .increment) key
    (counterExtras value 0 (~~~0))

/-- `yrmcds_incr2`. -/
def yrmcdsIncr2 (key : Ptr) (value initial : UInt64) (expire : UInt32)
    (quiet : Bool) : Except Error Packet :=
  keyCommand (pick quiet .incrementQ .increment) key
    (counterExtras value initial expire)

/-- `yrmcds_decr`. -/
def yrmcdsDecr (key : Ptr) (value : UInt64) (quiet : Bool) :
    Except Error Packet :=
  keyCommand (pick quiet .decrementQ .decrement) key
    (counterExtras value 0 (~~~0))

/-- `yrmcds_decr2`. -/
def yrmcdsDecr2 (key : Ptr) (value initial : UInt64) (expire : UInt32)
    (quiet : Bool) : Except Error Packet :=
  keyCommand (pick quiet .decrementQ .decrement) key
    (counterExtras value initial expire)

/-- `Append` and `Prepend`: data that is never compressed. -/
def concatCommand (cmd : Command) (key data : Ptr) : Except Error Packet :=
  if key.isNull ∨ key.len = 0 ∨ data.isNull ∨ data.len = 0 then
    .error .badArgument
  else .ok { cmd, cas := 0, key, extras := .none, data }

/-- `yrmcds_append`. -/
def yrmcdsAppend (key data : Ptr) (quiet : Bool) : Except Error Packet :=
  concatCommand (pick quiet .appendQ .append) key data

/-- `yrmcds_prepend`. -/
def yrmcdsPrepend (key data : Ptr) (quiet : Bool) : Except Error Packet :=
  concatCommand (pick quiet .prependQ .prepend) key data

/-- `yrmcds_remove`. -/
def yrmcdsRemove (key : Ptr) (quiet : Bool) : Except Error Packet :=
  keyCommand (pick quiet .deleteQ .delete) key .none

/-- `yrmcds_lock`. -/
def yrmcdsLock (key : Ptr) (quiet : Bool) : Except Error Packet :=
  keyCommand (pick quiet .lockQ .lock) key .none

/-- `yrmcds_unlock`. -/
def yrmcdsUnlock (key : Ptr) (quiet : Bool) : Except Error Packet :=
  keyCommand (pick quiet .unlockQ .unlock) key .none

/-- `yrmcds_unlockall`. -/
def yrmcdsUnlockall (quiet : Bool) : Except Error Packet :=
  bareCommand (pick quiet .unlockAllQ .unlockAll) .none .none

/-- `yrmcds_flush`. -/
def yrmcdsFlush (delay : UInt32) (quiet : Bool) : Except Error Packet :=
  if delay = 0 then bareCommand (pick quiet .flushQ .flush) .none .none
  else
    bareCommand (pick quiet .flushQ .flush) .none (.buf (toBE 4 delay.toNat))

/-- The bytes of an ASCII literal. -/
def ascii (s : String) : List UInt8 :=
  s.toList.map fun ch => UInt8.ofNat ch.toNat

/-- `yrmcds_stat_general`. -/
def yrmcdsStatGeneral : Except Error Packet := bareCommand .stat .none .none

/-- `yrmcds_stat_settings`. -/
def yrmcdsStatSettings : Except Error Packet :=
  bareCommand .stat (.buf (ascii "settings")) .none

/-- `yrmcds_stat_items`. -/
def yrmcdsStatItems : Except Error Packet :=
  bareCommand .stat (.buf (ascii "items")) .none

/-- `yrmcds_stat_sizes`. -/
def yrmcdsStatSizes : Except Error Packet :=
  bareCommand .stat (.buf (ascii "sizes")) .none

/-- `yrmcds_keys`. -/
def yrmcdsKeys (keyPrefix : Ptr) : Except Error Packet :=
  if (keyPrefix.isNull ∧ keyPrefix.len ≠ 0)
      ∨ (¬ keyPrefix.isNull ∧ keyPrefix.len = 0) then
    .error .badArgument
  else bareCommand .keys keyPrefix .none

/-- `yrmcds_version`. -/
def yrmcdsVersion : Except Error Packet := bareCommand .version .none .none

/-- `yrmcds_quit`. -/
def yrmcdsQuit (quiet : Bool) : Except Error Packet :=
  bareCommand (pick quiet .quitQ .quit) .none .none

-- ================================================================= calls

/-- A call of a command function with its arguments. -/
inductive Request where
  | noop
  | get (key : Ptr) (quiet : Bool)
  | getk (key : Ptr) (quiet : Bool)
  | getTouch (key : Ptr) (expire : UInt32) (quiet : Bool)
  | getkTouch (key : Ptr) (expire : UInt32) (quiet : Bool)
  | lockGet (key : Ptr) (quiet : Bool)
  | lockGetk (key : Ptr) (quiet : Bool)
  | touch (key : Ptr) (expire : UInt32) (quiet : Bool)
  | set (key data : Ptr) (flags expire : UInt32) (cas : UInt64)
      (quiet : Bool)
  | replace (key data : Ptr) (flags expire : UInt32) (cas : UInt64)
      (quiet : Bool)
  | add (key data : Ptr) (flags expire : UInt32) (cas : UInt64)
      (quiet : Bool)
  | replaceUnlock (key data : Ptr) (flags expire : UInt32) (quiet : Bool)
  | incr (key : Ptr) (value : UInt64) (quiet : Bool)
  | incr2 (key : Ptr) (value initial : UInt64) (expire : UInt32)
      (quiet : Bool)
  | decr (key : Ptr) (value : UInt64) (quiet : Bool)
  | decr2 (key : Ptr) (value initial : UInt64) (expire : UInt32)
      (quiet : Bool)
  | append (key data : Ptr) (quiet : Bool)
  | prepend (key data : Ptr) (quiet : Bool)
  | remove (key : Ptr) (quiet : Bool)
  | lock (key : Ptr) (quiet : Bool)
  | unlock (key : Ptr) (quiet : Bool)
  | unlockall (quiet : Bool)
  | flush (delay : UInt32) (quiet : Bool)
  | statGeneral
  | statSettings
  | statItems
  | statSizes
  | keys (keyPrefix : Ptr)
  | version
  | quit (quiet : Bool)

/-- The `send_command` call a command function ends in, or the error it
returns before. -/
def Request.packet (lz : Lz4) (c : Conn) (malloc : Bool) :
    Request → Except Error Packet
  | noop => yrmcdsNoop
  | get key quiet => yrmcdsGet key quiet
  | getk key quiet => yrmcdsGetk key quiet
  | getTouch key expire quiet => yrmcdsGetTouch key expire quiet
  | getkTouch key expire quiet => yrmcdsGetkTouch key expire quiet
  | lockGet key quiet => yrmcdsLockGet key quiet
  | lockGetk key quiet => yrmcdsLockGetk key quiet
  | touch key expire quiet => yrmcdsTouch key expire quiet
  | set key data flags expire cas quiet =>
      yrmcdsSet lz c malloc key data flags expire cas quiet
  | replace key data flags expire cas quiet =>
      yrmcdsReplace lz c malloc key data flags expire cas quiet
  | add key data flags expire cas quiet =>
      yrmcdsAdd lz c malloc key data flags expire cas quiet
  | replaceUnlock key data flags expire quiet =>
      yrmcdsReplaceUnlock lz c malloc key data flags expire quiet
  | incr key value quiet => yrmcdsIncr key value quiet
  | incr2 key value initial expire quiet =>
      yrmcdsIncr2 key value initial expire quiet
  | decr key value quiet => yrmcdsDecr key value quiet
  | decr2 key value initial expire quiet =>
      yrmcdsDecr2 key value initial expire quiet
  | append key data quiet => yrmcdsAppend key data quiet
  | prepend key data quiet => yrmcdsPrepend key data quiet
  | remove key quiet => yrmcdsRemove key quiet
  | lock key quiet => yrmcdsLock key quiet
  | unlock key quiet => yrmcdsUnlock key quiet
  | unlockall quiet => yrmcdsUnlockall quiet
  | flush delay quiet => yrmcdsFlush delay quiet
  | statGeneral => yrmcdsStatGeneral
  | statSettings => yrmcdsStatSettings
  | statItems => yrmcdsStatItems
  | statSizes => yrmcdsStatSizes
  | keys keyPrefix => yrmcdsKeys keyPrefix
  | version => yrmcdsVersion
  | quit quiet => yrmcdsQuit quiet

/-- The packet a call is to send, if it passes every check. -/
def Request.passed (lz : Lz4) (c : Conn) (request : Request) (malloc : Bool) :
    Option Packet :=
  match request.packet lz c malloc with
  | .error _ => none
  | .ok p => if p.rejected then none else some p

/-- A call together with what the allocator and the kernel answer. -/
structure SendCall where
  request : Request
  malloc : Bool
  acks : List Ack

/-- One call on a connection. -/
def SendCall.exec (lz : Lz4) (c : Conn) (call : SendCall) : Sent Conn :=
  match call.request.packet lz c call.malloc with
  | .error e => .early c e
  | .ok p => sendCommand c p call.acks

/-- A sequence of calls on one connection, up to one that does not
return. -/
def sendCalls {σ κ : Type} (exec : σ → κ → Sent σ) :
    σ → List κ → List (Sent σ)
  | _, [] => []
  | c, call :: calls =>
      let sent := exec c call
      if sent.result = none then [sent]
      else sent :: sendCalls exec sent.conn calls

end Yrmcds
