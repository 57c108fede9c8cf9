/-
`recv.c`: receiving one response packet.

`yrmcdsRecv` is one call of `yrmcds_recv` against a scripted kernel. It
shifts out the previous packet, reads until the header and then the body
are in the buffer, and decodes the packet in place. What the decoding
looks at goes through `Query`, so that the bytes a call depends on are
the ones it asks for; the LZ4 call, which takes a pointer into the
buffer and a length that may come out negative, is the last step and is
made by `inflate`.

`recvFill` is the `while( c->used < ... )` loop around `recv_data`. Every
round uses up at least one answer of the script, so the length of the
script bounds the rounds.
-/
import Yrmcds.Model.Kernel
import Yrmcds.Model.Lz4
import Yrmcds.Lib.Query

namespace Yrmcds

open Endian Query

/-- `BINARY_HEADER_SIZE`. -/
def BINARY_HEADER_SIZE : Nat := 24

/-- `RECV_SIZE` of `recv.c`. -/
def RECV_SIZE : Nat := 256 * 1024

/-- `MAX_CAPACITY`: 50 MiB. -/
def MAX_CAPACITY : Nat := 50 * 1024 * 1024

-- ========================================================== reading in

/-- The head of `recv_data`: double the buffer when less than
`RECV_SIZE` is free. `none` inside is a failed `realloc`. -/
def growBuf (c : Conn) (k : Kernel) : Option (Option Conn × Kernel) :=
  if c.capacity - c.used < RECV_SIZE then
    match k.alloc with
    | none => none
    | some (none, k) => some (none, k)
    | some (some junk, k) =>
        some (some { c with
          recvbuf := fun i => if i < c.capacity then c.recvbuf i else junk i
          capacity := c.capacity * 2 }, k)
  else some (some c, k)

/-- `recv_data`. -/
def recvData (c : Conn) (k : Kernel) : Option (Error × Conn × Kernel) :=
  match growBuf c k with
  | none => none
  | some (none, k) => some (.outOfMemory, c, k)
  | some (some c, k) =>
      match k.recv RECV_SIZE with
      | none => none
      | some (.error, k) => some (.systemError, c, k)
      | some (.eof, k) => some (.disconnected, c, k)
      | some (.got bs, k) =>
          some (.ok, { c with
            recvbuf := c.recvbuf.write c.used bs
            used := c.used + bs.length }, k)

/-- `while( c->used < target ) { e = recv_data(c); if( e ) return e; }`. -/
def recvFill (target : Nat) :
    Nat → Conn → Kernel → Option (Error × Conn × Kernel)
  | 0, _, _ => none
  | fuel + 1, c, k =>
      if c.used < target then
        match recvData c k with
        | some (.ok, c, k) => recvFill target fuel c k
        | r => r
      else some (.ok, c, k)

/-- The head of `yrmcds_recv`: the packet returned by the last call is
moved out of the buffer and its decompressed data freed. -/
def Conn.shiftOut (c : Conn) : Conn :=
  if c.lastSize > 0 then
    let remain := c.used - c.lastSize
    { c with
      recvbuf := fun i =>
        if i < remain then c.recvbuf (c.lastSize + i) else c.recvbuf i
      used := remain
      lastSize := 0
      decompressed := false }
  else c

-- ============================================================ decoding

/-- `len` bytes of the receive buffer from offset `off`. -/
structure Span where
  off : Nat
  len : Nat

/-- A computation that reads the receive buffer. -/
abbrev Decoder := Prog (fun _ : Span => List UInt8)

/-- A receive buffer answers with its bytes. -/
def Mem.answer (m : Mem) : Span → List UInt8 := fun s => m.slice s.off s.len

/-- One byte. -/
def byteAt (off : Nat) : Decoder UInt8 := do
  let bs ← query ⟨off, 1⟩
  return bs.headD 0

/-- `ntoh16`. -/
def ntoh16 (off : Nat) : Decoder Nat := do
  let bs ← query ⟨off, 2⟩
  return ofBE bs

/-- `ntoh32`. -/
def ntoh32 (off : Nat) : Decoder Nat := do
  let bs ← query ⟨off, 4⟩
  return ofBE bs

/-- `ntoh64`. -/
def ntoh64 (off : Nat) : Decoder Nat := do
  let bs ← query ⟨off, 8⟩
  return ofBE bs

/-- A word copied as it is: the host order of a little-endian host. -/
def host32 (off : Nat) : Decoder Nat := do
  let bs ← query ⟨off, 4⟩
  return ofLE bs

/-- The two checks made on the header alone; `none` is a protocol error,
otherwise `total_len`. -/
def decodeHeader : Decoder (Option Nat) := do
  let magic ← byteAt 0
  if magic ≠ 0x81 then return none
  let totalLen ← ntoh32 8
  if totalLen > MAX_CAPACITY then return none
  return some totalLen

/-- What decoding a whole packet ends in: a protocol error, a response,
or a response whose data is still to be decompressed from offset `off`
with `LZ4_decompress_safe(.., inputSize, size)`. -/
inductive Decoded where
  | bad
  | packet (r : Response)
  | inflate (r : Response) (off : Nat) (inputSize : Int) (size : Nat)

/-- `r->flags`; `none` is the protocol error of odd extras. -/
def decodeFlags (extrasLen : Nat) : Decoder (Option UInt32) := do
  if extrasLen = 0 then return some 0
  if extrasLen ≠ 4 then return none
  let flags ← ntoh32 BINARY_HEADER_SIZE
  return some (UInt32.ofNat flags)

/-- The number a successful `Increment`/`Decrement` brings. -/
def decodeValue (r : Response) (pdata dataLen : Nat) : Decoder Decoded := do
  if dataLen ≠ 8 then return .bad
  let value ← ntoh64 pdata
  return .packet { r with value := UInt64.ofNat value }

/-- The data of any other response, up to the call of `malloc`. The
length handed to LZ4 is `(int)(data_len - sizeof(uint32_t))`. -/
def decodeData (compressSize : Nat) (r : Response) (pdata dataLen : Nat) :
    Decoder Decoded := do
  let data ← query ⟨pdata, dataLen⟩
  if ¬ (compressSize ≠ 0 ∧ r.flags &&& FLAG_COMPRESS ≠ 0) then
    return .packet { r with data }
  if dataLen = 0 then return .bad
  let size ← ntoh32 pdata
  if size > INT_MAX then return .bad
  return .inflate { r with flags := r.flags &&& ~~~FLAG_COMPRESS }
    (pdata + 4) (toInt ((dataLen : Int) - 4)) size

/-- `yrmcds_recv` from `key_len` to the call of `malloc`. -/
def decodeBody (compressSize totalLen : Nat) : Decoder Decoded := do
  let keyLen ← ntoh16 2
  let extras ← byteAt 4
  let extrasLen := extras.toNat
  if totalLen < keyLen + extrasLen then return .bad
  let pkey := BINARY_HEADER_SIZE + extrasLen
  let command ← byteAt 1
  let key ← query ⟨pkey, keyLen⟩
  let status ← ntoh16 6
  let serial ← host32 12
  let cas ← ntoh64 16
  let flags? ← decodeFlags extrasLen
  let some flags := flags? | return .bad
  let dataLen := totalLen - keyLen - extrasLen
  let pdata := pkey + keyLen
  let r : Response :=
    { serial := UInt32.ofNat serial
      length := BINARY_HEADER_SIZE + totalLen
      status := UInt16.ofNat status
      command
      casUnique := UInt64.ofNat cas
      flags
      key
      data := []
      value := 0 }
  if (command = Command.increment.code ∨ command = Command.decrement.code)
      ∧ r.status = Status.ok then decodeValue r pdata dataLen
  else decodeData compressSize r pdata dataLen

-- ================================================================ a call

/-- What a call returns: `YRMCDS_OK` with the response, or an error. -/
inductive RecvResult where
  | ok (r : Response)
  | err (e : Error)
  deriving DecidableEq

/-- A protocol error poisons the connection. -/
def Conn.poison (c : Conn) : Conn := { c with invalid := true }

/-- The LZ4 branch from `malloc` on. A negative return value of
`LZ4_decompress_safe` and one that is not the announced size are the
same failed comparison `d != decompress_size`. -/
def inflate (lz : Lz4) (c : Conn) (k : Kernel) (r : Response) (off : Nat)
    (inputSize : Int) (size : Nat) : Option (RecvResult × Conn × Kernel) :=
  match k.alloc with
  | none => none
  | some (none, k) =>
      some (.err .outOfMemory, { c with decompressed := false }, k)
  | some (some _, k) =>
      let c := { c with decompressed := true }
      match lz.decompressSafe (fun i => c.recvbuf (off + i)) inputSize size with
      | none => some (.err .protocolError, c.poison, k)
      | some data =>
          if data.length ≠ size then
            some (.err .protocolError, c.poison, k)
          else
            some (.ok { r with data }, { c with lastSize := r.length }, k)

/-- The part of a call that has the whole packet in the buffer. -/
def recvPacket (lz : Lz4) (c : Conn) (k : Kernel) (totalLen : Nat) :
    Option (RecvResult × Conn × Kernel) :=
  match run c.recvbuf.answer (decodeBody c.compressSize totalLen) with
  | .bad => some (.err .protocolError, c.poison, k)
  | .packet r => some (.ok r, { c with lastSize := r.length }, k)
  | .inflate r off inputSize size => inflate lz c k r off inputSize size

/-- The part of a call that has the header in the buffer. -/
def recvBody (lz : Lz4) (c : Conn) (k : Kernel) :
    Option (RecvResult × Conn × Kernel) :=
  match run c.recvbuf.answer decodeHeader with
  | none => some (.err .protocolError, c.poison, k)
  | some totalLen =>
      match recvFill (BINARY_HEADER_SIZE + totalLen) (k.script.length + 1)
          c k with
      | none => none
      | some (.ok, c, k) => recvPacket lz c k totalLen
      | some (e, c, k) => some (.err e, c, k)

/-- `yrmcds_recv`. -/
def yrmcdsRecv (lz : Lz4) (c : Conn) (k : Kernel) :
    Option (RecvResult × Conn × Kernel) :=
  if c.invalid then some (.err .protocolError, c, k)
  else
    match recvFill BINARY_HEADER_SIZE (k.script.length + 1) c.shiftOut k with
    | none => none
    | some (.ok, c, k) => recvBody lz c k
    | some (e, c, k) => some (.err e, c, k)

/-- One finished call: its result and the answers it used up. -/
structure RecvCall where
  result : RecvResult
  answers : List Answer

/-- The first `n` calls on a connection, up to one that does not
return. -/
def recvCalls (lz : Lz4) : Nat → Conn → Kernel → List RecvCall
  | 0, _, _ => []
  | n + 1, c, k =>
      match yrmcdsRecv lz c k with
      | none => []
      | some (res, c', k') =>
          ⟨res, k.script.take (k.script.length - k'.script.length)⟩
            :: recvCalls lz n c' k'

end Yrmcds
