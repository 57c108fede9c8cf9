/-
`counter.c`, the receive side of the counter extension: the buffer, the
decoding of the six kinds of response and the array of statistics that is
used again for every `Stats` response.

The statistics are a map from indices to records with `capacity` beside
it, as a block of memory is. `realloc` for them is a parameter: it is
asked for a capacity it was never asked for before on the same connection
(a failure ends the connection), so a function of the capacity is enough
to stand for any behaviour.
-/
import Yrmcds.Model.Counter
import Yrmcds.Model.Recv
import Yrmcds.Model.RecvBuf

namespace Yrmcds

open Endian Query

/-- `RECV_SIZE` of `counter.c`. -/
def CNT_RECV_SIZE : Nat := 4096

/-- `INITIAL_STATS_CAPACITY`. -/
def INITIAL_STATS_CAPACITY : Nat := 16

-- ============================================================= data model

/-- `yrmcds_cnt_stat`. -/
structure CntStat where
  name : List UInt8
  value : List UInt8
  deriving DecidableEq

/-- `yrmcds_cnt_statistics`. -/
structure CntStatistics where
  records : Nat → CntStat
  count : Nat
  capacity : Nat

/-- The statistics, in order. -/
def CntStatistics.list (s : CntStatistics) : List CntStat :=
  (List.range s.count).map s.records

/-- `yrmcds_cnt_response`. -/
structure CntResponse where
  serial : UInt32
  status : UInt8
  command : UInt8
  body : List UInt8
  resources : UInt32
  currentConsumption : UInt32
  maxConsumption : UInt32
  name : List UInt8
  stats : Option (List CntStat)
  deriving DecidableEq

/-- `YRMCDS_STATUS_OK`. -/
def CNT_STATUS_OK : UInt8 := 0x00

/-- `yrmcds_cnt`, what receiving uses of it. -/
structure CntReceiver where
  buf : RecvBuf
  stats : CntStatistics
  invalid : Bool

/-- `realloc` of the statistics, by the new capacity: what is in the new
records, or `none` for `NULL`. -/
abbrev StatsRealloc := Nat → Option (Nat → CntStat)

-- ============================================================= statistics

/-- `append_stat`. -/
def appendStat (realloc : StatsRealloc) (s : CntStatistics) (stat : CntStat) :
    Error × CntStatistics :=
  let put (s : CntStatistics) : CntStatistics :=
    { s with
      records := fun i => if i = s.count then stat else s.records i
      count := s.count + 1 }
  if s.count = s.capacity then
    let capacity := max (s.capacity * 2) INITIAL_STATS_CAPACITY
    match realloc capacity with
    | none => (.outOfMemory, s)
    | some fresh =>
        (.ok, put { s with
          records := fun i => if i < s.capacity then s.records i else fresh i
          capacity })
  else (.ok, put s)

/-- `while( p < end ) { .. }` of `parse_statistics`. -/
def parseStats (realloc : StatsRealloc) (e p : Nat) (s : CntStatistics) :
    Decoder (Error × CntStatistics) :=
  if p < e then
    if p + 4 > e then return (.protocolError, s)
    else do
      let nameLen ← ntoh16 p
      let valueLen ← ntoh16 (p + 2)
      if p + 4 + nameLen + valueLen > e then return (.protocolError, s)
      let name ← query ⟨p + 4, nameLen⟩
      let value ← query ⟨p + 4 + nameLen, valueLen⟩
      match appendStat realloc s ⟨name, value⟩ with
      | (.ok, s) => parseStats realloc e (p + 4 + nameLen + valueLen) s
      | (err, s) => return (err, s)
  else return (.ok, s)
termination_by e - p

/-- `parse_statistics` of the `bodyLen` bytes from `body` on. -/
def parseStatistics (realloc : StatsRealloc) (body bodyLen : Nat)
    (s : CntStatistics) : Decoder (Error × CntStatistics) :=
  parseStats realloc (body + bodyLen) body { s with count := 0 }

-- =============================================================== decoding

/-- `parse_dump_record`; `none` is the protocol error. -/
def parseDumpRecord (body bodyLen : Nat) (r : CntResponse) :
    Decoder (Option CntResponse) := do
  if bodyLen = 0 then return some r
  if bodyLen < 10 then return none
  let current ← ntoh32 body
  let max ← ntoh32 (body + 4)
  let nameLen ← ntoh16 (body + 8)
  if bodyLen < 10 + nameLen then return none
  let name ← query ⟨body + 10, nameLen⟩
  return some { r with
    currentConsumption := UInt32.ofNat current
    maxConsumption := UInt32.ofNat max
    name }

/-- The header: `none` is a wrong magic byte, otherwise the body length
and the fields of the response that come from the header. -/
def cntDecodeHeader : Decoder (Option (Nat × CntResponse)) := do
  let magic ← byteAt 0
  if magic ≠ 0x91 then return none
  let command ← byteAt 1
  let status ← byteAt 2
  let bodyLength ← ntoh32 4
  let serial ← host32 8
  return some (bodyLength,
    { serial := UInt32.ofNat serial
      status
      command
      body := []
      resources := 0
      currentConsumption := 0
      maxConsumption := 0
      name := []
      stats := none })

/-- The first four bytes of the body, where it has them. -/
def decodeWord (bodyLen : Nat) (set : UInt32 → CntResponse) :
    Decoder (Except Error CntResponse) := do
  if bodyLen < 4 then return .error .protocolError
  let n ← ntoh32 CNT_HEADER_SIZE
  return .ok (set (UInt32.ofNat n))

/-- `yrmcds_cnt_recv` from the check of the status on. -/
def cntDecodeBody (realloc : StatsRealloc) (s : CntStatistics) (bodyLen : Nat)
    (r : CntResponse) : Decoder (Except Error CntResponse × CntStatistics) := do
  let body ← query ⟨CNT_HEADER_SIZE, bodyLen⟩
  let r := { r with body }
  if r.status ≠ CNT_STATUS_OK then return (.ok r, s)
  else if r.command = CntCommand.get.code then
    let out ← decodeWord bodyLen fun n => { r with currentConsumption := n }
    return (out, s)
  else if r.command = CntCommand.acquire.code then
    let out ← decodeWord bodyLen fun n => { r with resources := n }
    return (out, s)
  else if r.command = CntCommand.stats.code then
    let (err, s) ← parseStatistics realloc CNT_HEADER_SIZE bodyLen s
    if err = .ok then return (.ok { r with stats := some s.list }, s)
    else return (.error err, s)
  else if r.command = CntCommand.dump.code then
    let out ← parseDumpRecord CNT_HEADER_SIZE bodyLen r
    match out with
    | some r => return (.ok r, s)
    | none => return (.error .protocolError, s)
  else return (.ok r, s)

-- ================================================================= a call

/-- The part of a call that has the whole packet in the buffer.
`last_size` is set before the body is looked at. -/
def cntRecvPacket (realloc : StatsRealloc) (c : CntReceiver) (k : Kernel)
    (bodyLen : Nat) (r : CntResponse) :
    Option (Except Error CntResponse × CntReceiver × Kernel) :=
  let buf := { c.buf with lastSize := CNT_HEADER_SIZE + bodyLen }
  match run buf.mem.answer (cntDecodeBody realloc c.stats bodyLen r) with
  | (.ok r, stats) => some (.ok r, { c with buf, stats }, k)
  | (.error e, stats) =>
      some (.error e, { buf, stats, invalid := true }, k)

/-- The part of a call that has the header in the buffer. -/
def cntRecvBody (realloc : StatsRealloc) (c : CntReceiver) (k : Kernel) :
    Option (Except Error CntResponse × CntReceiver × Kernel) :=
  match run c.buf.mem.answer cntDecodeHeader with
  | none => some (.error .protocolError, { c with invalid := true }, k)
  | some (bodyLen, r) =>
      if bodyLen > 0 then
        match c.buf.fill CNT_RECV_SIZE (CNT_HEADER_SIZE + bodyLen)
            (k.script.length + 1) k with
        | none => none
        | some (.ok, buf, k) => cntRecvPacket realloc { c with buf } k bodyLen r
        | some (e, buf, k) => some (.error e, { c with buf }, k)
      else cntRecvPacket realloc c k bodyLen r

/-- `yrmcds_cnt_recv`. -/
def yrmcdsCntRecv (realloc : StatsRealloc) (c : CntReceiver) (k : Kernel) :
    Option (Except Error CntResponse × CntReceiver × Kernel) :=
  if c.invalid then some (.error .protocolError, c, k)
  else
    match c.buf.shiftOut.fill CNT_RECV_SIZE CNT_HEADER_SIZE
        (k.script.length + 1) k with
    | none => none
    | some (.ok, buf, k) => cntRecvBody realloc { c with buf } k
    | some (e, buf, k) => some (.error e, { c with buf }, k)

/-- The first `n` calls on a connection, up to one that does not
return. -/
def cntRecvCalls (realloc : StatsRealloc) :
    Nat → CntReceiver → Kernel → List (Finished CntResponse) :=
  runCalls (yrmcdsCntRecv realloc)

-- ================================================================ connect

/-- The receive side `yrmcds_cnt_connect` sets up; `buf` is what `malloc`
found in the fresh receive buffer. -/
def CntReceiver.connected (buf : Mem) : CntReceiver where
  buf := { mem := buf, capacity := 4096, used := 0, lastSize := 0 }
  stats := { records := fun _ => ⟨[], []⟩, count := 0, capacity := 0 }
  invalid := false

/-- `yrmcds_cnt_connect`, given what `connect_to_server` and `malloc`
do. -/
def yrmcdsCntConnect (server : Except Error Int) (malloc : Option Mem) :
    Except Error (CntConn × CntReceiver) :=
  match server, malloc with
  | .error e, _ => .error e
  | .ok _, none => .error .outOfMemory
  | .ok fd, some buf => .ok (⟨fd, 0⟩, .connected buf)

end Yrmcds
