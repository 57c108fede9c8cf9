/-
A connection of the extension, down to its bytes.

A `Link` sends whole requests and receives whole responses. This is the
same connection as the sources have it: the `yrmcds` structure with its
receive buffer, the socket with its options, the bytes the kernel has taken
over (`sent`) and those that are on their way back (`stream`). The calls
are the functions of libyrmcds, and the two exchanges of `yrmcds.c`.

# The server

With a complete request the script says what the server answers. A response
is any packet that says its own length and carries the serial of the
request; how many there may be is a matter of the request
(`Kind.allows`). A request that was given up inside its frame is not
answered until more is sent. From then on the server makes something else
of the bytes, and answers it with any packets.
-/
import Yrmcds.Lib.Scripted
import Yrmcds.Model.Methods
import Yrmcds.Model.Recv

namespace Yrmcds

open Endian Gather

/-- What the kernel, the allocator and the server do during a call. -/
inductive WireEvent where
  /-- `setsockopt()` succeeds or fails. -/
  | sockopt (ok : Bool)
  /-- The answers to a command function, and to the request if it is sent. -/
  | send (malloc : Bool) (acks : List Ack) (replies : List (List UInt8))
  /-- The answers to `yrmcds_recv`. -/
  | recv (script : List Answer)

/-- A connection and its socket. `torn` says that a request was given up
inside its frame. -/
structure Wire where
  conn : Conn
  rcvTimeout : Int
  sndTimeout : Int
  sent : List UInt8
  torn : Bool
  stream : List UInt8

/-- A call on a connection. -/
abbrev WireCall : Type → Type := Scripted.Call WireEvent Wire

-- ============================================================== packets

/-- The serial in the header of a packet. -/
def packetSerial (p : List UInt8) : UInt32 :=
  UInt32.ofNat (ofLE ((p.drop 12).take 4))

/-- The status in the header of a packet. -/
def packetStatus (p : List UInt8) : Status :=
  UInt16.ofNat (ofBE ((p.drop 6).take 2))

/-- A packet is as long as its header says. -/
def Delimited (p : List UInt8) : Prop :=
  24 ≤ p.length ∧ ofBE ((p.drop 8).take 4) + 24 = p.length

instance : DecidablePred Delimited := fun p =>
  inferInstanceAs (Decidable (24 ≤ p.length ∧ _ = p.length))

/-- What a server may answer a request. -/
def Kind.answeredBy (kind : Kind) (serial : UInt32)
    (replies : List (List UInt8)) : Prop :=
  (∀ p ∈ replies, Delimited p ∧ packetSerial p = serial)
    ∧ kind.allows (replies.map packetStatus) = true

instance (kind : Kind) (serial : UInt32) (replies : List (List UInt8)) :
    Decidable (kind.answeredBy serial replies) :=
  inferInstanceAs (Decidable (_ ∧ _))

/-- The same behind a torn frame. -/
def AnyAnswer (replies : List (List UInt8)) : Prop := ∀ p ∈ replies, Delimited p

instance : DecidablePred AnyAnswer := fun replies =>
  inferInstanceAs (Decidable (∀ p ∈ replies, Delimited p))

namespace Wire

-- ============================================================= libyrmcds

/-- A connection as `yrmcds_connect` leaves it. -/
def connected (c : Conn) : Wire where
  conn := c
  rcvTimeout := 0
  sndTimeout := 0
  sent := []
  torn := false
  stream := []

/-- `yrmcds_set_compression`. -/
def setCompression (threshold : Nat) : WireCall Error := fun events w =>
  let (e, conn) := yrmcdsSetCompression w.conn threshold
  some (e, { w with conn }, events)

/-- `setsockopt()`, to set an option. -/
def setsockopt (set : Wire → Wire) : WireCall Bool := fun events w =>
  match events with
  | .sockopt true :: events => some (true, set w, events)
  | .sockopt false :: events => some (false, w, events)
  | _ => none

/-- `yrmcds_set_timeout`. -/
def setTimeout (timeout : Int) : WireCall Error :=
  if timeout < 0 then pure .badArgument
  else do
    let rcv ← setsockopt fun w => { w with rcvTimeout := timeout }
    if !rcv then return .systemError
    let snd ← setsockopt fun w => { w with sndTimeout := timeout }
    if !snd then return .systemError
    return .ok

/-- A command function: the serial of the request, or an error. -/
def send (lz : Lz4) (request : Request) : WireCall (Except Error UInt32) :=
  fun events w =>
    match events with
    | .send malloc acks replies :: events =>
        let s := (SendCall.mk request malloc acks).exec lz w.conn
        let w := { w with conn := s.conn, sent := w.sent ++ s.written }
        let answered := { w with stream := w.stream ++ replies.flatten }
        match s.result with
        | none => none
        | some .ok =>
            if w.torn then
              if AnyAnswer replies then some (.ok s.conn.serial, answered, events)
              else none
            else if request.kind.answeredBy s.conn.serial replies then
              some (.ok s.conn.serial, answered, events)
            else none
        | some e =>
            if s.written.isEmpty then some (.error e, w, events)
            else if w.torn then
              if AnyAnswer replies then some (.error e, answered, events)
              else none
            else some (.error e, { w with torn := true }, events)
    | _ => none

/-- `yrmcds_recv`. -/
def recv (lz : Lz4) : WireCall RecvResult := fun events w =>
  match events with
  | .recv script :: events =>
      match yrmcdsRecv lz w.conn ⟨w.stream, script⟩ with
      | none => none
      | some (res, conn, k) => some (res, { w with conn, stream := k.stream }, events)
  | _ => none

-- ============================================================== yrmcds.c

/-- `do { e = yrmcds_recv(..); .. } while( r.serial != serial );`. -/
def drainLoop (lz : Lz4) (serial : UInt32) :
    Nat → WireCall (Except Error Response)
  | 0 => fun _ _ => none
  | fuel + 1 => do
      match ← recv lz with
      | .err e => return .error e
      | .ok r =>
          if r.serial ≠ serial then drainLoop lz serial fuel
          else return .ok r

/-- The loop with all the rounds its events allow. -/
def drainUntil (lz : Lz4) (serial : UInt32) :
    WireCall (Except Error Response) := fun events w =>
  drainLoop lz serial events.length events w

/-- The exchange of `destruct_conn` with the server; the result says whether
it went well. -/
def unlockAndDrain (lz : Lz4) (timeout : Int) : WireCall Bool := do
  let _ ← setTimeout timeout
  match ← send lz (.unlockall false) with
  | .error _ => return false
  | .ok serial =>
      match ← drainUntil lz serial with
      | .error _ => return false
      | .ok r =>
          return r.status = Status.ok ∨ r.status = Status.unknownCommand

/-- `check_persistent_connection`: the error and the status. -/
def checkPersistentConnection (lz : Lz4) (timeout : Int) :
    WireCall (Error × Status) := do
  let e ← setTimeout 1
  if e ≠ .ok then return (e, Status.ok)
  else
    match ← send lz .noop with
    | .error e => return (e, Status.ok)
    | .ok serial =>
        match ← drainUntil lz serial with
        | .error e => return (e, Status.ok)
        | .ok r =>
            if r.status ≠ Status.ok then return (.ok, r.status)
            else
              let e ← setTimeout timeout
              return (e, r.status)

end Wire

-- ================================================================= a life

/-- What is done with a connection: by the extension, or by the methods of
object `o`. -/
inductive WireOp where
  | setCompression (threshold : Nat)
  | setTimeout (timeout : Int)
  | send (o : Nat) (request : Request)
  | recv (o : Nat)
  | checkPersistentConnection (timeout : Int)
  | unlockAndDrain (timeout : Int)

/-- What comes of it. -/
inductive WireResult where
  | error (e : Error)
  | sent (r : Except Error UInt32)
  | received (r : RecvResult)
  | checked (e : Error) (status : Status)
  | drained (good : Bool)

/-- One operation. -/
def WireOp.perform (lz : Lz4) : WireOp → WireCall WireResult
  | .setCompression threshold => do return .error (← Wire.setCompression threshold)
  | .setTimeout timeout => do return .error (← Wire.setTimeout timeout)
  | .send _ request => do return .sent (← Wire.send lz request)
  | .recv _ => do return .received (← Wire.recv lz)
  | .checkPersistentConnection timeout => do
      let r ← Wire.checkPersistentConnection lz timeout
      return .checked r.1 r.2
  | .unlockAndDrain timeout => do
      return .drained (← Wire.unlockAndDrain lz timeout)

/-- Operations in order. -/
def Wire.run (lz : Lz4) : List WireOp → WireCall (List WireResult) :=
  Scripted.each (WireOp.perform lz)

end Yrmcds
