/-
A connection as `yrmcds.c` uses it: whole requests out, whole responses
in. The bytes below are the business of `Send` and `Recv`; what is left
of the `yrmcds` structure is the socket with its timeouts, the serial and
the `invalid` flag.

# The server

The server answers the requests of a connection in their order, each with
any number of responses that carry the request's serial; a noop, and an
unlockall that is not quiet, get exactly one. What it answers is fixed
with the request (`Event.sent`), and `floating` holds all responses to
requests already sent that have not been received. Whether one of them
has arrived when `yrmcds_recv` is called is a matter of the events: the
call may fail first.

# History

`log`, `taken` and the `request` of a response are the history of the
connection: they say which requests were sent on whose behalf, and who
received the response to each. No function looks at them.
-/
import Yrmcds.Model.Basic

namespace Yrmcds

/-- What a request does, as far as locks and drain loops look. `silent` are
those whose success is not answered. -/
inductive Kind where
  | noop
  | unlockAll (quiet : Bool)
  /-- The object is locked: `Lock` and the commands that also get it. -/
  | lock (key : List UInt8) (silent : Bool)
  /-- A lock of the object is given up: `Unlock`, `RaU` and `Delete`. -/
  | unlock (key : List UInt8) (silent : Bool)
  /-- All objects go. -/
  | flush
  /-- The server closes the connection. -/
  | quit
  | other
  deriving DecidableEq

/-- The answers the protocol allows a request. -/
def Kind.allows (answers : List Status) : Kind → Bool
  | .noop => answers.length = 1
  | .unlockAll false => answers.length = 1
  | _ => true

/-- On whose behalf a request is sent or a response received: a client
object's method, or the extension's own exchanges. -/
inductive Party where
  | client (o : Nat)
  | extension
  deriving DecidableEq

/-- What became of a request: only a complete one is read as such. -/
inductive Fate where
  | complete
  /-- Nothing was sent, or a part of the frame. -/
  | lost
  /-- It was sent behind a torn frame. -/
  | garbled
  deriving DecidableEq

/-- A request of the log. -/
structure SentRequest where
  kind : Kind
  sender : Party
  fate : Fate
  answers : List Status
  deriving DecidableEq

/-- A response; `request` is the place of its request in the log. -/
structure Reply where
  serial : UInt32
  status : Status
  request : Nat
  deriving DecidableEq

/-- An error that is not `YRMCDS_OK`. -/
abbrev Failure := { e : Error // e ≠ .ok }

/-- What the kernel, the allocator and the server do next. -/
inductive Event where
  /-- `setsockopt()` succeeds or fails. -/
  | sockopt (ok : Bool)
  /-- A request is sent, and answered with these statuses. -/
  | sent (answers : List Status)
  /-- Sending fails after the serial was taken, with nothing sent. -/
  | sendFailed
  /-- Sending fails with a part of the frame sent. -/
  | sendTorn
  /-- A request, or a part of it, is sent behind a torn frame, and the server
  answers what it makes of the bytes. -/
  | garbled (ok : Bool) (replies : List Reply)
  /-- The arguments are rejected, or memory is short, before that. -/
  | refused (e : Failure)
  /-- The next floating response is received. -/
  | reply
  /-- `yrmcds_recv` fails. -/
  | recvFailed (e : Failure)
  /-- `yrmcds_connect` succeeds or fails. -/
  | connected
  | connectFailed (e : Failure)
  deriving DecidableEq

/-- A connection. `torn` is the place in the log of the first request whose
frame was torn. -/
structure Link where
  sock : Option Nat
  rcvTimeout : Int
  sndTimeout : Int
  compressSize : Nat
  serial : UInt32
  invalid : Bool
  torn : Option Nat
  log : List SentRequest
  floating : List Reply
  taken : List (Reply × Party)
  deriving DecidableEq

/-- `yrmcds_connect` on socket `fd`. -/
def Link.connected (fd : Nat) : Link where
  sock := some fd
  rcvTimeout := 0
  sndTimeout := 0
  compressSize := 0
  serial := 0
  invalid := false
  torn := none
  log := []
  floating := []
  taken := []

/-- What a call does to a connection, and the events it leaves; `none`
where it is blocked. -/
abbrev LinkCall (α : Type) := List Event → Link → Option (α × Link × List Event)

namespace Link

/-- `yrmcds_set_compression`. -/
def setCompression (threshold : Nat) (l : Link) : Error × Link :=
  (.ok, { l with compressSize := threshold })

/-- `yrmcds_set_timeout`. -/
def setTimeout (timeout : Int) : LinkCall Error := fun events l =>
  if timeout < 0 then some (.badArgument, l, events)
  else
    match events with
    | .sockopt false :: events => some (.systemError, l, events)
    | .sockopt true :: .sockopt false :: events =>
        some (.systemError, { l with rcvTimeout := timeout }, events)
    | .sockopt true :: .sockopt true :: events =>
        some (.ok, { l with rcvTimeout := timeout, sndTimeout := timeout },
          events)
    | _ => none

/-- Responses to what the server makes of the bytes behind a torn frame: they
are taken for answers to its request or to later ones. -/
def Garbles (l : Link) (replies : List Reply) : Bool :=
  l.torn.any fun first =>
    replies.all fun r => first ≤ r.request && r.request ≤ l.log.length

/-- A command function: the serial of the request, or an error. -/
def send (kind : Kind) (sender : Party) : LinkCall (Except Failure UInt32) :=
  fun events l =>
    let failed : Failure := ⟨.systemError, nofun⟩
    match events with
    | .refused e :: events => some (.error e, l, events)
    | .sendFailed :: events =>
        some (.error failed, { l with
          serial := l.serial + 1
          log := l.log ++ [⟨kind, sender, .lost, []⟩] }, events)
    | .sendTorn :: events =>
        if l.torn.isSome then none
        else
          some (.error failed, { l with
            serial := l.serial + 1
            torn := some l.log.length
            log := l.log ++ [⟨kind, sender, .lost, []⟩] }, events)
    | .sent answers :: events =>
        if l.torn = none ∧ kind.allows answers then
          some (.ok (l.serial + 1), { l with
            serial := l.serial + 1
            log := l.log ++ [⟨kind, sender, .complete, answers⟩]
            floating := l.floating ++ answers.map fun status =>
              ⟨l.serial + 1, status, l.log.length⟩ }, events)
        else none
    | .garbled ok replies :: events =>
        if l.Garbles replies then
          some (if ok then .ok (l.serial + 1) else .error failed, { l with
            serial := l.serial + 1
            log := l.log ++ [⟨kind, sender, .garbled, []⟩]
            floating := l.floating ++ replies }, events)
        else none
    | _ => none

/-- `yrmcds_recv`. -/
def recv (receiver : Party) : LinkCall (Except Failure Reply) := fun events l =>
  if l.invalid then some (.error ⟨.protocolError, nofun⟩, l, events)
  else
    match events with
    | .recvFailed e :: events =>
        some (.error e, { l with invalid := e.val == .protocolError }, events)
    | .reply :: events =>
        match l.floating with
        | [] => none
        | r :: floating =>
            some (.ok r, { l with
              floating
              taken := l.taken ++ [(r, receiver)] }, events)
    | _ => none

/-- `do { e = yrmcds_recv(..); .. } while( r.serial != serial );`. -/
def drainLoop (serial : UInt32) : Nat → LinkCall (Except Failure Reply)
  | 0 => fun _ _ => none
  | fuel + 1 => fun events l =>
      match l.recv .extension events with
      | none => none
      | some (.error e, l, events) => some (.error e, l, events)
      | some (.ok r, l, events) =>
          if r.serial ≠ serial then drainLoop serial fuel events l
          else some (.ok r, l, events)

/-- The loop with all the rounds its events allow. -/
def drainUntil (serial : UInt32) : LinkCall (Except Failure Reply) :=
  fun events l => l.drainLoop serial (events.length + 1) events

end Link

end Yrmcds
