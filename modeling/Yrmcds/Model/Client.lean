/-
`yrmcds.c`: client objects, their connections and the persistent list of
one PHP process.

Connections live in a heap (`Php.heap`); following a pointer to one that
has been freed is the error `useAfterFree`, which no function handles. A
`size_t` count is a `Nat`: it counts objects in memory, and is decremented
only for one that it counts.

Each operation of a script is a function from the process before to the
process after, and to the exception it throws, if any. Operations come
with the events they meet; where these do not go with what the operation
does, it is `blocked`.

The texts that are logged are left out, and so is the block of memory a
constructor loses when `yrmcds_connect` fails: it holds no socket.
-/
import Yrmcds.Lib.Run
import Yrmcds.Lib.Slots
import Yrmcds.Model.Link

namespace Yrmcds

/-- A key of the persistent list. -/
abbrev Key := List UInt8

/-- `php_yrmcds_t`. -/
structure PhpConn where
  pkey : Option Key
  referenceCount : Nat
  res : Link
  deriving DecidableEq

/-- `yrmcds_client_object`. -/
structure ClientObject where
  conn : Option Nat
  deriving DecidableEq

/-- `zend_yrmcds_globals`: PHP integers, fixed for the process. -/
structure Ini where
  compressionThreshold : Int
  defaultTimeout : Int
  detectStaleConnection : Bool
  deriving DecidableEq

/-- A PHP process. A socket is open while its entry is `true`. -/
structure Php where
  ini : Ini
  sockets : List Bool
  heap : List (Option PhpConn)
  persistentList : Key → Option Nat
  objects : List (Option ClientObject)

/-- Why an operation has no result. -/
inductive Stop where
  | blocked
  | useAfterFree
  | nullPointer
  | noObject
  deriving DecidableEq

/-- What a method throws. -/
inductive Thrown where
  | error (e : Error)
  | unexpectedResponse (status : Status)
  deriving DecidableEq

namespace Php

/-- A fresh process. -/
def start (ini : Ini) : Php where
  ini
  sockets := []
  heap := []
  persistentList := fun _ => none
  objects := []

/-- The connection a pointer points to, unless it has been freed. -/
def conn (s : Php) (i : Nat) : Option PhpConn := Slots.get s.heap i

/-- A live object. -/
def object (s : Php) (o : Nat) : Option ClientObject := Slots.get s.objects o

/-- Follow a pointer. -/
def deref (s : Php) (i : Nat) : Except Stop PhpConn :=
  match s.conn i with
  | some c => .ok c
  | none => .error .useAfterFree

/-- `*i = c`. -/
def put (s : Php) (i : Nat) (c : PhpConn) : Php :=
  { s with heap := s.heap.set i (some c) }

/-- `(int)YRMCDS_G(default_timeout)`. -/
def timeout (s : Php) : Int := toInt s.ini.defaultTimeout

/-- `yrmcds_close(&c->res)` and freeing `c`. -/
def closeAndFree (s : Php) (i : Nat) (c : PhpConn) : Php :=
  { s with
    sockets :=
      match c.res.sock with
      | some fd => s.sockets.set fd false
      | none => s.sockets
    heap := s.heap.set i none }

/-- `php_yrmcds_resource_pdtor`. -/
def resourcePdtor (s : Php) (i : Nat) : Except Stop Php := do
  let c ← s.deref i
  .ok (s.closeAndFree i c)

/-- `zend_hash_str_del` on the persistent list. -/
def hashDel (s : Php) (key : Key) : Except Stop Php :=
  match s.persistentList key with
  | none => .ok s
  | some i => do
      let s ← s.resourcePdtor i
      .ok { s with
        persistentList := fun k => if k = key then none else s.persistentList k }

/-- `zend_hash_str_update_mem` on the persistent list: a former entry is
destructed. -/
def hashUpdate (s : Php) (key : Key) (i : Nat) : Except Stop Php := do
  let s ← s.hashDel key
  .ok { s with
    persistentList := fun k => if k = key then some i else s.persistentList k }

/-- `on_broken_connection_detected`. -/
def onBrokenConnectionDetected (s : Php) (i : Nat) : Except Stop Php := do
  let c ← s.deref i
  if c.referenceCount = 0 then
    match c.pkey with
    | some key => s.hashDel key
    | none => .error .nullPointer
  else .ok s

end Php

-- ============================================================= destructor

/-- The exchange of `destruct_conn` with the server: reset the timeout,
unlock everything and drain. The result says whether it went well. -/
def Link.unlockAndDrain (timeout : Int) : LinkCall Bool := fun events l =>
  match l.setTimeout timeout events with
  | none => none
  | some (_, l, events) =>
      match l.send (.unlockAll false) .extension events with
      | none => none
      | some (.error _, l, events) => some (false, l, events)
      | some (.ok serial, l, events) =>
          match l.drainUntil serial events with
          | none => none
          | some (.error _, l, events) => some (false, l, events)
          | some (.ok r, l, events) =>
              some (r.status = Status.ok ∨ r.status = Status.unknownCommand,
                l, events)

/-- `destruct_conn`. -/
def Php.destructConn (s : Php) (i : Nat) (events : List Event) :
    Except Stop Php := do
  let c ← s.deref i
  let c := { c with referenceCount := c.referenceCount - 1 }
  if c.pkey.isSome then
    match c.res.unlockAndDrain s.timeout events with
    | none => .error .blocked
    | some (true, res, _) => .ok (s.put i { c with res })
    | some (false, res, _) =>
        (s.put i { c with res }).onBrokenConnectionDetected i
  else .ok (s.closeAndFree i c)

/-- `yrmcds_client_delete`. -/
def Php.clientDelete (s : Php) (o : Nat) (events : List Event) :
    Except Stop Php :=
  match s.object o with
  | none => .error .noObject
  | some obj => do
      let s ← match obj.conn with
        | some i => s.destructConn i events
        | none => .ok s
      .ok { s with objects := s.objects.set o none }

-- ============================================================ constructor

/-- `yrmcds_client_new`. -/
def Php.clientNew (s : Php) : Php :=
  { s with objects := s.objects ++ [some ⟨none⟩] }

/-- `check_persistent_connection`: the error and the status. -/
def Link.checkPersistentConnection (timeout : Int) :
    LinkCall (Error × Status) := fun events l =>
  match l.setTimeout 1 events with
  | none => none
  | some (e, l, events) =>
      if e ≠ .ok then some ((e, Status.ok), l, events)
      else
        match l.send .noop .extension events with
        | none => none
        | some (.error e, l, events) => some ((e.val, Status.ok), l, events)
        | some (.ok serial, l, events) =>
            match l.drainUntil serial events with
            | none => none
            | some (.error e, l, events) =>
                some ((e.val, Status.ok), l, events)
            | some (.ok r, l, events) =>
                if r.status ≠ Status.ok then
                  some ((.ok, r.status), l, events)
                else
                  match l.setTimeout timeout events with
                  | none => none
                  | some (e, l, events) => some ((e, r.status), l, events)

/-- `uepc_status`, with what goes with it. -/
inductive Uepc where
  | ok (i : Nat)
  | notFound
  | broken
  | brokenAndOccupied (t : Thrown)

/-- The exception of a constructor that found the connection broken and
occupied: `CHECK_YRMCDS(err)`, then the unexpected response. -/
def brokenThrown (err : Error) (status : Status) : Thrown :=
  if err ≠ .ok then .error err else .unexpectedResponse status

/-- `use_existing_persistent_connection`. -/
def Php.useExistingPersistentConnection (s : Php) (key : Key)
    (events : List Event) : Except Stop (Uepc × Php × List Event) :=
  match s.persistentList key with
  | none => .ok (.notFound, s, events)
  | some i => do
      let c ← s.deref i
      if s.ini.detectStaleConnection then
        match c.res.checkPersistentConnection s.timeout events with
        | none => .error .blocked
        | some ((err, status), res, events) =>
            if err ≠ .ok ∨ status ≠ Status.ok then do
              let s ← (s.put i { c with res }).onBrokenConnectionDetected i
              .ok (if c.referenceCount = 0 then .broken
                else .brokenAndOccupied (brokenThrown err status), s, events)
            else
              .ok (.ok i, s.put i
                { c with res, referenceCount := c.referenceCount + 1 },
                events)
      else
        .ok (.ok i, s.put i { c with referenceCount := c.referenceCount + 1 },
          events)

/-- The part of the constructor that makes a new connection. The early
returns of `CHECK_YRMCDS` free nothing. -/
def Php.newConn (s : Php) (pkey : Option Key) (events : List Event) :
    Except Stop (Except Thrown Nat × Php) :=
  match events with
  | .connectFailed e :: _ => .ok (.error (.error e.val), s)
  | .connected :: events =>
      let i := s.heap.length
      let (e, res) := (Link.connected s.sockets.length).setCompression
        (s.ini.compressionThreshold % 2 ^ 64).toNat
      let c : PhpConn := { pkey, referenceCount := 1, res }
      let s := { s with
        sockets := s.sockets ++ [true]
        heap := s.heap ++ [some c] }
      if e ≠ .ok then .ok (.error (.error e), s)
      else
        match c.res.setTimeout s.timeout events with
        | none => .error .blocked
        | some (e, res, _) =>
            let s := s.put i { c with res }
            if e ≠ .ok then .ok (.error (.error e), s) else .ok (.ok i, s)
  | _ => .error .blocked

/-- `"yrmcds:"` and the persistent ID. -/
def hashKey (persistId : List UInt8) : Key :=
  [121, 114, 109, 99, 100, 115, 58] ++ persistId

/-- The constructor up to the assignment of `obj->conn`: the connection it
is to get, and the key under which a new one is to be listed. -/
def Php.obtainConn (s : Php) (persistId : List UInt8)
    (events : List Event) :
    Except Stop (Except Thrown (Nat × Option Key) × Php) :=
  if persistId.length > 0 then do
    let key := hashKey persistId
    let (uepc, s, events) ← s.useExistingPersistentConnection key events
    match uepc with
    | .brokenAndOccupied t => .ok (.error t, s)
    | .ok i => .ok (.ok (i, none), s)
    | .notFound | .broken => do
        let (r, s) ← s.newConn (some key) events
        .ok (r.map fun i => (i, some key), s)
  else do
    let (r, s) ← s.newConn none events
    .ok (r.map fun i => (i, none), s)

/-- `Client::__construct`. -/
def Php.construct (s : Php) (o : Nat) (persistId : List UInt8)
    (events : List Event) : Except Stop (Option Thrown × Php) :=
  match s.object o with
  | none => .error .noObject
  | some _ => do
      let (r, s) ← s.obtainConn persistId events
      match r with
      | .error t => .ok (some t, s)
      | .ok (i, key?) => do
          let s := { s with objects := s.objects.set o (some ⟨some i⟩) }
          match key? with
          | none => .ok (none, s)
          | some key => do
              let s ← s.hashUpdate key i
              .ok (none, s)

-- ================================================================ methods

/-- A method: one call on the connection of an object. -/
def Php.onConn {α : Type} (s : Php) (o : Nat) (call : LinkCall α)
    (events : List Event) : Except Stop (α × Php) :=
  match s.object o with
  | none => .error .noObject
  | some obj =>
      match obj.conn with
      | none => .error .nullPointer
      | some i => do
          let c ← s.deref i
          match call events c.res with
          | none => .error .blocked
          | some (a, res, _) => .ok (a, s.put i { c with res })

/-- `Client::recv`. -/
def Php.recv (s : Php) (o : Nat) : List Event →
    Except Stop (Except Failure Reply × Php) :=
  s.onConn o fun events l => l.recv (.client o) events

/-- A command method. -/
def Php.command (s : Php) (o : Nat) (kind : Kind) : List Event →
    Except Stop (Except Failure UInt32 × Php) :=
  s.onConn o fun events l => l.send kind (.client o) events

/-- `Client::setTimeout`: a PHP integer, narrowed and clamped. -/
def Php.setTimeout (s : Php) (o : Nat) (timeout : Int) : List Event →
    Except Stop (Error × Php) :=
  let itimeout := toInt timeout
  s.onConn o fun events l =>
    l.setTimeout (if itimeout < 0 then 0 else itimeout) events

-- ==================================================================== runs

/-- An operation of a script, with the events it meets. -/
inductive Op where
  | new
  | construct (o : Nat) (persistId : List UInt8) (events : List Event)
  | recv (o : Nat) (events : List Event)
  | command (o : Nat) (kind : Kind) (events : List Event)
  | setTimeout (o : Nat) (timeout : Int) (events : List Event)
  | delete (o : Nat) (events : List Event)
  deriving DecidableEq

/-- One operation. -/
def Php.step (s : Php) : Op → Except Stop Php
  | .new => .ok s.clientNew
  | .construct o persistId events => do
      let (_, s) ← s.construct o persistId events
      .ok s
  | .recv o events => do
      let (_, s) ← s.recv o events
      .ok s
  | .command o kind events => do
      let (_, s) ← s.command o kind events
      .ok s
  | .setTimeout o timeout events => do
      let (_, s) ← s.setTimeout o timeout events
      .ok s
  | .delete o events => s.clientDelete o events

/-- A run of operations. -/
def Php.run (s : Php) (ops : List Op) : Except Stop Php :=
  Run.exec Php.step s ops

end Yrmcds
