/-
`yrmcds.c`: the methods of `\yrmcds\Client`, from the arguments Zend hands
over to the call of libyrmcds.

A PHP integer is an `Int64`, as the `long` it is stored in. Where the
sources narrow one, by a cast or by the type of a parameter, it is
`toUint32`, `toUint64` or `toInt`. A string argument that may be `null` is
an `Option`; `s!` makes it a `NULL` of length zero.

Every method checks its arguments first, then looks up its connection
without looking whether there is one, and makes one call with it. The
checks are the method's own definition; what it calls is a `Prepared`.
`Script` puts the methods into a process, with the key prefix of each
object, which the rest of the process does not look at.
-/
import Yrmcds.Model.Client
import Yrmcds.Model.Send

namespace Yrmcds

-- ================================================================ integers

/-- `uint32_t` from a `long`. -/
def toUint32 (v : Int64) : UInt32 := UInt32.ofNat (v.toInt % 2 ^ 32).toNat

/-- `uint64_t` from a `long`. -/
def toUint64 (v : Int64) : UInt64 := UInt64.ofNat (v.toInt % 2 ^ 64).toNat

-- ============================================================== arguments

/-- A string, or `null`. -/
abbrev Str := Option (List UInt8)

/-- What `php_error(E_ERROR, ..)` is called with. -/
inductive ArgError where
  | argument
  | key
  | data
  | value
  | initial
  deriving DecidableEq

def ArgError.text : ArgError → String
  | argument => "Invalid argument"
  | key => "Invalid key"
  | data => "Empty data is not allowed"
  | value => "Invalid value"
  | initial => "Invalid initial value"

/-- What a method calls, once its arguments are checked. -/
inductive Prepared where
  | setTimeout (timeout : Int)
  | recv
  | send (request : Request)

/-- `if( key_len == 0 )`, and the same for data: an error, or the bytes. -/
def nonEmpty (e : ArgError) : Str → Except ArgError (List UInt8)
  | none | some [] => .error e
  | some (b :: bs) => .ok (b :: bs)

/-- `if( value < 0 )`. -/
def nonNegative (e : ArgError) (v : Int64) : Except ArgError UInt64 :=
  if v.toInt < 0 then .error e else .ok (toUint64 v)

namespace Client

/-- The key with the prefix of the object in front:
`YRMCDS_CLIENT_EXPLODE`. -/
def explode (keyPrefix : Str) (key : List UInt8) : Ptr :=
  .buf (keyPrefix.getD [] ++ key)

/-- A method whose string argument is a key. -/
def keyMethod (keyPrefix key : Str) (request : Ptr → Request) :
    Except ArgError Request := do
  let key ← nonEmpty .key key
  .ok (request (explode keyPrefix key))

/-- A method whose string arguments are a key and data. -/
def dataMethod (keyPrefix key data : Str) (request : Ptr → Ptr → Request) :
    Except ArgError Request := do
  let key ← nonEmpty .key key
  let data ← nonEmpty .data data
  .ok (request (explode keyPrefix key) (.buf data))

-- ================================================================ methods

/-- `Client::setTimeout`: the timeout is narrowed, then clamped. -/
def setTimeout (timeout : Int64) : Int :=
  let itimeout := toInt timeout.toInt
  if itimeout < 0 then 0 else itimeout

/-- `Client::noop`. -/
def noop : Except ArgError Request := .ok .noop

/-- `Client::get`. -/
def get (keyPrefix key : Str) (quiet : Bool) : Except ArgError Request :=
  keyMethod keyPrefix key (.get · quiet)

/-- `Client::getk`. -/
def getk (keyPrefix key : Str) (quiet : Bool) : Except ArgError Request :=
  keyMethod keyPrefix key (.getk · quiet)

/-- `Client::getTouch`. -/
def getTouch (keyPrefix key : Str) (expire : Int64) (quiet : Bool) :
    Except ArgError Request :=
  keyMethod keyPrefix key (.getTouch · (toUint32 expire) quiet)

/-- `Client::getkTouch`. -/
def getkTouch (keyPrefix key : Str) (expire : Int64) (quiet : Bool) :
    Except ArgError Request :=
  keyMethod keyPrefix key (.getkTouch · (toUint32 expire) quiet)

/-- `Client::lockGet`. -/
def lockGet (keyPrefix key : Str) (quiet : Bool) : Except ArgError Request :=
  keyMethod keyPrefix key (.lockGet · quiet)

/-- `Client::lockGetk`. -/
def lockGetk (keyPrefix key : Str) (quiet : Bool) : Except ArgError Request :=
  keyMethod keyPrefix key (.lockGetk · quiet)

/-- `Client::touch`. -/
def touch (keyPrefix key : Str) (expire : Int64) (quiet : Bool) :
    Except ArgError Request :=
  keyMethod keyPrefix key (.touch · (toUint32 expire) quiet)

/-- `Client::set`. -/
def set (keyPrefix key data : Str) (flags expire cas : Int64) (quiet : Bool) :
    Except ArgError Request :=
  dataMethod keyPrefix key data
    (.set · · (toUint32 flags) (toUint32 expire) (toUint64 cas) quiet)

/-- `Client::replace`. -/
def replace (keyPrefix key data : Str) (flags expire cas : Int64)
    (quiet : Bool) : Except ArgError Request :=
  dataMethod keyPrefix key data
    (.replace · · (toUint32 flags) (toUint32 expire) (toUint64 cas) quiet)

/-- `Client::add`. -/
def add (keyPrefix key data : Str) (flags expire cas : Int64) (quiet : Bool) :
    Except ArgError Request :=
  dataMethod keyPrefix key data
    (.add · · (toUint32 flags) (toUint32 expire) (toUint64 cas) quiet)

/-- `Client::replaceUnlock`. -/
def replaceUnlock (keyPrefix key data : Str) (flags expire : Int64)
    (quiet : Bool) : Except ArgError Request :=
  dataMethod keyPrefix key data
    (.replaceUnlock · · (toUint32 flags) (toUint32 expire) quiet)

/-- `Client::incr`. -/
def incr (keyPrefix key : Str) (value : Int64) (quiet : Bool) :
    Except ArgError Request := do
  let key ← nonEmpty .key key
  let value ← nonNegative .value value
  .ok (.incr (explode keyPrefix key) value quiet)

/-- `Client::decr`. -/
def decr (keyPrefix key : Str) (value : Int64) (quiet : Bool) :
    Except ArgError Request := do
  let key ← nonEmpty .key key
  let value ← nonNegative .value value
  .ok (.decr (explode keyPrefix key) value quiet)

/-- `Client::incr2`. -/
def incr2 (keyPrefix key : Str) (value initial expire : Int64)
    (quiet : Bool) : Except ArgError Request := do
  let key ← nonEmpty .key key
  let value ← nonNegative .value value
  let initial ← nonNegative .initial initial
  .ok (.incr2 (explode keyPrefix key) value initial (toUint32 expire) quiet)

/-- `Client::decr2`. -/
def decr2 (keyPrefix key : Str) (value initial expire : Int64)
    (quiet : Bool) : Except ArgError Request := do
  let key ← nonEmpty .key key
  let value ← nonNegative .value value
  let initial ← nonNegative .initial initial
  .ok (.decr2 (explode keyPrefix key) value initial (toUint32 expire) quiet)

/-- `Client::append`. -/
def append (keyPrefix key data : Str) (quiet : Bool) :
    Except ArgError Request :=
  dataMethod keyPrefix key data (.append · · quiet)

/-- `Client::prepend`. -/
def prepend (keyPrefix key data : Str) (quiet : Bool) :
    Except ArgError Request :=
  dataMethod keyPrefix key data (.prepend · · quiet)

/-- `Client::delete`. -/
def delete (keyPrefix key : Str) (quiet : Bool) : Except ArgError Request :=
  keyMethod keyPrefix key (.remove · quiet)

/-- `Client::lock`. -/
def lock (keyPrefix key : Str) (quiet : Bool) : Except ArgError Request :=
  keyMethod keyPrefix key (.lock · quiet)

/-- `Client::unlock`. -/
def unlock (keyPrefix key : Str) (quiet : Bool) : Except ArgError Request :=
  keyMethod keyPrefix key (.unlock · quiet)

/-- `Client::unlockAll`. -/
def unlockAll (quiet : Bool) : Except ArgError Request :=
  .ok (.unlockall quiet)

/-- `Client::flush`: the delay is clamped, then narrowed. -/
def flush (delay : Int64) (quiet : Bool) : Except ArgError Request :=
  let delay := if delay.toInt < 0 then 0 else delay
  .ok (.flush (toUint32 delay) quiet)

/-- `Client::statGeneral`. -/
def statGeneral : Except ArgError Request := .ok .statGeneral

/-- `Client::statSettings`. -/
def statSettings : Except ArgError Request := .ok .statSettings

/-- `Client::statItems`. -/
def statItems : Except ArgError Request := .ok .statItems

/-- `Client::statSizes`. -/
def statSizes : Except ArgError Request := .ok .statSizes

/-- `Client::keys`: the object's prefix is not used. -/
def keys (start : Str) : Except ArgError Request :=
  match start with
  | none | some [] => .ok (.keys .none)
  | some (b :: bs) => .ok (.keys (.buf (b :: bs)))

/-- `Client::version`. -/
def version : Except ArgError Request := .ok .version

/-- `Client::quit`. -/
def quit (quiet : Bool) : Except ArgError Request := .ok (.quit quiet)

end Client

-- =================================================================== calls

/-- A method with its arguments; `invalid` is a call whose arguments
`zend_parse_parameters` rejects. -/
inductive Method where
  | invalid
  | setTimeout (timeout : Int64)
  | recv
  | noop
  | get (key : Str) (quiet : Bool)
  | getk (key : Str) (quiet : Bool)
  | getTouch (key : Str) (expire : Int64) (quiet : Bool)
  | getkTouch (key : Str) (expire : Int64) (quiet : Bool)
  | lockGet (key : Str) (quiet : Bool)
  | lockGetk (key : Str) (quiet : Bool)
  | touch (key : Str) (expire : Int64) (quiet : Bool)
  | set (key data : Str) (flags expire cas : Int64) (quiet : Bool)
  | replace (key data : Str) (flags expire cas : Int64) (quiet : Bool)
  | add (key data : Str) (flags expire cas : Int64) (quiet : Bool)
  | replaceUnlock (key data : Str) (flags expire : Int64) (quiet : Bool)
  | incr (key : Str) (value : Int64) (quiet : Bool)
  | decr (key : Str) (value : Int64) (quiet : Bool)
  | incr2 (key : Str) (value initial expire : Int64) (quiet : Bool)
  | decr2 (key : Str) (value initial expire : Int64) (quiet : Bool)
  | append (key data : Str) (quiet : Bool)
  | prepend (key data : Str) (quiet : Bool)
  | delete (key : Str) (quiet : Bool)
  | lock (key : Str) (quiet : Bool)
  | unlock (key : Str) (quiet : Bool)
  | unlockAll (quiet : Bool)
  | flush (delay : Int64) (quiet : Bool)
  | statGeneral
  | statSettings
  | statItems
  | statSizes
  | keys (start : Str)
  | version
  | quit (quiet : Bool)

/-- A command method as what it calls. -/
def sending (r : Except ArgError Request) : Except ArgError Prepared :=
  r.map .send

/-- A method up to its call, on an object with this key prefix. -/
def Method.check (keyPrefix : Str) : Method → Except ArgError Prepared
  | invalid => .error .argument
  | setTimeout timeout => .ok (.setTimeout (Client.setTimeout timeout))
  | recv => .ok .recv
  | noop => sending Client.noop
  | get key quiet => sending (Client.get keyPrefix key quiet)
  | getk key quiet => sending (Client.getk keyPrefix key quiet)
  | getTouch key expire quiet =>
      sending (Client.getTouch keyPrefix key expire quiet)
  | getkTouch key expire quiet =>
      sending (Client.getkTouch keyPrefix key expire quiet)
  | lockGet key quiet => sending (Client.lockGet keyPrefix key quiet)
  | lockGetk key quiet => sending (Client.lockGetk keyPrefix key quiet)
  | touch key expire quiet => sending (Client.touch keyPrefix key expire quiet)
  | set key data flags expire cas quiet =>
      sending (Client.set keyPrefix key data flags expire cas quiet)
  | replace key data flags expire cas quiet =>
      sending (Client.replace keyPrefix key data flags expire cas quiet)
  | add key data flags expire cas quiet =>
      sending (Client.add keyPrefix key data flags expire cas quiet)
  | replaceUnlock key data flags expire quiet =>
      sending (Client.replaceUnlock keyPrefix key data flags expire quiet)
  | incr key value quiet => sending (Client.incr keyPrefix key value quiet)
  | decr key value quiet => sending (Client.decr keyPrefix key value quiet)
  | incr2 key value initial expire quiet =>
      sending (Client.incr2 keyPrefix key value initial expire quiet)
  | decr2 key value initial expire quiet =>
      sending (Client.decr2 keyPrefix key value initial expire quiet)
  | append key data quiet => sending (Client.append keyPrefix key data quiet)
  | prepend key data quiet => sending (Client.prepend keyPrefix key data quiet)
  | delete key quiet => sending (Client.delete keyPrefix key quiet)
  | lock key quiet => sending (Client.lock keyPrefix key quiet)
  | unlock key quiet => sending (Client.unlock keyPrefix key quiet)
  | unlockAll quiet => sending (Client.unlockAll quiet)
  | flush delay quiet => sending (Client.flush delay quiet)
  | statGeneral => sending Client.statGeneral
  | statSettings => sending Client.statSettings
  | statItems => sending Client.statItems
  | statSizes => sending Client.statSizes
  | keys start => sending (Client.keys start)
  | version => sending Client.version
  | quit quiet => sending (Client.quit quiet)

/-- The packet a command method sends on a connection, unless it reports
an error before. -/
def Method.packet (lz : Lz4) (c : Conn) (malloc : Bool) (keyPrefix : Str)
    (m : Method) : Option Packet :=
  match m.check keyPrefix with
  | .ok (.send request) => request.passed lz c malloc
  | _ => none

-- ============================================================== in a script

/-- A request as the connections of a process tell them apart. -/
def Request.kind : Request → Kind
  | noop => .noop
  | lock key quiet => .lock key.bytes quiet
  | lockGet key _ | lockGetk key _ => .lock key.bytes false
  | unlock key quiet | remove key quiet => .unlock key.bytes quiet
  | replaceUnlock key _ _ _ quiet => .unlock key.bytes quiet
  | unlockall quiet => .unlockAll quiet
  | flush _ _ => .flush
  | quit _ => .quit
  | _ => .other

/-- What a method reports to the script. -/
inductive Reported where
  | fatal (e : ArgError)
  | thrown (e : Error)
  | returned
  deriving DecidableEq

/-- A method as it ends. -/
def Reported.of {α : Type} : Except Failure α → Reported
  | .error e => .thrown e.val
  | .ok _ => .returned

/-- `CHECK_YRMCDS`. -/
def Reported.check (e : Error) : Reported :=
  if e ≠ .ok then .thrown e else .returned

/-- What a method calls, on the connection of object `o`. -/
def Php.perform (s : Php) (o : Nat) (call : Prepared) (events : List Event) :
    Except Stop (Reported × Php) :=
  match call with
  | .setTimeout timeout => do
      let (e, s) ← s.onConn o (fun events l => l.setTimeout timeout events)
        events
      .ok (.check e, s)
  | .recv => do
      let (r, s) ← s.recv o events
      .ok (.of r, s)
  | .send request => do
      let (r, s) ← s.command o request.kind events
      .ok (.of r, s)

/-- A process, and `obj->prefix` of its objects. -/
structure Script where
  php : Php
  prefixes : Nat → Str

/-- What a script does. A constructor that a subclass does not call is
not called, and what one throws may be caught. -/
inductive ScriptOp where
  | new
  | construct (o : Nat) (persistId keyPrefix : List UInt8)
      (events : List Event)
  | method (o : Nat) (m : Method) (events : List Event)
  | delete (o : Nat) (events : List Event)

namespace Script

/-- A fresh process. -/
def start (ini : Ini) : Script := ⟨Php.start ini, fun _ => none⟩

/-- `Client::__construct`: the prefix is set at its end. -/
def construct (s : Script) (o : Nat) (persistId keyPrefix : List UInt8)
    (events : List Event) : Except Stop (Option Thrown × Script) := do
  let (t, php) ← s.php.construct o persistId events
  .ok (t, { php, prefixes := fun u =>
    if u = o ∧ t = none ∧ keyPrefix.length > 0 then some keyPrefix
    else s.prefixes u })

/-- A method of a live object. -/
def method (s : Script) (o : Nat) (m : Method) (events : List Event) :
    Except Stop (Reported × Script) :=
  match s.php.object o with
  | none => .error .noObject
  | some _ =>
      match m.check (s.prefixes o) with
      | .error e => .ok (.fatal e, s)
      | .ok call => do
          let (r, php) ← s.php.perform o call events
          .ok (r, { s with php })

/-- One operation. -/
def step (s : Script) : ScriptOp → Except Stop Script
  | .new => .ok { s with php := s.php.clientNew }
  | .construct o persistId keyPrefix events => do
      let (_, s) ← s.construct o persistId keyPrefix events
      .ok s
  | .method o m events => do
      let (_, s) ← s.method o m events
      .ok s
  | .delete o events => do
      let php ← s.php.clientDelete o events
      .ok { s with php }

/-- The object for which an operation is a constructor that returns without
throwing. -/
def returns (s : Script) : ScriptOp → Option Nat
  | .construct o persistId keyPrefix events =>
      match s.construct o persistId keyPrefix events with
      | .ok (none, _) => some o
      | _ => none
  | _ => none

/-- The objects for which a constructor has returned in a run, without
throwing. -/
def constructed (s : Script) : List ScriptOp → List Nat
  | [] => []
  | op :: ops =>
      match s.step op with
      | .error _ => []
      | .ok s' => (s.returns op).toList ++ s'.constructed ops

end Script

end Yrmcds
