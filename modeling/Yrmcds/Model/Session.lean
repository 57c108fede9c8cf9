/-
`yrmcds_session.php`: session handlers, each with a client and its
connection to one server.

# The server

The server is a parameter: what it does with a request is `serve`, and
what a reader may know of its state are its objects and who has locked
them. A connection is a queue of requests to the server and a queue of
responses back, so a request is answered some time after it is sent, and
those of one connection in their order.

# Handlers

A method that only sends runs in one step (`Handler.call`). `read` and
`wait_lock` also receive, and go on with the next response
(`Handler.recv`); where they stand in between is the `Pc`. A command
method of the client may throw instead of sending, and `recv()` may throw
and leave the response where it is.

# Torn frames

A command method may also throw with a part of its frame on the socket. A
`World` leaves that out; `Frayed` has it. Whatever is sent behind such a
part is taken for the rest of it, so the server does not read it as the
request it is, and what it reads instead may be anything.

`granted` is history: the sessions a handler has read from a locked object
and not written or destroyed since, with what it has read. No method looks
at it.
-/
import Yrmcds.Lib.Run
import Yrmcds.Model.Basic

namespace Yrmcds

namespace Session

/-- A PHP string. -/
abbrev Str := List UInt8

/-- The requests of a session handler; the last three are quiet. -/
inductive Request where
  | lockGet (id : Str)
  | touch (id : Str) (expire : Int)
  | getTouch (id : Str) (expire : Int)
  | delete (id : Str)
  | replaceUnlock (id data : Str) (expire : Int)
  | set (id data : Str) (expire : Int)
  deriving DecidableEq

/-- The key of a request. -/
def Request.id : Request → Str
  | .lockGet id => id
  | .touch id _ => id
  | .getTouch id _ => id
  | .delete id => id
  | .replaceUnlock id _ _ => id
  | .set id _ _ => id

/-- A response to request `request` of its connection. -/
structure Reply where
  serial : UInt32
  status : Status
  data : Str
  request : Nat
  deriving DecidableEq

/-- A server; connections are numbered. -/
structure Server (σ : Type) where
  /-- Perform a request, and answer it or not. -/
  serve : σ → Nat → Request → σ × Option (Status × Str)
  /-- A connection is closed. -/
  hangup : σ → Nat → σ
  /-- An object may expire or be evicted. -/
  expire : σ → Str → σ
  object : σ → Str → Option Str
  holder : σ → Str → Option Nat

/-- The connection of a client: how many requests were sent, those not yet
performed with their numbers, and the responses not yet received. -/
structure Channel where
  sent : Nat
  inflight : List (Nat × Request)
  replies : List Reply
  deriving DecidableEq

/-- Send a request. The serial counts the requests modulo 2^32. -/
def Channel.send (c : Channel) (r : Request) : UInt32 × Channel :=
  (UInt32.ofNat (c.sent + 1), { c with
    sent := c.sent + 1
    inflight := c.inflight ++ [(c.sent + 1, r)] })

/-- What a method came to. -/
inductive Result where
  | true
  | false
  | data (s : Str)
  | threw
  deriving DecidableEq

/-- Where a method stands: at no method, in the inner loop of `wait_lock`,
at the `recv()` after `touch()`, or in the loop after `getTouch()`. -/
inductive Pc where
  | idle
  | waitLock (id : Str) (serial : UInt32)
  | waitTouch (id data : Str)
  | waitGet (serial : UInt32)
  deriving DecidableEq

/-- `SessionHandler` with its client, and how its last method ended. -/
structure Handler where
  expire : Int
  timeout : Int
  locked : Bool
  channel : Channel
  pc : Pc
  result : Option Result
  granted : List (Str × Str)
  closed : Bool
  deriving DecidableEq

/-- The methods of `SessionHandlerInterface`. -/
inductive Call where
  | open_
  | close
  | read (id : Str)
  | write (id data : Str)
  | destroy (id : Str)
  | gc
  deriving DecidableEq

namespace Handler

/-- `SessionHandler::__construct` with a new connection. -/
def new (expire timeout : Int) : Handler where
  expire
  timeout
  locked := false
  channel := ⟨0, [], []⟩
  pc := .idle
  result := none
  granted := []
  closed := false

/-- A method ends. -/
def ends (h : Handler) (r : Result) : Handler :=
  { h with pc := .idle, result := some r }

/-- Send a request, or throw. -/
def sends (h : Handler) (ok : Bool) (r : Request)
    (go : UInt32 → Handler → Handler) : Handler :=
  if ok then
    let (serial, channel) := h.channel.send r
    go serial { h with channel }
  else h.ends .threw

/-- `wait_lock`, a turn of the outer loop. -/
def lockGet (h : Handler) (id : Str) (ok : Bool) : Handler :=
  h.sends ok (.lockGet id) fun serial h => { h with pc := .waitLock id serial }

/-- `SessionHandler::read`, up to the first `recv()`. -/
def read (h : Handler) (id : Str) (ok : Bool) : Handler :=
  if h.timeout ≠ 0 then h.lockGet id ok
  else
    h.sends ok (.getTouch id h.expire) fun serial h =>
      { h with pc := .waitGet serial }

/-- `SessionHandler::write`. Exceptions are caught. -/
def write (h : Handler) (id data : Str) (ok : Bool) : Handler :=
  let request :=
    if data.length = 0 then .delete id
    else if h.locked then .replaceUnlock id data h.expire
    else .set id data h.expire
  let h := { h with granted := h.granted.filter (·.1 ≠ id) }
  if ok then h.sends true request fun _ h => h.ends .true
  else h.ends .false

/-- `SessionHandler::destroy`. -/
def destroy (h : Handler) (id : Str) (ok : Bool) : Handler :=
  let h := { h with granted := h.granted.filter (·.1 ≠ id) }
  h.sends ok (.delete id) fun _ h => h.ends .true

/-- A method is called. -/
def call (h : Handler) (ok : Bool) : Call → Handler
  | .open_ => h.ends .true
  | .close => h.ends .true
  | .read id => h.read id ok
  | .write id data => h.write id data ok
  | .destroy id => h.destroy id ok
  | .gc => h.ends .true

/-- `read` after `wait_lock` has returned. -/
def afterWaitLock (h : Handler) (id : Str) (r : Reply) (ok : Bool) : Handler :=
  if r.status = Status.ok then
    { h with locked := true }.sends ok (.touch id h.expire) fun _ h =>
      { h with pc := .waitTouch id r.data }
  else h.ends (.data r.data)

/-- A method goes on with the response `recv()` has returned; `late` says
whether the time is over. -/
def recv (h : Handler) (r : Reply) (late ok : Bool) : Handler :=
  match h.pc with
  | .idle => h
  | .waitLock id serial =>
      if r.serial ≠ serial then h
      else if r.status = Status.locked then
        if late then h.ends .threw else h.lockGet id ok
      else h.afterWaitLock id r ok
  | .waitTouch id data =>
      { h with granted := (id, data) :: h.granted }.ends (.data data)
  | .waitGet serial =>
      if r.serial ≠ serial then h else h.ends (.data r.data)

end Handler

-- =================================================================== world

/-- The server and all handlers. -/
structure World (σ : Type) where
  server : σ
  handlers : Nat → Handler

/-- What happens next, to handler `k` where there is one. -/
inductive Act where
  /-- PHP calls a method, whose first request is sent or throws. -/
  | call (k : Nat) (c : Call) (ok : Bool)
  /-- `recv()` returns, and the next request is sent or throws. -/
  | recv (k : Nat) (late ok : Bool)
  /-- `recv()` throws. -/
  | recvThrows (k : Nat)
  /-- The client is gone. -/
  | disconnect (k : Nat)
  /-- The server performs the next request. -/
  | serve (k : Nat)
  /-- The server notices that the client is gone. -/
  | hangup (k : Nat)
  /-- The server drops an object. -/
  | expire (id : Str)
  deriving DecidableEq

/-- What is not enabled. -/
inductive Stop where
  | blocked
  deriving DecidableEq

namespace World

variable {σ : Type}

/-- Handlers in their first state. -/
def start (s : σ) (expire timeout : Nat → Int) : World σ where
  server := s
  handlers k := .new (expire k) (timeout k)

/-- Handler `k` becomes `h`. -/
def put (w : World σ) (k : Nat) (h : Handler) : World σ :=
  { w with handlers := fun j => if j = k then h else w.handlers j }

/-- The server performs request number `n` of connection `k`. -/
def perform (sv : Server σ) (w : World σ) (k n : Nat) (r : Request)
    (inflight : List (Nat × Request)) : World σ :=
  let h := w.handlers k
  let (server, answer) := sv.serve w.server k r
  let replies := h.channel.replies ++
    match answer with
    | some (status, data) => [⟨UInt32.ofNat n, status, data, n⟩]
    | none => []
  { w with server }.put k
    { h with channel := { h.channel with inflight, replies } }

/-- One step. -/
def step (sv : Server σ) (w : World σ) : Act → Except Stop (World σ)
  | .call k c ok =>
      let h := w.handlers k
      if h.closed ∨ h.pc ≠ .idle then .error .blocked
      else .ok (w.put k (h.call ok c))
  | .recv k late ok =>
      let h := w.handlers k
      match h.channel.replies with
      | [] => .error .blocked
      | r :: replies =>
          if h.closed ∨ h.pc = .idle then .error .blocked
          else
            let h := { h with channel := { h.channel with replies } }
            .ok (w.put k (h.recv r late ok))
  | .recvThrows k =>
      let h := w.handlers k
      if h.closed ∨ h.pc = .idle then .error .blocked
      else .ok (w.put k (h.ends .threw))
  | .disconnect k =>
      let h := w.handlers k
      .ok (w.put k { h with closed := true, pc := .idle, granted := [] })
  | .serve k =>
      match (w.handlers k).channel.inflight with
      | [] => .error .blocked
      | (n, r) :: inflight => .ok (w.perform sv k n r inflight)
  | .hangup k =>
      let h := w.handlers k
      if h.closed ∧ h.channel.inflight = [] then
        .ok { w with server := sv.hangup w.server k }
      else .error .blocked
  | .expire id => .ok { w with server := sv.expire w.server id }

/-- A run. -/
def run (sv : Server σ) (w : World σ) (acts : List Act) :
    Except Stop (World σ) :=
  Run.exec (step sv) w acts

end World

-- ============================================================ torn frames

/-- What happens next, where commands may be given up half-way. -/
inductive FrayedAct where
  /-- Every command is sent whole, or throws with nothing of it sent. -/
  | whole (a : Act)
  /-- The command of the step throws with a part of its frame sent. -/
  | tears (a : Act)
  /-- The server reads a request in what follows a torn frame, and answers
  it or not. -/
  | garbled (k : Nat) (r : Request) (replies : List Reply)
  /-- The server gives a connection with a torn frame up. -/
  | dropped (k : Nat)
  deriving DecidableEq

/-- The command of a step that throws: the handler, and the step with the
command sent. -/
def Act.thrown : Act → Option (Nat × Act)
  | .call k c false => some (k, .call k c true)
  | .recv k late false => some (k, .recv k late true)
  | _ => none

/-- The server and all handlers, and the connections with a torn frame. -/
structure Frayed (σ : Type) where
  world : World σ
  torn : Nat → Bool

namespace Frayed

variable {σ : Type}

/-- Handlers in their first state. -/
def start (s : σ) (expire timeout : Nat → Int) : Frayed σ where
  world := .start s expire timeout
  torn _ := false

/-- What was just sent behind a torn frame is no request to the server. -/
def unread (x : Frayed σ) (w : World σ) : World σ :=
  { w with handlers := fun k =>
    let h := w.handlers k
    let before := (x.world.handlers k).channel.inflight
    if x.torn k then
      { h with channel := { h.channel with
        inflight := h.channel.inflight.take before.length } }
    else h }

/-- One step. -/
def step (sv : Server σ) (x : Frayed σ) : FrayedAct → Except Stop (Frayed σ)
  | .whole a => do
      let w ← x.world.step sv a
      .ok { x with world := x.unread w }
  | .tears a =>
      match a.thrown with
      | none => .error .blocked
      | some (k, sent) => do
          let w ← x.world.step sv a
          let w' ← x.world.step sv sent
          if (w'.handlers k).channel.sent = (w.handlers k).channel.sent then
            .error .blocked
          else .ok { world := w, torn := fun j => j = k || x.torn j }
  | .garbled k r replies =>
      let h := x.world.handlers k
      if x.torn k ∧ h.channel.inflight = [] then
        let w := { x.world with server := (sv.serve x.world.server k r).1 }
        .ok { x with world := w.put k { h with
          channel := { h.channel with replies := h.channel.replies ++ replies } } }
      else .error .blocked
  | .dropped k =>
      if x.torn k ∧ (x.world.handlers k).channel.inflight = [] then
        let w := { x.world with server := sv.hangup x.world.server k }
        .ok { x with world := w }
      else .error .blocked

/-- A run. -/
def run (sv : Server σ) (x : Frayed σ) (acts : List FrayedAct) :
    Except Stop (Frayed σ) :=
  Run.exec (step sv) x acts

end Frayed

end Session

end Yrmcds
