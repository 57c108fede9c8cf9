/-
Threads that share one `yrmcds`: any number of them in command-sending
functions, and one in `yrmcds_recv`.

Here a call is not one step but the steps the code makes on what the
threads share: waiting for the mutex, reading and writing `c->serial`,
each `writev` and each `recv`, releasing the mutex. `SendPc` says how far
a thread is in `send_command` and what its local variables hold, `RecvPc`
the same for `yrmcds_recv`; a run performs such steps in any order. The
mutex itself is `owner`: `pthread_mutex_lock` waits until there is none.

The two `while` loops of `yrmcds_recv` differ in what they wait for, so a
`RecvPc` carries the body length once the header has told it.
-/
import Yrmcds.Model.Recv
import Yrmcds.Model.Send

namespace Yrmcds

open Gather Query

-- ============================================================= a sender

/-- Where a thread is. `p` is what it called `send_command` with, `out` is
what it has put into `*serial`. -/
inductive SendPc where
  /-- In no command-sending function. -/
  | idle
  /-- Past the argument checks, at `pthread_mutex_lock`. -/
  | lock (p : Packet)
  /-- About to read `c->serial` for `c->serial + 1`. -/
  | load (p : Packet)
  /-- About to write the sum. -/
  | store (p : Packet) (sum : UInt32)
  /-- At `memcpy(&h[12], &c->serial, 4)`. -/
  | fill (p : Packet)
  /-- At `*serial = c->serial`, with the header filled in. -/
  | report (p : Packet) (header : UInt32)
  /-- In the `writev` loop. -/
  | write (p : Packet) (out : UInt32) (iov : List (List UInt8)) (iovcnt : Nat)
  /-- At `OUT`. -/
  | unlock (p : Packet) (out : UInt32) (ret : Error)

/-- The call a thread has not returned from. -/
def SendPc.packet : SendPc → Option Packet
  | idle => none
  | lock p | load p | store p _ | fill p | report p _ | write p _ _ _
  | unlock p _ _ => some p

/-- A call that has returned: its result, and for a call that got as far
as the mutex what it was to send and what it put into `*serial`. -/
structure Returned (T : Type) where
  thread : T
  result : Error
  sent : Option (Packet × UInt32)

-- =========================================================== the receiver

/-- Where the receiving thread is. -/
inductive RecvPc where
  /-- In no `yrmcds_recv`. -/
  | idle
  /-- At the head of a `while` loop: for the header, or for a packet whose
  header announces so many bytes. -/
  | loop (body : Option Nat)
  /-- At `recv()`. -/
  | again (body : Option Nat)

/-- How much a loop wants in the buffer. -/
def recvTarget : Option Nat → Nat
  | none => BINARY_HEADER_SIZE
  | some totalLen => BINARY_HEADER_SIZE + totalLen

/-- Behind a `while` loop: the checks of the header, or the whole packet. -/
def recvFull (lz : Lz4) : Option Nat → Conn → Kernel →
    Option (RecvPc × Conn × Kernel × Option RecvResult)
  | none, c, k =>
      match run c.recvbuf.answer decodeHeader with
      | none => some (.idle, c.poison, k, some (.err .protocolError))
      | some totalLen => some (.loop (some totalLen), c, k, none)
  | some totalLen, c, k =>
      match recvPacket lz c k totalLen with
      | none => none
      | some (res, c, k) => some (.idle, c, k, some res)

/-- One step of `yrmcds_recv`, and what the call returns if it is the last
one. A step that has to wait is `none`. -/
def recvStep (lz : Lz4) : RecvPc → Conn → Kernel →
    Option (RecvPc × Conn × Kernel × Option RecvResult)
  | .idle, c, k =>
      if c.invalid then some (.idle, c, k, some (.err .protocolError))
      else some (.loop none, c.shiftOut, k, none)
  | .loop body, c, k =>
      if c.used < recvTarget body then
        match growBuf c k with
        | none => none
        | some (none, k) => some (.idle, c, k, some (.err .outOfMemory))
        | some (some c, k) => some (.again body, c, k, none)
      else recvFull lz body c k
  | .again body, c, k =>
      match k.script with
      | .eintr :: script => some (.again body, c, { k with script }, none)
      | _ =>
          match k.recv RECV_SIZE with
          | none => none
          | some (.error, k) => some (.idle, c, k, some (.err .systemError))
          | some (.eof, k) => some (.idle, c, k, some (.err .disconnected))
          | some (.got bs, k) =>
              some (.loop body, { c with
                recvbuf := c.recvbuf.write c.used bs
                used := c.used + bs.length }, k, none)

-- =============================================================== together

/-- A connection and the threads on it. `wire` is what the kernel has
taken over from all of them; `returned` and `results` are what their calls
have returned, in the order in which they did. -/
structure Threads (T : Type) where
  conn : Conn
  owner : Option T
  wire : List UInt8
  senders : T → SendPc
  returned : List (Returned T)
  receiver : RecvPc
  kernel : Kernel
  results : List RecvResult

/-- A step of one of the threads. -/
inductive ThreadAct (T : Type) where
  /-- A command-sending function is called, up to the mutex. -/
  | call (t : T) (request : Request) (malloc : Bool)
  /-- The next step of a sender that is not a `writev`. -/
  | go (t : T)
  /-- A `writev`. -/
  | writev (t : T) (ack : Ack)
  /-- The next step of the receiver. -/
  | recv

/-- The step is not the next one of its thread, or has to wait. -/
inductive Blocked where
  | blocked

namespace Threads

variable {T : Type} [DecidableEq T]

/-- Nobody has called anything yet. -/
def start (c : Conn) (k : Kernel) : Threads T where
  conn := c
  owner := none
  wire := []
  senders _ := .idle
  returned := []
  receiver := .idle
  kernel := k
  results := []

/-- A sender moves on. -/
def goto (w : Threads T) (t : T) (pc : SendPc) : Threads T :=
  { w with senders := fun u => if u = t then pc else w.senders u }

/-- A call returns. -/
def return_ (w : Threads T) (r : Returned T) : Threads T :=
  { w with returned := w.returned ++ [r] }

/-- A command-sending function up to the mutex. -/
def call (lz : Lz4) (w : Threads T) (t : T) (request : Request)
    (malloc : Bool) : Threads T :=
  match request.packet lz w.conn malloc with
  | .error e => w.return_ ⟨t, e, none⟩
  | .ok p =>
      if p.rejected then w.return_ ⟨t, .badArgument, none⟩
      else w.goto t (.lock p)

/-- The steps of `send_command` between the mutex and the `writev` loop,
and the one that releases the mutex. -/
def go (w : Threads T) (t : T) : Except Blocked (Threads T) :=
  match w.senders t with
  | .lock p =>
      if w.owner.isNone then .ok { w.goto t (.load p) with owner := some t }
      else .error .blocked
  | .load p => .ok (w.goto t (.store p (w.conn.serial + 1)))
  | .store p sum =>
      .ok { w.goto t (.fill p) with conn := { w.conn with serial := sum } }
  | .fill p => .ok (w.goto t (.report p w.conn.serial))
  | .report p header =>
      let iov := p.iov header
      .ok (w.goto t (.write p w.conn.serial
        (iov ++ List.replicate (4 - iov.length) []) iov.length))
  | .write p out _ 0 => .ok (w.goto t (.unlock p out .ok))
  | .unlock p out ret =>
      .ok { w.goto t .idle with
        owner := none
        returned := w.returned ++ [⟨t, ret, some (p, out)⟩] }
  | _ => .error .blocked

/-- A round of the `writev` loop. -/
def writev (w : Threads T) (t : T) (ack : Ack) : Except Blocked (Threads T) :=
  match w.senders t, ack with
  | .write _ _ _ (_ + 1), .again => .ok w
  | .write p out _ (_ + 1), .refused =>
      .ok (w.goto t (.unlock p out .systemError))
  | .write p out iov (iovcnt + 1), .took n =>
      let offered := (iov.take (iovcnt + 1)).flatten
      if 0 < n ∧ n ≤ offered.length then
        match advance iov (iovcnt + 1) n with
        | none => .error .blocked
        | some (iov, iovcnt) =>
            .ok { w.goto t (.write p out iov iovcnt) with
              wire := w.wire ++ offered.take n }
      else .error .blocked
  | _, _ => .error .blocked

/-- A step of the receiver. -/
def recv (lz : Lz4) (w : Threads T) : Except Blocked (Threads T) :=
  match recvStep lz w.receiver w.conn w.kernel with
  | none => .error .blocked
  | some (receiver, conn, kernel, result) =>
      .ok { w with receiver, conn, kernel, results := w.results ++ result.toList }

/-- One step of one thread. -/
def step (lz : Lz4) (w : Threads T) : ThreadAct T → Except Blocked (Threads T)
  | .call t request malloc =>
      match w.senders t with
      | .idle => .ok (w.call lz t request malloc)
      | _ => .error .blocked
  | .go t => w.go t
  | .writev t ack => w.writev t ack
  | .recv => w.recv lz

end Threads

end Yrmcds
