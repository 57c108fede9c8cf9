/-
`yc.c`: the retrievals of the command line tool.

A retrieval sends its request, with `-q` a quiet one and a `Noop` behind
it, receives until the serial it holds comes back, and writes the data of
the response it holds then. `main` is here from the parsed options on.

# Outside the process

What the peer has sent by the time a retrieval receives is a function of
the bytes sent to it (`Peer`); the kernel and the allocator answer from
scripts (`Answers`). A process that does not exit has no result: it is
still blocked.

# Left out

What goes to standard error: the error texts, the dumps of `-d` and the
prompt of `lag` and `lagk`. These two wait for a line behind
the prompt, with everything written.
-/
import Yrmcds.Model.Recv
import Yrmcds.Model.Send

namespace Yrmcds

open Gather

namespace Yc

/-- A peer: the bytes sent to it, and what it sends back. -/
abbrev Peer := List UInt8 → List UInt8

/-- What the kernel and the allocator answer to one process. -/
structure Answers where
  server : Except Error Int
  malloc : Option Mem
  request : List Ack
  noop : List Ack
  recv : List Answer
  stdout : List Ack

/-- The exit status of a process and its standard output. -/
structure Exit where
  status : Nat
  stdout : List UInt8
  deriving DecidableEq

/-- `ULLONG_MAX`. -/
def ULLONG_MAX : Nat := 2 ^ 64 - 1

/-- The value of a digit, letters counting from ten. -/
def digitValue (ch : UInt8) : Option Nat :=
  if 48 ≤ ch ∧ ch ≤ 57 then some (ch.toNat - 48)
  else if 97 ≤ ch ∧ ch ≤ 122 then some (ch.toNat - 87)
  else if 65 ≤ ch ∧ ch ≤ 90 then some (ch.toNat - 55)
  else none

/-- The digits of a base at the front of a string, behind `n`. -/
def readDigits (base : Nat) : Nat → List UInt8 → Nat
  | n, [] => n
  | n, ch :: s =>
      match digitValue ch with
      | none => n
      | some d => if d < base then readDigits base (n * base + d) s else n

/-- `strtoull(s, NULL, 0)`: white space, a sign, and a number whose base
its first characters tell. -/
def strtoull (s : List UInt8) : Nat :=
  let s := s.dropWhile fun ch => ch = 32 ∨ (9 ≤ ch ∧ ch ≤ 13)
  let minus := s.headD 0 = 45
  let s := if minus ∨ s.headD 0 = 43 then s.tail else s
  let n :=
    if s.headD 0 = 48 then
      -- without a digit behind it `0x` is a zero, as the octal reading is
      if s.getD 1 0 = 120 ∨ s.getD 1 0 = 88 then
        readDigits 16 0 (s.drop 2)
      else readDigits 8 0 s
    else readDigits 10 0 s
  if n > ULLONG_MAX then ULLONG_MAX
  else if minus then (2 ^ 64 - n) % 2 ^ 64
  else n

/-- `%.*s`, where the bytes are as many as the precision says. -/
def text (s : List UInt8) : List UInt8 := s.takeWhile fun ch => ch ≠ 0

-- ============================================================== requests

/-- What sending has come to: the connection, `serial`, and the bytes
written so far. -/
structure Requested where
  conn : Conn
  serial : UInt32
  written : List UInt8

/-- A call of a command function that is given `&serial`. -/
def ask (lz : Lz4) (c : Conn) (request : Request) (acks : List Ack) :
    Option (Except Error Requested) :=
  let sent := SendCall.exec lz c ⟨request, true, acks⟩
  match sent.result with
  | none => none
  | some .ok => some (.ok ⟨sent.conn, sent.serial.getD 0, sent.written⟩)
  | some e => some (.error e)

/-- The request, and behind it `if( quiet ) { e = yrmcds_noop(s, &serial); }`. -/
def sendRequests (lz : Lz4) (quiet : Bool) (request : Request) (c : Conn)
    (a : Answers) : Option (Except Error Requested) :=
  match ask lz c request a.request with
  | some (.ok first) =>
      if quiet then
        match ask lz first.conn .noop a.noop with
        | some (.ok noop) =>
            some (.ok { noop with written := first.written ++ noop.written })
        | r => r
      else some (.ok first)
  | r => r

-- ============================================================= responses

/-- `while( 1 ) { e = yrmcds_recv(s, r); .. }` with its `CHECK_ERROR` and
`CHECK_RESPONSE`: the response it is left with, or the exit status. -/
def recvLoop (lz : Lz4) (serial : UInt32) :
    Nat → Conn → Kernel → Option (Except Nat Response)
  | 0, _, _ => none
  | fuel + 1, c, k =>
      match yrmcdsRecv lz c k with
      | none => none
      | some (.err _, _, _) => some (.error 2)
      | some (.ok r, c, k) =>
          if r.status ≠ Status.ok then some (.error 3)
          else if r.serial = serial then some (.ok r)
          else recvLoop lz serial fuel c k

/-- `write_data`, by what `write()` takes of standard output; any other
answer is -1. -/
def writeData : List Ack → List UInt8 → Option (List UInt8)
  | _, [] => some []
  | [], _ :: _ => none
  | .took n :: acks, b :: bs =>
      if n ≤ (b :: bs).length then
        (writeData acks ((b :: bs).drop n)).map ((b :: bs).take n ++ ·)
      else none
  | _ :: _, _ :: _ => some []

-- ============================================================== commands

/-- What the retrievals share. Each response takes at least a byte from
what is received or still to come, which bounds the rounds of the loop. -/
def retrieve (lz : Lz4) (peer : Peer) (quiet : Bool) (request : Request)
    (c : Conn) (a : Answers) : Option Exit :=
  match sendRequests lz quiet request c a with
  | none => none
  | some (.error _) => some ⟨2, []⟩
  | some (.ok sent) =>
      let stream := peer sent.written
      match recvLoop lz sent.serial (sent.conn.used + stream.length + 1)
          sent.conn ⟨stream, a.recv⟩ with
      | none => none
      | some (.error status) => some ⟨status, []⟩
      | some (.ok r) => (writeData a.stdout r.data).map fun out => ⟨0, out⟩

/-- A retrieval by `KEY`. -/
def retrieveKey (lz : Lz4) (peer : Peer) (quiet : Bool)
    (request : Ptr → Request) (argv : List (List UInt8)) (c : Conn)
    (a : Answers) : Option Exit :=
  match argv with
  | [key] => retrieve lz peer quiet (request (.buf key)) c a
  | _ => some ⟨1, []⟩

/-- A retrieval by `KEY EXPIRE`. -/
def retrieveTouch (lz : Lz4) (peer : Peer) (quiet : Bool)
    (request : Ptr → UInt32 → Request) (argv : List (List UInt8)) (c : Conn)
    (a : Answers) : Option Exit :=
  match argv with
  | [key, expire] =>
      retrieve lz peer quiet
        (request (.buf key) (UInt32.ofNat (strtoull expire))) c a
  | _ => some ⟨1, []⟩

section Commands

variable (lz : Lz4) (peer : Peer) (quiet : Bool)

/-- `cmd_get`. -/
def cmdGet := retrieveKey lz peer quiet fun key => .get key quiet

/-- `cmd_getk`. -/
def cmdGetk := retrieveKey lz peer quiet fun key => .getk key quiet

/-- `cmd_gat`. -/
def cmdGat := retrieveTouch lz peer quiet fun key expire =>
  .getTouch key expire quiet

/-- `cmd_gatk`. -/
def cmdGatk := retrieveTouch lz peer quiet fun key expire =>
  .getkTouch key expire quiet

/-- `cmd_lag`. -/
def cmdLag := retrieveKey lz peer quiet fun key => .lockGet key quiet

/-- `cmd_lagk`. -/
def cmdLagk := retrieveKey lz peer quiet fun key => .lockGetk key quiet

end Commands

/-- The retrievals among the commands. -/
inductive Retrieve where
  | get | getk | gat | gatk | lag | lagk
  deriving DecidableEq

/-- `do_cmd`. -/
def Retrieve.exec (lz : Lz4) (peer : Peer) (quiet : Bool) :
    Retrieve → List (List UInt8) → Conn → Answers → Option Exit
  | get => cmdGet lz peer quiet
  | getk => cmdGetk lz peer quiet
  | gat => cmdGat lz peer quiet
  | gatk => cmdGatk lz peer quiet
  | lag => cmdLag lz peer quiet
  | lagk => cmdLagk lz peer quiet

/-- `main`, with the options as `getopt` has left them. -/
def main (lz : Lz4) (peer : Peer) (quiet : Bool) (compression : Nat)
    (cmd : Retrieve) (argv : List (List UInt8)) (a : Answers) : Option Exit :=
  match yrmcdsConnect a.server a.malloc with
  | .error _ => some ⟨2, []⟩
  | .ok c =>
      let (e, c) := yrmcdsSetCompression c compression
      if e ≠ .ok ∧ e ≠ .notImplemented then some ⟨2, []⟩
      else cmd.exec lz peer quiet argv c a

end Yc

end Yrmcds
