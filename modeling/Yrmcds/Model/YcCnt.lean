/-
`yc-cnt.c`: the command line tool of the counter extension.

Each of the six commands sends its request, receives until a response
carries the serial of the request (`recvOrDie`), and prints what the
response says. `dump` goes on until a response has no body.

# Outside the process

The peer and the kernel are those of the other tool (`Yc.Peer`). A process
that does not exit has no result: it is still blocked.

# Undefined behaviour

`cmd_stats` looks at the statistics of a response that has none when the
peer answers with another command, and the text of a refusal of 2 GiB and
more is printed without a bound. Such a process is `undefined`.

# Left out

What goes to standard error; the options, which `getopt` has taken; and
`yrmcds_cnt_set_timeout`, whose result nothing reads.
-/
import Yrmcds.Lib.Source
import Yrmcds.Model.CounterRecv
import Yrmcds.Model.Yc

namespace Yrmcds

open Gather
open Yc (text)

namespace YcCnt

/-- What the kernel and the allocators answer to one process. -/
structure Answers where
  server : Except Error Int
  malloc : Option Mem
  request : List Ack
  recv : List Answer
  realloc : StatsRealloc

/-- How a process ends. -/
inductive Ending where
  | exited (e : Yc.Exit)
  | undefined
  deriving DecidableEq

-- =============================================================== printing

/-- `PRIu32`. -/
def decimal (n : UInt32) : List UInt8 := ascii (toString n.toNat)

/-- A hexadecimal digit. -/
def hexDigit (n : Nat) : UInt8 :=
  if n < 10 then UInt8.ofNat (48 + n) else UInt8.ofNat (87 + n)

/-- `%02x` of a byte. -/
def hex02 (n : UInt8) : List UInt8 := [hexDigit (n.toNat / 16), hexDigit (n.toNat % 16)]

/-- `printf("ERROR: %02x %.*s\n", ..)` and `exit(2)`. -/
def refused (out : List UInt8) (r : CntResponse) : Ending :=
  if r.body.length > INT_MAX then .undefined
  else .exited ⟨2, out ++ (ascii "ERROR: " ++ hex02 r.status ++ [32]
    ++ text r.body ++ [10])⟩

-- ============================================================== receiving

/-- `yrmcds_cnt_recv`, on a connection and its kernel. -/
def nextResponse (realloc : StatsRealloc) :
    Source.Next (CntReceiver × Kernel) Error CntResponse := fun x =>
  yrmcdsCntRecv realloc x.1 x.2

/-- `recv_or_die`. -/
def recvOrDie (realloc : StatsRealloc) (serial : UInt32) (fuel : Nat) :
    Source.Next (CntReceiver × Kernel) Error CntResponse :=
  Source.find (fun r => r.serial == serial) (nextResponse realloc) fuel

/-- A call of a command function that is given `&serial`: the serial and
the bytes written. -/
def ask (c : CntConn) (request : CntRequest) (acks : List Ack) :
    Option (Except Error (UInt32 × List UInt8)) :=
  let sent := CntSendCall.exec c ⟨request, acks⟩
  match sent.result with
  | none => none
  | some .ok => some (.ok (sent.serial.getD 0, sent.written))
  | some e => some (.error e)

/-- A command up to its responses, which `answer` receives. Each response
takes at least a byte from what is still to come, which bounds the rounds
of every loop. -/
def command (peer : Yc.Peer) (request : CntRequest)
    (answer : Nat → Source.Next (CntReceiver × Kernel) Error CntResponse →
      CntReceiver × Kernel → Option Ending)
    (c : CntConn × CntReceiver) (a : Answers) : Option Ending :=
  match ask c.1 request a.request with
  | none => none
  | some (.error _) => some (.exited ⟨1, []⟩)
  | some (.ok (serial, written)) =>
      let stream := peer written
      let fuel := c.2.buf.used + stream.length + 1
      answer fuel (recvOrDie a.realloc serial fuel) (c.2, ⟨stream, a.recv⟩)

-- =============================================================== commands

/-- A command with one response. -/
def once (shown : CntResponse → Ending) (_ : Nat)
    (next : Source.Next (CntReceiver × Kernel) Error CntResponse)
    (x : CntReceiver × Kernel) : Option Ending :=
  Source.once next (fun _ => .exited ⟨1, []⟩)
    (fun r => if r.status = CNT_STATUS_OK then shown r else refused [] r) x

/-- `for(;;) { recv_or_die(..); .. }` of `cmd_dump`. -/
def dumpBody (out : List UInt8) (r : CntResponse) :
    Except Ending (List UInt8) :=
  if r.status ≠ CNT_STATUS_OK then .error (refused out r)
  else if r.body.length = 0 then .error (.exited ⟨0, out⟩)
  else .ok (out ++ (decimal r.currentConsumption ++ [32]
    ++ decimal r.maxConsumption ++ [32] ++ text r.name ++ [10]))

/-- A command with a response for each record. -/
def each (fuel : Nat)
    (next : Source.Next (CntReceiver × Kernel) Error CntResponse)
    (x : CntReceiver × Kernel) : Option Ending :=
  (Source.loop next (fun out _ => .exited ⟨1, out⟩) dumpBody fuel [] x).map
    Prod.fst

/-- What `noop` and `release` print. -/
def shownOk (_ : CntResponse) : Ending := .exited ⟨0, ascii "OK\n"⟩

/-- The lines of `cmd_stats`. -/
def statLine (stat : CntStat) : List UInt8 :=
  text stat.name ++ [32] ++ text stat.value ++ [10]

/-- What `stats` prints: `r.stats->count`, and a line for each record. -/
def shownStats (r : CntResponse) : Ending :=
  match r.stats with
  | none => .undefined
  | some stats => .exited ⟨0, stats.flatMap statLine⟩

section Commands

variable (peer : Yc.Peer)

/-- `cmd_noop`. -/
def cmdNoop := command peer .noop (once shownOk)

/-- `cmd_get`. -/
def cmdGet (name : List UInt8) := command peer (.get (.buf name))
  (once fun r => .exited ⟨0, decimal r.currentConsumption ++ [10]⟩)

/-- `cmd_acquire`. -/
def cmdAcquire (name : List UInt8) (resources initial : UInt32) :=
  command peer (.acquire (.buf name) resources initial)
    (once fun r => .exited ⟨0, decimal r.resources ++ [10]⟩)

/-- `cmd_release`. -/
def cmdRelease (name : List UInt8) (resources : UInt32) :=
  command peer (.release (.buf name) resources) (once shownOk)

/-- `cmd_stats`. -/
def cmdStats := command peer .stats (once shownStats)

/-- `cmd_dump`. -/
def cmdDump := command peer .dump each

end Commands

-- =================================================================== main

/-- `sscanf(s, "%" PRIu32, &n) == 1`, with the number of `strtoul` cut to
32 bits. -/
def scanUInt32 (s : List UInt8) : Option UInt32 :=
  let s := s.dropWhile fun ch => ch = 32 ∨ (9 ≤ ch ∧ ch ≤ 13)
  let minus := s.headD 0 = 45
  let s := if minus ∨ s.headD 0 = 43 then s.tail else s
  match (s.head?.bind Yc.digitValue).filter (· < 10) with
  | none => none
  | some _ =>
      let n := Yc.readDigits 10 0 s
      some (UInt32.ofNat
        (if n > Yc.ULLONG_MAX then Yc.ULLONG_MAX
         else if minus then (2 ^ 64 - n) % 2 ^ 64
         else n))

/-- The commands, with the arguments `main` has read. -/
inductive Cmd where
  | noop
  | get (name : List UInt8)
  | acquire (name : List UInt8) (resources initial : UInt32)
  | release (name : List UInt8) (resources : UInt32)
  | stats
  | dump

/-- The arguments of `main` from `optind` on; `none` is an error. -/
def parseArgs : List (List UInt8) → Option Cmd
  | [] => none
  | cmd :: args =>
      if cmd = ascii "noop" then
        match args with
        | [] => some .noop
        | _ => none
      else if cmd = ascii "get" then
        match args with
        | [name] => some (.get name)
        | _ => none
      else if cmd = ascii "acquire" then
        match args with
        | [name, resources, initial] => do
            let resources ← scanUInt32 resources
            let initial ← scanUInt32 initial
            return .acquire name resources initial
        | _ => none
      else if cmd = ascii "release" then
        match args with
        | [name, resources] => do
            let resources ← scanUInt32 resources
            return .release name resources
        | _ => none
      else if cmd = ascii "stats" then
        match args with
        | [] => some .stats
        | _ => none
      else if cmd = ascii "dump" then
        match args with
        | [] => some .dump
        | _ => none
      else none

/-- A command on the connection of the process. -/
def Cmd.exec (peer : Yc.Peer) :
    Cmd → CntConn × CntReceiver → Answers → Option Ending
  | noop => cmdNoop peer
  | get name => cmdGet peer name
  | acquire name resources initial => cmdAcquire peer name resources initial
  | release name resources => cmdRelease peer name resources
  | stats => cmdStats peer
  | dump => cmdDump peer

/-- `main`. -/
def main (peer : Yc.Peer) (argv : List (List UInt8)) (a : Answers) :
    Option Ending :=
  if argv = [] then some (.exited ⟨1, []⟩)
  else
    match yrmcdsCntConnect a.server a.malloc with
    | .error _ => some (.exited ⟨1, []⟩)
    | .ok c =>
        match parseArgs argv with
        | none => some (.exited ⟨1, []⟩)
        | some cmd => cmd.exec peer c a

end YcCnt

end Yrmcds
