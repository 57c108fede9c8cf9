/-
`yc.c`: the commands of the command line tool that `Yc` does not have, and
`main` with all of them.

A command looks at its arguments and has a plan then: the request it sends,
with `-q` a quiet one and a `Noop` behind it, and how it receives (`Plan`).
Most receive until the serial they hold comes back (`awaited`). `noop`,
`version` and `quit` receive once (`single`), `stat` and `keys` until a
response without a key (`statBody`, `keysBody`). Every response is checked
before anything else is done with it (`checked`).

# Undefined behaviour

None is left: a key and data are no longer than an `int` can say, so that
`%.*s` stays inside them.

# Left out

What goes to standard error, and the wait of `lock` for a line behind its
prompt.
-/
import Yrmcds.Lib.Source
import Yrmcds.Model.Yc

namespace Yrmcds

open Gather

namespace Yc

/-- What is outside a process of any command: in addition `FILE`, which is
`none` where `open()` fails, and whether `send_data` gets its memory. -/
structure Setting extends Answers where
  file : Option Kernel
  block : Bool

-- ================================================================= files

/-- `1 << 20`. -/
def READ_SIZE : Nat := 2 ^ 20

/-- `read()` of a file: the bytes, none of them at its end, or -1. -/
def readFile (k : Kernel) (len : Nat) : Option (Option (List UInt8) × Kernel) :=
  match k.script with
  | .bytes n :: script =>
      if 0 < n ∧ n ≤ len ∧ n ≤ k.stream.length then
        some (some (k.stream.take n), ⟨k.stream.drop n, script⟩)
      else none
  | .eof :: script =>
      if k.stream = [] then some (some [], { k with script }) else none
  | .eintr :: script => some (none, { k with script })
  | .error :: script => some (none, { k with script })
  | _ => none

/-- `if( (capacity - data_len) < (1 << 20) ) { .. }`: the new capacity;
`none` inside is a failed `realloc`. -/
def growData (capacity dataLen : Nat) (k : Kernel) :
    Option (Option Nat × Kernel) :=
  if capacity - dataLen < READ_SIZE then
    match k.alloc with
    | none => none
    | some (none, k) => some (none, k)
    | some (some _, k) => some (some (capacity * 2), k)
  else some (some capacity, k)

/-- `while( 1 ) { .. }` of `read_data`; `none` inside is a `NULL` in
`pdata`. -/
def readLoop : Nat → Nat → List UInt8 → Kernel → Option (Option (List UInt8))
  | 0, _, _, _ => none
  | fuel + 1, capacity, data, k =>
      match growData capacity data.length k with
      | none => none
      | some (none, _) => some none
      | some (some capacity, k) =>
          match readFile k READ_SIZE with
          | none => none
          | some (none, _) => some none
          | some (some bs, k) =>
              if bs = [] then some (some data)
              else readLoop fuel capacity (data ++ bs) k

/-- `read_data`. Each round uses up an answer. -/
def readData : Option Kernel → Option (Option (List UInt8))
  | none => some none
  | some k =>
      match k.alloc with
      | none => none
      | some (none, _) => some none
      | some (some _, k) => readLoop (k.script.length + 1) READ_SIZE [] k

-- ================================================================ sending

/-- A call of a command function that is given `&serial`. -/
def send (lz : Lz4) (block : Bool) (c : Conn) (request : Request)
    (acks : List Ack) : Option (Except Error Requested) :=
  let sent := SendCall.exec lz c ⟨request, block, acks⟩
  match sent.result with
  | none => none
  | some .ok => some (.ok ⟨sent.conn, sent.serial.getD 0, sent.written⟩)
  | some e => some (.error e)

/-- The request, and behind it `if( quiet ) { e = yrmcds_noop(s, &serial); }`. -/
def sendAll (lz : Lz4) (quiet : Bool) (request : Request) (c : Conn)
    (a : Setting) : Option (Except Error Requested) :=
  match send lz a.block c request a.request with
  | some (.ok sent) =>
      if quiet then
        match send lz a.block sent.conn .noop a.noop with
        | some (.ok noop) =>
            some (.ok { noop with written := sent.written ++ noop.written })
        | r => r
      else some (.ok sent)
  | r => r

-- ============================================================== receiving

/-- `yrmcds_recv`, on a connection and its kernel. -/
def nextResponse (lz : Lz4) : Source.Next (Conn × Kernel) Error Response :=
  fun x =>
    match yrmcdsRecv lz x.1 x.2 with
    | none => none
    | some (.ok r, x) => some (.ok r, x)
    | some (.err e, x) => some (.error e, x)

/-- What a command does with a response behind what it has printed. It ends
with an exit, or with `none` where standard output blocks. -/
abbrev Body : Type := List UInt8 → Response → Except (Option Exit) (List UInt8)

/-- `CHECK_RESPONSE`. -/
def checked (body : Body) : Body := fun out r =>
  if r.status ≠ Status.ok then .error (some ⟨3, out⟩) else body out r

/-- `if( r->serial == serial ) break;`, and what is printed behind the
loop. -/
def awaited (shown : Response → Option (List UInt8)) (serial : UInt32) : Body :=
  checked fun out r =>
    if r.serial = serial then .error ((shown r).map fun bs => ⟨0, out ++ bs⟩)
    else .ok out

/-- The loop of `cmd_stat`. -/
def statBody : Body :=
  checked fun out r =>
    if r.key.length = 0 then .error (some ⟨0, out⟩)
    else if r.data.length = 0 then .ok out
    else .ok (out ++ (text r.key ++ ascii ": " ++ text r.data ++ [10]))

/-- The loop of `cmd_keys`. -/
def keysBody (serial : UInt32) : Body :=
  checked fun out r =>
    if r.serial ≠ serial then .ok out
    else if r.key.length = 0 then .error (some ⟨0, out⟩)
    else .ok (out ++ (text r.key ++ [10]))

/-- A failed call: `CHECK_ERROR`. -/
def failed (out : List UInt8) (_ : Error) : Option Exit := some ⟨2, out⟩

-- ============================================================== commands

/-- How a command receives: the rounds it may take, and its serial. -/
abbrev Receiving : Type :=
  Nat → UInt32 → Conn × Kernel → Option (Option Exit)

/-- `while( 1 ) { e = yrmcds_recv(s, r); .. }`. -/
def looped (lz : Lz4) (body : UInt32 → Body) : Receiving :=
  fun fuel serial x =>
    (Source.loop (nextResponse lz) failed (body serial) fuel [] x).map Prod.fst

/-- `e = yrmcds_recv(s, r); ..`, once. -/
def single (lz : Lz4) (shown : Response → List UInt8) : Receiving :=
  fun _ _ x =>
    Source.once (nextResponse lz) (failed [])
      (fun r => if r.status ≠ Status.ok then some ⟨3, []⟩
        else some ⟨0, shown r⟩) x

/-- What a command does behind its arguments: its request, whether a `Noop`
follows, and how it receives. -/
structure Plan where
  request : Request
  noop : Bool
  receive : Receiving

/-- The arguments of a command: the plan, or the exit status; `none` where
it is blocked in front of `FILE`. -/
abbrev Planned : Type := Option (Except Nat Plan)

/-- A command behind its arguments. Each response takes at least a byte
from what is received or still to come, which bounds the rounds. -/
def Plan.run (lz : Lz4) (peer : Peer) (plan : Plan) (c : Conn) (a : Setting) :
    Option Exit :=
  match sendAll lz plan.noop plan.request c a with
  | none => none
  | some (.error _) => some ⟨2, []⟩
  | some (.ok sent) =>
      let stream := peer sent.written
      (plan.receive (sent.conn.used + stream.length + 1) sent.serial
        (sent.conn, ⟨stream, a.recv⟩)).join

/-- What a command has written when it receives. -/
def Plan.written (lz : Lz4) (plan : Plan) (c : Conn) (a : Setting) :
    Option (List UInt8) :=
  match sendAll lz plan.noop plan.request c a with
  | some (.ok sent) => some sent.written
  | _ => none

/-- Wrong arguments, or a file that cannot be read. -/
def refuse (status : Nat) : Planned := some (.error status)

/-- `(uint32_t)strtoull(s, NULL, 0)`. -/
def number32 (s : List UInt8) : UInt32 := UInt32.ofNat (strtoull s)

/-- `(uint64_t)strtoull(s, NULL, 0)`. -/
def number64 (s : List UInt8) : UInt64 := UInt64.ofNat (strtoull s)

/-- Nothing is printed. -/
def silent : Response → Option (List UInt8) := fun _ => some []

/-- `printf("%" PRIu64 "\n", r->value)`. -/
def valueLine (r : Response) : Option (List UInt8) :=
  some (ascii (toString r.value.toNat) ++ [10])

section Commands

variable (lz : Lz4) (quiet : Bool)

/-- What most commands do behind their arguments. -/
def change (request : Request) (shown : Response → Option (List UInt8)) :
    Planned :=
  some (.ok ⟨request, quiet, looped lz (awaited shown)⟩)

/-- What the commands share that have a `FILE`. -/
def withData (file : Option Kernel) (plan : List UInt8 → Planned) : Planned :=
  match readData file with
  | none => none
  | some none => refuse 2
  | some (some data) => plan data

/-- The commands that store `FILE`, with at most `most` arguments. -/
def store (most : Nat)
    (request : Ptr → Ptr → UInt32 → UInt32 → UInt64 → Request)
    (argv : List (List UInt8)) (file : Option Kernel) : Planned :=
  if argv.length < 2 ∨ most < argv.length then refuse 1
  else
    withData file fun data =>
      let expire := (argv[2]?.map number32).getD 0
      let flags := (argv[3]?.map number32).getD 0
      let cas := (argv[4]?.map number64).getD 0
      change lz quiet
        (request (.buf (argv.headD [])) (.buf data) flags expire cas) silent

/-- `incr` and `decr`. -/
def count (request : Ptr → UInt64 → Request)
    (request2 : Ptr → UInt64 → UInt64 → UInt32 → Request)
    (argv : List (List UInt8)) : Planned :=
  match argv with
  | [key, value] =>
      change lz quiet (request (.buf key) (number64 value)) valueLine
  | [key, value, initial] =>
      change lz quiet
        (request2 (.buf key) (number64 value) (number64 initial) 0) valueLine
  | [key, value, initial, expire] =>
      change lz quiet
        (request2 (.buf key) (number64 value) (number64 initial)
          (number32 expire)) valueLine
  | _ => refuse 1

/-- `append` and `prepend`. -/
def concat (request : Ptr → Ptr → Request) (argv : List (List UInt8))
    (file : Option Kernel) : Planned :=
  match argv with
  | [key, _] =>
      withData file fun data =>
        change lz quiet (request (.buf key) (.buf data)) silent
  | _ => refuse 1

/-- A command by `KEY`. -/
def keyed (request : Ptr → Request) (shown : Response → Option (List UInt8))
    (argv : List (List UInt8)) : Planned :=
  match argv with
  | [key] => change lz quiet (request (.buf key)) shown
  | _ => refuse 1

/-- `cmd_noop`. -/
def cmdNoop (_ : List (List UInt8)) : Planned :=
  some (.ok ⟨.noop, false, single lz fun _ => ascii "OK\n"⟩)

/-- `cmd_touch`. -/
def cmdTouch (argv : List (List UInt8)) : Planned :=
  match argv with
  | [key, expire] =>
      change lz quiet (.touch (.buf key) (number32 expire) quiet) silent
  | _ => refuse 1

/-- `cmd_set`. -/
def cmdSet := store lz quiet 5 fun key data flags expire cas =>
  .set key data flags expire cas quiet

/-- `cmd_replace`. -/
def cmdReplace := store lz quiet 5 fun key data flags expire cas =>
  .replace key data flags expire cas quiet

/-- `cmd_add`. -/
def cmdAdd := store lz quiet 5 fun key data flags expire cas =>
  .add key data flags expire cas quiet

/-- `cmd_rau`. -/
def cmdRau := store lz quiet 4 fun key data flags expire _ =>
  .replaceUnlock key data flags expire quiet

/-- `cmd_incr`. -/
def cmdIncr := count lz quiet (fun key value => .incr key value quiet)
  fun key value initial expire => .incr2 key value initial expire quiet

/-- `cmd_decr`. -/
def cmdDecr := count lz quiet (fun key value => .decr key value quiet)
  fun key value initial expire => .decr2 key value initial expire quiet

/-- `cmd_append`. -/
def cmdAppend := concat lz quiet fun key data => .append key data quiet

/-- `cmd_prepend`. -/
def cmdPrepend := concat lz quiet fun key data => .prepend key data quiet

/-- `cmd_delete` writes the data of the response. -/
def cmdDelete (stdout : List Ack) :=
  keyed lz quiet (fun key => .remove key quiet)
    fun r => writeData stdout r.data

/-- `cmd_lock`. -/
def cmdLock := keyed lz quiet (fun key => .lock key quiet) silent

/-- `cmd_unlock`. -/
def cmdUnlock := keyed lz quiet (fun key => .unlock key quiet) silent

/-- `cmd_unlockall`. -/
def cmdUnlockall (_ : List (List UInt8)) : Planned :=
  change lz quiet (.unlockall quiet) silent

/-- `cmd_flush`. -/
def cmdFlush (argv : List (List UInt8)) : Planned :=
  let delay :=
    match argv with
    | [delay] => number32 delay
    | _ => 0
  change lz quiet (.flush delay quiet) silent

/-- The request of `cmd_stat`; `none` is an unknown name. -/
def statRequest : List (List UInt8) → Option Request
  | [] => some .statGeneral
  | name :: _ =>
      if name = ascii "settings" then some .statSettings
      else if name = ascii "items" then some .statItems
      else if name = ascii "sizes" then some .statSizes
      else none

/-- `cmd_stat`. -/
def cmdStat (argv : List (List UInt8)) : Planned :=
  match statRequest argv with
  | none => refuse 1
  | some request => some (.ok ⟨request, false, looped lz fun _ => statBody⟩)

/-- The prefix of `cmd_keys`. -/
def keysPrefix : List (List UInt8) → Ptr
  | [keyPrefix] => .buf keyPrefix
  | _ => .none

/-- `cmd_keys`. -/
def cmdKeys (argv : List (List UInt8)) : Planned :=
  some (.ok ⟨.keys (keysPrefix argv), false, looped lz keysBody⟩)

/-- `cmd_version`. -/
def cmdVersion (_ : List (List UInt8)) : Planned :=
  some (.ok ⟨.version, false, single lz fun r => text r.data ++ [10]⟩)

/-- `cmd_quit` does not receive behind a quiet request. -/
def cmdQuit (_ : List (List UInt8)) : Planned :=
  some (.ok ⟨.quit quiet, false,
    if quiet then fun _ _ _ => some (some ⟨0, []⟩)
    else single lz fun _ => []⟩)

end Commands

-- =================================================================== main

/-- The commands that are no retrievals. -/
inductive Cmd where
  | noop | touch | set | replace | add | rau | incr | decr | append | prepend
  | delete | lock | unlock | unlockall | flush | stat | keys | version | quit
  deriving DecidableEq

/-- The names of the commands. -/
def commands : List (List UInt8 × (Retrieve ⊕ Cmd)) :=
  [(ascii "noop", .inr .noop), (ascii "get", .inl .get),
    (ascii "getk", .inl .getk), (ascii "gat", .inl .gat),
    (ascii "gatk", .inl .gatk), (ascii "lag", .inl .lag),
    (ascii "lagk", .inl .lagk), (ascii "touch", .inr .touch),
    (ascii "set", .inr .set), (ascii "replace", .inr .replace),
    (ascii "add", .inr .add), (ascii "rau", .inr .rau),
    (ascii "incr", .inr .incr), (ascii "decr", .inr .decr),
    (ascii "append", .inr .append), (ascii "prepend", .inr .prepend),
    (ascii "delete", .inr .delete), (ascii "lock", .inr .lock),
    (ascii "unlock", .inr .unlock), (ascii "unlockall", .inr .unlockall),
    (ascii "flush", .inr .flush), (ascii "stat", .inr .stat),
    (ascii "keys", .inr .keys), (ascii "version", .inr .version),
    (ascii "quit", .inr .quit)]

/-- A command up to its first request. -/
def Cmd.plan (lz : Lz4) (quiet : Bool) (cmd : Cmd) (argv : List (List UInt8))
    (a : Setting) : Planned :=
  match cmd with
  | noop => cmdNoop lz argv
  | touch => cmdTouch lz quiet argv
  | set => cmdSet lz quiet argv a.file
  | replace => cmdReplace lz quiet argv a.file
  | add => cmdAdd lz quiet argv a.file
  | rau => cmdRau lz quiet argv a.file
  | incr => cmdIncr lz quiet argv
  | decr => cmdDecr lz quiet argv
  | append => cmdAppend lz quiet argv a.file
  | prepend => cmdPrepend lz quiet argv a.file
  | delete => cmdDelete lz quiet a.stdout argv
  | lock => cmdLock lz quiet argv
  | unlock => cmdUnlock lz quiet argv
  | unlockall => cmdUnlockall lz quiet argv
  | flush => cmdFlush lz quiet argv
  | stat => cmdStat lz argv
  | keys => cmdKeys lz argv
  | version => cmdVersion lz argv
  | quit => cmdQuit lz quiet argv

/-- `cmd_##name(argc, argv, s)`. -/
def Cmd.exec (lz : Lz4) (peer : Peer) (quiet : Bool) (cmd : Cmd)
    (argv : List (List UInt8)) (c : Conn) (a : Setting) : Option Exit :=
  match cmd.plan lz quiet argv a with
  | none => none
  | some (.error status) => some ⟨status, []⟩
  | some (.ok plan) => plan.run lz peer c a

/-- `main` from the name of the command on, with the options as `getopt`
has left them. -/
def mainNamed (lz : Lz4) (peer : Peer) (quiet : Bool) (compression : Nat)
    (name : List UInt8) (argv : List (List UInt8)) (a : Setting) :
    Option Exit :=
  match yrmcdsConnect a.server a.malloc with
  | .error _ => some ⟨2, []⟩
  | .ok c =>
      let (e, c) := yrmcdsSetCompression c compression
      if e ≠ .ok ∧ e ≠ .notImplemented then some ⟨2, []⟩
      else
        match commands.lookup name with
        | none => some ⟨1, []⟩
        | some (.inl cmd) => cmd.exec lz peer quiet argv c a.toAnswers
        | some (.inr cmd) => cmd.exec lz peer quiet argv c a

end Yc

end Yrmcds
