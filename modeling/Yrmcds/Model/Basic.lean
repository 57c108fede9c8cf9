/-
The data model of libyrmcds: error numbers, server status codes, binary
commands, a response packet and a connection (`yrmcds.h`), with the
functions that only set up or tear down a connection (`connect.c`,
`close.c`, `set_compression.c`).

# Widths

Fields with a fixed width on the wire are `UInt8`, `UInt16`, `UInt32`
and `UInt64`. `size_t` is `Nat`: the receive side stays far below 2^64
by its own limits, and where the sources narrow a `size_t` to `int` or
`uint32_t` the narrowing is written out (`toInt`, `UInt32.ofNat`).

# Pointers

`recvbuf` is a total map from offsets to bytes, with `capacity` beside
it, so that a read past the buffer has a value and can be talked about.
A `key` or `data` pointer with its length is the byte string it points
to, `NULL` with length zero being the empty one.
-/
import Yrmcds.Lib.Endian

namespace Yrmcds

/-- A block of memory, by offset. -/
abbrev Mem := Nat → UInt8

/-- The `len` bytes at offset `off`. -/
def Mem.slice (m : Mem) (off len : Nat) : List UInt8 :=
  (List.range len).map fun i => m (off + i)

/-- `memcpy` into a block: `bs` at offset `off`. -/
def Mem.write (m : Mem) (off : Nat) (bs : List UInt8) : Mem := fun i =>
  if off ≤ i ∧ i < off + bs.length then bs.getD (i - off) 0 else m i

/-- `int` from a wider integer: the low 32 bits, as two's complement. -/
def toInt (n : Int) : Int := Int.bmod n (2 ^ 32)

/-- `INT_MAX`. -/
def INT_MAX : Nat := 2 ^ 31 - 1

-- ============================================================ yrmcds.h

/-- `yrmcds_error`. -/
inductive Error where
  | ok
  | systemError
  | badArgument
  | notResolved
  | timeout
  | disconnected
  | outOfMemory
  | compressFailed
  | protocolError
  | notImplemented
  deriving DecidableEq, Repr

/-- `yrmcds_status`, as the 16 bits a server may put there. -/
abbrev Status := UInt16

namespace Status

def ok : Status := 0x0000
def notFound : Status := 0x0001
def locked : Status := 0x0010
def notLocked : Status := 0x0011
def unknownCommand : Status := 0x0081

end Status

/-- `yrmcds_command`. -/
inductive Command where
  | get | set | add | replace | delete | increment | decrement | quit
  | flush | getQ | noop | version | getK | getKQ | append | prepend
  | stat | setQ | addQ | replaceQ | deleteQ | incrementQ | decrementQ
  | quitQ | flushQ | appendQ | prependQ | touch | gat | gatQ | gatK
  | gatKQ | lock | lockQ | unlock | unlockQ | unlockAll | unlockAllQ
  | lag | lagQ | lagK | lagKQ | rau | rauQ | keys | bottom
  deriving DecidableEq, Repr

/-- The opcode of a command. -/
def Command.code : Command → UInt8
  | .get => 0x00 | .set => 0x01 | .add => 0x02 | .replace => 0x03
  | .delete => 0x04 | .increment => 0x05 | .decrement => 0x06
  | .quit => 0x07 | .flush => 0x08 | .getQ => 0x09 | .noop => 0x0a
  | .version => 0x0b | .getK => 0x0c | .getKQ => 0x0d | .append => 0x0e
  | .prepend => 0x0f | .stat => 0x10 | .setQ => 0x11 | .addQ => 0x12
  | .replaceQ => 0x13 | .deleteQ => 0x14 | .incrementQ => 0x15
  | .decrementQ => 0x16 | .quitQ => 0x17 | .flushQ => 0x18
  | .appendQ => 0x19 | .prependQ => 0x1a | .touch => 0x1c | .gat => 0x1d
  | .gatQ => 0x1e | .gatK => 0x23 | .gatKQ => 0x24 | .lock => 0x40
  | .lockQ => 0x41 | .unlock => 0x42 | .unlockQ => 0x43
  | .unlockAll => 0x44 | .unlockAllQ => 0x45 | .lag => 0x46
  | .lagQ => 0x47 | .lagK => 0x48 | .lagKQ => 0x49 | .rau => 0x4a
  | .rauQ => 0x4b | .keys => 0x50 | .bottom => 0x51

/-- `yrmcds_response`. -/
structure Response where
  serial : UInt32
  length : Nat
  status : Status
  command : UInt8
  casUnique : UInt64
  flags : UInt32
  key : List UInt8
  data : List UInt8
  value : UInt64
  deriving DecidableEq

/-- `YRMCDS_FLAG_COMPRESS`. -/
def FLAG_COMPRESS : UInt32 := 0x40000000

/-- `yrmcds`, a connection. `decompressed` says whether the pointer is
non-`NULL`; the bytes it points to are the `data` of the response that
was returned with it. The mutex is left out: it orders the senders of
several threads, and each function here runs to its end. -/
structure Conn where
  sock : Int
  serial : UInt32
  compressSize : Nat
  recvbuf : Mem
  capacity : Nat
  used : Nat
  lastSize : Nat
  decompressed : Bool
  invalid : Bool

-- =========================================== connect.c, close.c and so on

/-- The connection `yrmcds_connect` leaves on socket `fd`; `buf` is
what `malloc` found in the fresh receive buffer. -/
def Conn.connected (fd : Int) (buf : Mem) : Conn where
  sock := fd
  serial := 0
  compressSize := 0
  recvbuf := buf
  capacity := 2 ^ 20
  used := 0
  lastSize := 0
  decompressed := false
  invalid := false

/-- `yrmcds_connect`, given what `connect_to_server` and `malloc` do.
When `malloc` fails the socket is closed again. -/
def yrmcdsConnect (server : Except Error Int) (malloc : Option Mem) :
    Except Error Conn :=
  match server, malloc with
  | .error e, _ => .error e
  | .ok _, none => .error .outOfMemory
  | .ok fd, some buf => .ok (Conn.connected fd buf)

/-- `yrmcds_set_compression` of a library built with LZ4. -/
def yrmcdsSetCompression (c : Conn) (threshold : Nat) : Error × Conn :=
  (.ok, { c with compressSize := threshold })

end Yrmcds
