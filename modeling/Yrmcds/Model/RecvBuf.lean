/-
The receive buffer of a counter connection, and the three things its
code does with it. They are the ones `recv.c` does with the buffer of
`yrmcds` (`growBuf`, `recvData`, `recvFill` and `Conn.shiftOut`), made for
any number of bytes that one `recv()` asks for.
-/
import Yrmcds.Model.Kernel

namespace Yrmcds

/-- `recvbuf`, `capacity`, `used` and `last_size`. -/
structure RecvBuf where
  mem : Mem
  capacity : Nat
  used : Nat
  lastSize : Nat

namespace RecvBuf

/-- The head of `recv_data`: double the buffer when less than `recvSize`
is free. `none` inside is a failed `realloc`. -/
def grow (recvSize : Nat) (b : RecvBuf) (k : Kernel) :
    Option (Option RecvBuf × Kernel) :=
  if b.capacity - b.used < recvSize then
    match k.alloc with
    | none => none
    | some (none, k) => some (none, k)
    | some (some junk, k) =>
        some (some { b with
          mem := fun i => if i < b.capacity then b.mem i else junk i
          capacity := b.capacity * 2 }, k)
  else some (some b, k)

/-- `recv_data`. -/
def recvData (recvSize : Nat) (b : RecvBuf) (k : Kernel) :
    Option (Error × RecvBuf × Kernel) :=
  match b.grow recvSize k with
  | none => none
  | some (none, k) => some (.outOfMemory, b, k)
  | some (some b, k) =>
      match k.recv recvSize with
      | none => none
      | some (.error, k) => some (.systemError, b, k)
      | some (.eof, k) => some (.disconnected, b, k)
      | some (.got bs, k) =>
          some (.ok, { b with
            mem := b.mem.write b.used bs
            used := b.used + bs.length }, k)

/-- `while( c->used < target ) { e = recv_data(c); if( e ) return e; }`. -/
def fill (recvSize target : Nat) :
    Nat → RecvBuf → Kernel → Option (Error × RecvBuf × Kernel)
  | 0, _, _ => none
  | fuel + 1, b, k =>
      if b.used < target then
        match b.recvData recvSize k with
        | some (.ok, b, k) => fill recvSize target fuel b k
        | r => r
      else some (.ok, b, k)

/-- The last packet is moved out of the buffer. -/
def shiftOut (b : RecvBuf) : RecvBuf :=
  if b.lastSize > 0 then
    let remain := b.used - b.lastSize
    { b with
      mem := fun i => if i < remain then b.mem (b.lastSize + i) else b.mem i
      used := remain
      lastSize := 0 }
  else b

end RecvBuf

end Yrmcds
