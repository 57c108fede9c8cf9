/-
The thread that calls `yrmcds_recv` on a connection, step by step, with
what its calls compute and allocate on the way.

The steps are those of `recvStep`; between two calls the thread may set the
compression threshold. `subtractions` are the subtractions of `size_t` and
`uint32_t` values that the next step makes, each as the two numbers, so
that one that wraps around can be told from one that does not.

# History

`blocks` numbers the blocks that `malloc` has handed out for decompressed
data and follows them: which one `c->decompressed` points to, and which
ones have been freed, in that order. No function looks at it.
-/
import Yrmcds.Model.Threads

namespace Yrmcds

open Query

-- ================================================================= blocks

/-- The blocks allocated for decompressed data. -/
structure Blocks where
  allocated : Nat
  pointer : Option Nat
  freed : List Nat
  deriving DecidableEq

namespace Blocks

/-- None yet. -/
def start : Blocks := ⟨0, none, []⟩

/-- `free(c->decompressed); c->decompressed = NULL;`. -/
def free (b : Blocks) : Blocks where
  allocated := b.allocated
  pointer := none
  freed := b.freed ++ b.pointer.toList

/-- `c->decompressed = (char*)malloc(decompress_size);`, which may have
returned `NULL`. What the pointer was is lost. -/
def malloc (b : Blocks) (ok : Bool) : Blocks :=
  if ok then { b with
    allocated := b.allocated + 1
    pointer := some b.allocated }
  else { b with pointer := none }

end Blocks

/-- The packet is decoded as far as the call of `malloc`. -/
def Decoded.mallocs : Decoded → Bool
  | .inflate .. => true
  | _ => false

-- ============================================================== one thread

/-- A connection and the thread that receives on it. -/
structure Receiver where
  conn : Conn
  pc : RecvPc
  kernel : Kernel
  blocks : Blocks

/-- What the thread does next. -/
inductive ReceiverAct where
  /-- The next step of `yrmcds_recv`. -/
  | recv
  /-- `yrmcds_set_compression`, between two calls. -/
  | setCompression (threshold : Nat)

/-- The subtractions from `key_len` to the call of `LZ4_decompress_safe`;
`malloc` says whether that succeeds before. -/
def decodeSubtractions (compressSize totalLen : Nat) (malloc : Bool) :
    Decoder (List (Nat × Nat)) := do
  let keyLen ← ntoh16 2
  let extras ← byteAt 4
  let extrasLen := extras.toNat
  if totalLen < keyLen + extrasLen then return []
  let command ← byteAt 1
  let status ← ntoh16 6
  let flags? ← decodeFlags extrasLen
  let some flags := flags? | return []
  let dataLen := totalLen - keyLen - extrasLen
  let pdata := BINARY_HEADER_SIZE + extrasLen + keyLen
  let lengths := [(totalLen, keyLen), (totalLen - keyLen, extrasLen)]
  if (command = Command.increment.code ∨ command = Command.decrement.code)
      ∧ UInt16.ofNat status = Status.ok then return lengths
  if ¬ (compressSize ≠ 0 ∧ flags &&& FLAG_COMPRESS ≠ 0) then return lengths
  if dataLen = 0 then return lengths
  let size ← ntoh32 pdata
  if size > INT_MAX ∨ malloc = false then return lengths
  return lengths ++ [(dataLen, 4)]

namespace Receiver

/-- A connection on which nothing has been called yet. -/
def start (c : Conn) (k : Kernel) : Receiver where
  conn := c
  pc := .idle
  kernel := k
  blocks := .start

/-- The whole packet is in the buffer, `totalLen` bytes behind its
header. -/
def AtPacket (w : Receiver) (totalLen : Nat) : Prop :=
  w.pc = .loop (some totalLen) ∧ recvTarget (some totalLen) ≤ w.conn.used

/-- The packet at the front of the buffer, decoded. -/
def decoded (w : Receiver) (totalLen : Nat) : Decoded :=
  run w.conn.recvbuf.answer (decodeBody w.conn.compressSize totalLen)

/-- The allocation that comes next succeeds. -/
def malloc (w : Receiver) : Bool := w.kernel.alloc.any fun x => x.1.isSome

/-- What the next step of `yrmcds_recv` allocates and frees. -/
def nextBlocks (w : Receiver) : Blocks :=
  match w.pc with
  | .idle =>
      if w.conn.invalid = false ∧ w.conn.lastSize > 0 then w.blocks.free
      else w.blocks
  | .loop (some totalLen) =>
      if w.conn.used < recvTarget (some totalLen) then w.blocks
      else if (w.decoded totalLen).mallocs then w.blocks.malloc w.malloc
      else w.blocks
  | _ => w.blocks

/-- The subtractions of the next step of `yrmcds_recv`. -/
def subtractions (w : Receiver) : List (Nat × Nat) :=
  match w.pc with
  | .idle =>
      if w.conn.invalid = false ∧ w.conn.lastSize > 0 then
        [(w.conn.used, w.conn.lastSize)]
      else []
  | .loop body =>
      if w.conn.used < recvTarget body then [(w.conn.capacity, w.conn.used)]
      else
        match body with
        | none => []
        | some totalLen =>
            run w.conn.recvbuf.answer
              (decodeSubtractions w.conn.compressSize totalLen w.malloc)
  | .again _ => []

/-- One step. -/
def step (lz : Lz4) (w : Receiver) : ReceiverAct → Except Blocked Receiver
  | .recv =>
      match recvStep lz w.pc w.conn w.kernel with
      | none => .error .blocked
      | some (pc, conn, kernel, _) =>
          .ok { pc, conn, kernel, blocks := w.nextBlocks }
  | .setCompression threshold =>
      match w.pc with
      | .idle =>
          .ok { w with conn := (yrmcdsSetCompression w.conn threshold).2 }
      | _ => .error .blocked

/-- `yrmcds_close` of a connection that is open. -/
def close (w : Receiver) : Receiver :=
  { w with
    conn := { w.conn with sock := -1, decompressed := false }
    blocks := w.blocks.free }

end Receiver

end Yrmcds
