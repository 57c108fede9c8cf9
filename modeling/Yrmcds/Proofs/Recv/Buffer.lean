/-
The receive buffer of a `yrmcds` as a queue of bytes.

`growBuf`, `recvData`, `recvFill` and `Conn.shiftOut` are what the general
buffer does, put back into the connection (`recvFill_eq` and its like), so
their specs are those of `RecvBuf` with the frame conditions of everything
they leave alone (`Took`). `recvFill_spec` is the one the callers use.
-/
import Yrmcds.Model.Recv
import Yrmcds.Proofs.Recv.Queue

namespace Yrmcds

-- ======================================================== the invariant

/-- The buffer invariant: the last packet lies in the bytes in use,
these in the buffer, and the buffer is at least one `recv()` large. -/
structure Conn.BufOk (c : Conn) : Prop where
  last_le : c.lastSize ≤ c.used
  used_le : c.used ≤ c.capacity
  recv_le : RECV_SIZE ≤ c.capacity

/-- The bytes received and not yet returned. -/
def Conn.pending (c : Conn) : List UInt8 :=
  c.recvbuf.slice c.lastSize (c.used - c.lastSize)

/-- `c` became `c'` and `k` became `k'` by taking over a further piece of
the stream, and by nothing else. -/
structure Took (c : Conn) (k : Kernel) (c' : Conn) (k' : Kernel) :
    Prop where
  ok : c'.BufOk
  last : c'.lastSize = c.lastSize
  compressSize : c'.compressSize = c.compressSize
  decompressed : c'.decompressed = c.decompressed
  invalid : c'.invalid = c.invalid
  got : ∃ bs, k.stream = bs ++ k'.stream ∧ c'.pending = c.pending ++ bs
  script : ∃ used, k.script = used ++ k'.script

/-- `c` became `c'` as in `Took`, and the last answer used made the call
fail with `e`. -/
structure FailedBy (c : Conn) (k : Kernel) (e : Error) (c' : Conn)
    (k' : Kernel) : Prop where
  took : Took c k c' k'
  answer : ∃ used a, k.script = used ++ a :: k'.script ∧ a.Fails e

-- ==================================================== the general buffer

/-- The buffer of a connection. -/
def Conn.buf (c : Conn) : RecvBuf where
  mem := c.recvbuf
  capacity := c.capacity
  used := c.used
  lastSize := c.lastSize

/-- A connection with another buffer. -/
def Conn.withBuf (c : Conn) (b : RecvBuf) : Conn :=
  { c with
    recvbuf := b.mem
    capacity := b.capacity
    used := b.used
    lastSize := b.lastSize }

theorem growBuf_eq (c : Conn) (k : Kernel) :
    growBuf c k = (c.buf.grow RECV_SIZE k).map fun (g, k) =>
      (g.map c.withBuf, k) := by
  unfold growBuf RecvBuf.grow
  by_cases hfree : c.capacity - c.used < RECV_SIZE
  · rw [if_pos hfree, if_pos (show c.buf.capacity - c.buf.used < _ from hfree)]
    rcases k.alloc with _ | ⟨_ | junk, k⟩ <;> rfl
  · rw [if_neg hfree, if_neg (show ¬ c.buf.capacity - c.buf.used < _ from hfree)]
    rfl

theorem recvData_eq (c : Conn) (k : Kernel) :
    recvData c k = (c.buf.recvData RECV_SIZE k).map fun (e, b, k) =>
      (e, c.withBuf b, k) := by
  unfold recvData RecvBuf.recvData
  rw [growBuf_eq]
  rcases c.buf.grow RECV_SIZE k with _ | ⟨_ | b, k⟩
  · rfl
  · rfl
  · simp only [Option.map_some]
    rcases k.recv RECV_SIZE with _ | ⟨_ | _ | _, k⟩ <;> rfl

theorem recvFill_eq (target fuel : Nat) (c : Conn) (k : Kernel) :
    recvFill target fuel c k = (c.buf.fill RECV_SIZE target fuel k).map
      fun (e, b, k) => (e, c.withBuf b, k) := by
  induction fuel generalizing c k with
  | zero => rfl
  | succ fuel ih =>
      rw [recvFill, RecvBuf.fill, recvData_eq]
      by_cases hlt : c.used < target
      · rw [if_pos hlt, if_pos (show c.buf.used < target from hlt)]
        rcases c.buf.recvData RECV_SIZE k with _ | ⟨e, b, k⟩
        · rfl
        · cases e with
          | ok => exact ih (c.withBuf b) k
          | _ => rfl
      · rw [if_neg hlt, if_neg (show ¬ c.buf.used < target from hlt)]
        rfl

theorem shiftOut_eq (c : Conn) :
    c.shiftOut = { c.withBuf c.buf.shiftOut with
      decompressed := c.shiftOut.decompressed } := by
  unfold Conn.shiftOut RecvBuf.shiftOut
  by_cases hpos : c.lastSize > 0
  · rw [if_pos hpos, if_pos (show c.buf.lastSize > 0 from hpos)]
    rfl
  · rw [if_neg hpos, if_neg (show ¬ c.buf.lastSize > 0 from hpos)]
    rfl

theorem bufOk_iff {c : Conn} : c.BufOk ↔ c.buf.Ok RECV_SIZE :=
  ⟨fun h => ⟨h.last_le, h.used_le, h.recv_le⟩,
    fun h => ⟨h.last_le, h.used_le, h.recv_le⟩⟩

/-- What the buffer takes over the connection does. -/
theorem Took.of_buf {c : Conn} {b : RecvBuf} {k k' : Kernel}
    (h : c.buf.Took RECV_SIZE k b k') : Took c k (c.withBuf b) k' :=
  ⟨bufOk_iff.mpr h.ok, h.last, rfl, rfl, rfl, h.got, h.script⟩

theorem FailedBy.of_buf {c : Conn} {b : RecvBuf} {k k' : Kernel} {e : Error}
    (h : c.buf.FailedBy RECV_SIZE k e b k') : FailedBy c k e (c.withBuf b) k' :=
  ⟨.of_buf h.took, h.answer⟩

/-- And the other way round. -/
theorem Took.buf {c c' : Conn} {k k' : Kernel} (h : Took c k c' k') :
    c.buf.Took RECV_SIZE k c'.buf k' :=
  ⟨bufOk_iff.mp h.ok, h.last, h.got, h.script⟩

theorem FailedBy.buf {c c' : Conn} {k k' : Kernel} {e : Error}
    (h : FailedBy c k e c' k') : c.buf.FailedBy RECV_SIZE k e c'.buf k' :=
  ⟨h.took.buf, h.answer⟩

-- =========================================================== the specs

/-- The fill loop takes over a further piece of the stream until the
target is in the buffer, or fails for the reason the kernel gave. -/
theorem recvFill_spec {target fuel : Nat} {c c' : Conn} {k k' : Kernel}
    {e : Error} (h : recvFill target fuel c k = some (e, c', k'))
    (hok : c.BufOk) :
    (e = .ok ∧ Took c k c' k' ∧ target ≤ c'.used)
    ∨ (e ≠ .ok ∧ FailedBy c k e c' k') := by
  rw [recvFill_eq, Option.map_eq_some_iff] at h
  obtain ⟨⟨e, b, k₁⟩, hfill, heq⟩ := h
  cases heq
  obtain ⟨he, htook, hfull⟩ | ⟨hne, hfail⟩ :=
    RecvBuf.fill_spec hfill (bufOk_iff.mp hok)
  · exact .inl ⟨he, .of_buf htook, hfull⟩
  · exact .inr ⟨hne, .of_buf hfail⟩

/-- The length of the script bounds the rounds of the loop: more fuel
changes nothing, so a loop without a result is one that is blocked. -/
theorem recvFill_fuel {target fuel fuel' : Nat} {c : Conn} {k : Kernel}
    (hok : c.BufOk) (h : k.script.length < fuel)
    (h' : k.script.length < fuel') :
    recvFill target fuel c k = recvFill target fuel' c k := by
  rw [recvFill_eq, recvFill_eq,
    RecvBuf.fill_fuel (bufOk_iff.mp hok) h h']

/-- Shifting out keeps the invariant and the pending bytes, which now
start the buffer. -/
theorem shiftOut_spec {c : Conn} (hok : c.BufOk) :
    c.shiftOut.BufOk ∧ c.shiftOut.lastSize = 0
      ∧ c.shiftOut.pending = c.pending
      ∧ c.shiftOut.compressSize = c.compressSize
      ∧ c.shiftOut.invalid = c.invalid := by
  obtain ⟨hok', hlast, hpend⟩ := RecvBuf.shiftOut_spec (bufOk_iff.mp hok)
  rw [shiftOut_eq]
  exact ⟨bufOk_iff.mpr hok', hlast, hpend, rfl, rfl⟩

end Yrmcds
