/-
How a call of `yrmcds_recv` on a connection that is not poisoned ends, in
terms of the unread stream: the bytes in the receive buffer behind the
packets already returned, and those still to come (`yrmcdsRecv_ends`).
A call returns the packet in front and moves on behind it, or it is refused
for good in front of a violation, or it is failed by the kernel or the
allocator and has lost nothing. The serial is the senders' and is left
alone (`yrmcdsRecv_serial`).
-/
import Yrmcds.Proofs.Recv.Bounds
import Yrmcds.Proofs.Recv.Progress

namespace Yrmcds

open Framing

variable {lz : Lz4} {c c' : Conn} {k k' : Kernel} {res : RecvResult}

/-- The end of a call: its result, and the connection and the kernel
behind it. -/
inductive Ending (lz : Lz4) (c : Conn) (k : Kernel) :
    RecvResult → Conn → Kernel → Prop where
  | returned {n : Nat} {r : Response} {c' : Conn} {k' : Kernel}
      (hcut : refCut lz c.compressSize (c.pending ++ k.stream) = .frame n r)
      (hinv : c'.invalid = false)
      (hrest : c'.pending ++ k'.stream = (c.pending ++ k.stream).drop n) :
      Ending lz c k (.ok r) c' k'
  | refused {c' : Conn} {k' : Kernel}
      (hcut : refCut lz c.compressSize (c.pending ++ k.stream) = .bad)
      (hinv : c'.invalid = true) :
      Ending lz c k (.err .protocolError) c' k'
  | failed {c' : Conn} {k' : Kernel} {e : Error} {used : List Answer}
      {a : Answer} (he : e ≠ .protocolError)
      (hs : k.script = used ++ a :: k'.script) (ha : a.Fails e)
      (hinv : c'.invalid = false)
      (hrest : c'.pending ++ k'.stream = c.pending ++ k.stream) :
      Ending lz c k (.err e) c' k'

/-- A call ends in one of these ways. -/
theorem yrmcdsRecv_ends (hlz : lz.Lawful) (hok : c.BufOk)
    (hinv : c.invalid = false)
    (h : yrmcdsRecv lz c k = some (res, c', k')) :
    Ending lz c k res c' k' := by
  have hspec := yrmcdsRecv_spec hlz h hok
  have hunread := (hspec.call.unread (rx_sound k hinv)).2
  cases res with
  | ok r =>
      obtain ⟨hdead, n, hcut, hrest⟩ := hunread
      exact .returned hcut hdead hrest
  | err e =>
      by_cases he : e = .protocolError
      · subst he
        obtain ⟨hcut, hdead, -⟩ := hunread
        exact .refused hcut hdead
      · have habs : (RecvResult.err e).abs = .failed := by
          cases e <;> first | rfl | exact absurd rfl he
        rw [habs] at hunread
        obtain ⟨hdead, hrest⟩ := hunread
        obtain ⟨used, a, hs, ha⟩ := hspec.failure e rfl he
        exact .failed he hs ha hdead hrest

-- ============================================================= the serial

theorem recvData_serial {e : Error}
    (h : recvData c k = some (e, c', k')) : c'.serial = c.serial := by
  unfold recvData at h
  split at h
  next => cases h
  next => cases h; rfl
  next hgrow =>
    obtain ⟨recvbuf, capacity, rfl, -⟩ := growBuf_frame hgrow
    split at h
    next => cases h
    next => cases h; rfl
    next => cases h; rfl
    next => cases h; rfl

theorem recvFill_serial {target fuel : Nat} {e : Error}
    (h : recvFill target fuel c k = some (e, c', k')) :
    c'.serial = c.serial := by
  induction fuel generalizing c k with
  | zero => cases h
  | succ fuel ih =>
      rw [recvFill] at h
      split at h
      next =>
        split at h
        next c₁ k₁ hdata => exact (ih h).trans (recvData_serial hdata)
        next => exact recvData_serial h
      next => cases h; rfl

theorem recvBody_serial (h : recvBody lz c k = some (res, c', k')) :
    c'.serial = c.serial := by
  unfold recvBody at h
  split at h
  next => cases h; rfl
  next =>
    split at h
    next => cases h
    next c₁ k₁ hfill =>
      obtain ⟨_, _, _, rfl, -⟩ := recvPacket_frame h
      have hserial : c₁.serial = c.serial := recvFill_serial hfill
      exact hserial
    next hfill =>
      cases h
      exact recvFill_serial hfill

theorem Conn.shiftOut_serial (c : Conn) : c.shiftOut.serial = c.serial := by
  unfold Conn.shiftOut
  split
  next => rfl
  next => rfl

/-- Receiving leaves the serial alone. -/
theorem yrmcdsRecv_serial (h : yrmcdsRecv lz c k = some (res, c', k')) :
    c'.serial = c.serial := by
  unfold yrmcdsRecv at h
  split at h
  next => cases h; rfl
  next =>
    split at h
    next => cases h
    next hfill =>
      exact (recvBody_serial h).trans
        ((recvFill_serial hfill).trans c.shiftOut_serial)
    next hfill =>
      cases h
      exact (recvFill_serial hfill).trans c.shiftOut_serial

end Yrmcds
