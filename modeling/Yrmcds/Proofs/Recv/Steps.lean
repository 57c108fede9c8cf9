/-
What a step of `yrmcds_recv` does: `RecvStepped` lists the steps between
what a call shares with others, and `PacketDone` the ends of a call that
has the whole packet. Whatever holds at every step is proved by these
cases.
-/
import Yrmcds.Model.Receiver
import Yrmcds.Proofs.Recv.Decode

namespace Yrmcds

open Query

variable {lz : Lz4} {c c' : Conn} {k k' : Kernel}

-- ================================================================ a packet

/-- How a call that has the packet ends: with a protocol error, with a
response, or after `malloc` for the decompressed data. -/
inductive PacketDone (c : Conn) (k : Kernel) (n : Nat) :
    Conn → Kernel → Prop where
  | bad (hd : (run c.recvbuf.answer
      (decodeBody c.compressSize n)).mallocs = false) :
      PacketDone c k n c.poison k
  | returned (hd : (run c.recvbuf.answer
      (decodeBody c.compressSize n)).mallocs = false) :
      PacketDone c k n { c with lastSize := 24 + n } k
  | noBlock {k' : Kernel} (hd : (run c.recvbuf.answer
      (decodeBody c.compressSize n)).mallocs = true)
      (hk : k.alloc = some (none, k')) :
      PacketDone c k n { c with decompressed := false } k'
  | badBlock {k' : Kernel} {junk : Mem} (hd : (run c.recvbuf.answer
      (decodeBody c.compressSize n)).mallocs = true)
      (hk : k.alloc = some (some junk, k')) :
      PacketDone c k n { c with decompressed := true, invalid := true } k'
  | inflated {k' : Kernel} {junk : Mem} (hd : (run c.recvbuf.answer
      (decodeBody c.compressSize n)).mallocs = true)
      (hk : k.alloc = some (some junk, k')) :
      PacketDone c k n { c with decompressed := true, lastSize := 24 + n } k'

theorem recvPacket_done {n : Nat} {res : RecvResult}
    (h : recvPacket lz c k n = some (res, c', k')) :
    PacketDone c k n c' k' := by
  have hlen := lengthIs_decodeBody c.recvbuf c.compressSize n
  unfold recvPacket at h
  split at h
  next hrun =>
    cases h
    exact .bad (by rw [hrun]; rfl)
  next r hrun =>
    cases h
    rw [hrun] at hlen
    rw [show r.length = 24 + n from hlen]
    exact .returned (by rw [hrun]; rfl)
  next r off inputSize size hrun =>
    have hd : (run c.recvbuf.answer
        (decodeBody c.compressSize n)).mallocs = true := by rw [hrun]; rfl
    rw [hrun] at hlen
    unfold inflate at h
    split at h
    next => cases h
    next hk =>
      cases h
      exact .noBlock hd hk
    next hk =>
      dsimp only at h
      split at h
      next =>
        cases h
        exact .badBlock hd hk
      next =>
        split at h
        next =>
          cases h
          exact .badBlock hd hk
        next =>
          cases h
          rw [show r.length = 24 + n from hlen]
          exact .inflated hd hk

/-- All a decoded packet changes: the flags, and the size of the packet if
it is returned. -/
theorem recvPacket_frame {totalLen : Nat} {res : RecvResult}
    (h : recvPacket lz c k totalLen = some (res, c', k')) :
    ∃ decompressed invalid lastSize,
      c' = { c with decompressed, invalid, lastSize }
        ∧ (lastSize = c.lastSize ∨ lastSize = 24 + totalLen) := by
  cases recvPacket_done h with
  | bad => exact ⟨_, _, _, rfl, .inl rfl⟩
  | returned => exact ⟨_, _, _, rfl, .inr rfl⟩
  | noBlock => exact ⟨_, _, _, rfl, .inl rfl⟩
  | badBlock => exact ⟨_, _, _, rfl, .inl rfl⟩
  | inflated => exact ⟨_, _, _, rfl, .inr rfl⟩

-- ================================================================== a step

/-- A step of `yrmcds_recv`. -/
inductive RecvStepped (lz : Lz4) : RecvPc → Conn → Kernel →
    RecvPc → Conn → Kernel → Option RecvResult → Prop where
  | refused {c : Conn} {k : Kernel} (hinv : c.invalid = true) :
      RecvStepped lz .idle c k .idle c k (some (.err .protocolError))
  | begins {c : Conn} {k : Kernel} (hinv : c.invalid = false) :
      RecvStepped lz .idle c k (.loop none) c.shiftOut k none
  | noMemory {body : Option Nat} {c : Conn} {k k' : Kernel}
      (hmore : c.used < recvTarget body)
      (hgrow : growBuf c k = some (none, k')) :
      RecvStepped lz (.loop body) c k .idle c k'
        (some (.err .outOfMemory))
  | grows {body : Option Nat} {c c' : Conn} {k k' : Kernel}
      (hmore : c.used < recvTarget body)
      (hgrow : growBuf c k = some (some c', k')) :
      RecvStepped lz (.loop body) c k (.again body) c' k' none
  | badHeader {c : Conn} {k : Kernel} (hfull : recvTarget none ≤ c.used) :
      RecvStepped lz (.loop none) c k .idle c.poison k
        (some (.err .protocolError))
  | header {c : Conn} {k : Kernel} {n : Nat}
      (hfull : recvTarget none ≤ c.used)
      (hn : run c.recvbuf.answer decodeHeader = some n) :
      RecvStepped lz (.loop none) c k (.loop (some n)) c k none
  | packet {n : Nat} {c c' : Conn} {k k' : Kernel} {res : RecvResult}
      (hfull : recvTarget (some n) ≤ c.used)
      (hdone : recvPacket lz c k n = some (res, c', k')) :
      RecvStepped lz (.loop (some n)) c k .idle c' k' (some res)
  | interrupted {body : Option Nat} {c : Conn} {k : Kernel}
      {script : List Answer} :
      RecvStepped lz (.again body) c k (.again body) c { k with script } none
  | failed {body : Option Nat} {c : Conn} {k k' : Kernel} {e : Error} :
      RecvStepped lz (.again body) c k .idle c k' (some (.err e))
  | got {body : Option Nat} {c : Conn} {k k' : Kernel} {bs : List UInt8}
      (hrecv : k.recv RECV_SIZE = some (.got bs, k')) :
      RecvStepped lz (.again body) c k (.loop body) { c with
        recvbuf := c.recvbuf.write c.used bs
        used := c.used + bs.length } k' none

theorem recvStepped {pc pc' : RecvPc} {res : Option RecvResult}
    (h : recvStep lz pc c k = some (pc', c', k', res)) :
    RecvStepped lz pc c k pc' c' k' res := by
  cases pc with
  | idle =>
      rw [recvStep] at h
      split at h
      next hinv => cases h; exact .refused hinv
      next hinv => cases h; exact .begins (Bool.eq_false_of_not_eq_true hinv)
  | loop body =>
      rw [recvStep] at h
      split at h
      next hmore =>
        split at h
        next => cases h
        next hgrow => cases h; exact .noMemory hmore hgrow
        next hgrow => cases h; exact .grows hmore hgrow
      next hfull =>
        have hfull := Nat.le_of_not_lt hfull
        cases body with
        | none =>
            rw [recvFull] at h
            split at h
            next => cases h; exact .badHeader hfull
            next hn => cases h; exact .header hfull hn
        | some n =>
            rw [recvFull] at h
            split at h
            next => cases h
            next hdone => cases h; exact .packet hfull hdone
  | again body =>
      rw [recvStep] at h
      split at h
      next => cases h; exact .interrupted
      next =>
        split at h
        next => cases h
        next => cases h; exact .failed
        next => cases h; exact .failed
        next hrecv => cases h; exact .got hrecv

end Yrmcds
