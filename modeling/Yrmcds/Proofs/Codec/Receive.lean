/-
`yrmcds_recv` with the decoder it is built with.

The receiving side was modelled for any codec. What remains to be said is
that the call of `LZ4_decompress_safe` is well placed: in every state that
a receiving thread reaches it is handed a pointer with at least two bytes
of the receive buffer behind it, and no more input than lies there
(`receiver_decoder_inside`). That is all the decoder needs to stay in
bounds (`lz4DecompressSafe_inside`), also for the payloads that are too
short for their size word and for blocks of no byte or of one, where it
reads past the packet. What it reads there changes nothing: its result is
that of any memory with the same payload.
-/
import Yrmcds.Proofs.Codec.Extent
import Yrmcds.Proofs.Codec.Lawful
import Yrmcds.Proofs.Recv.Bounds

namespace Yrmcds

open Checked Endian Query

-- ======================================================== where it points

/-- What is handed to the decoder lies behind the header, the extras, the
key and the size word. -/
def InflateAt (n off : Nat) (inputSize : Int) : Prop :=
  ∃ extrasLen keyLen dataLen, extrasLen < 2 ^ 8 ∧ keyLen < 2 ^ 16
    ∧ 0 < dataLen ∧ n = extrasLen + keyLen + dataLen
    ∧ off = 28 + extrasLen + keyLen ∧ inputSize = toInt ((dataLen : Int) - 4)

theorem decodeData_inflate {m : Mem} {compressSize : Nat} {r r' : Response}
    {pdata dataLen off size : Nat} {inputSize : Int}
    (h : run m.answer (decodeData compressSize r pdata dataLen)
      = .inflate r' off inputSize size) :
    0 < dataLen ∧ off = pdata + 4
      ∧ inputSize = toInt ((dataLen : Int) - 4) := by
  rw [run_decodeData] at h
  split at h
  next => cases h
  next =>
    split at h
    next => cases h
    next hpos =>
      split at h
      next => cases h
      next =>
        cases h
        exact ⟨Nat.pos_of_ne_zero hpos, rfl, rfl⟩

theorem decodeValue_inflate {m : Mem} {r r' : Response}
    {pdata dataLen off size : Nat} {inputSize : Int} :
    run m.answer (decodeValue r pdata dataLen) ≠ .inflate r' off inputSize size := by
  rw [run_decodeValue]
  intro h
  split at h
  next => cases h
  next => cases h

theorem decodeBody_inflate {m : Mem} {compressSize n off size : Nat}
    {r : Response} {inputSize : Int}
    (h : run m.answer (decodeBody compressSize n) = .inflate r off inputSize size) :
    InflateAt n off inputSize := by
  have hsize : BINARY_HEADER_SIZE = 24 := rfl
  unfold decodeBody byteAt ntoh16 ntoh64 host32 at h
  simp only [run_bind, run_query, run_pure, run_ite, answer_eq] at h
  have hkey : ofBE (m.slice 2 2) < 2 ^ 16 := by
    have hlt := ofBE_lt (m.slice 2 2)
    rwa [Mem.length_slice] at hlt
  have hext : ((m.slice 4 1).headD 0).toNat < 2 ^ 8 := UInt8.toNat_lt _
  generalize ofBE (m.slice 2 2) = keyLen at h hkey
  generalize ((m.slice 4 1).headD 0).toNat = extrasLen at h hext
  split at h
  next => cases h
  next hfit =>
    split at h
    next =>
      rw [run_ite] at h
      split at h
      next => exact absurd h decodeValue_inflate
      next =>
        obtain ⟨hpos, hoff, hinput⟩ := decodeData_inflate h
        exact ⟨extrasLen, keyLen, n - keyLen - extrasLen, hext, hkey, hpos,
          by omega, by omega, hinput⟩
    next => cases h

-- ============================================================= in bounds

namespace Receiver

/-- The receive buffer from `off` on, to its end. -/
def bufferFrom (w : Receiver) (off : Nat) : Region :=
  ⟨w.conn.capacity - off, fun i => w.conn.recvbuf (off + i)⟩

variable {lz : Lz4} {c : Conn} {k : Kernel} {w : Receiver}

/-- There are two bytes to read, and all of the input. -/
theorem Sound.room_for_decoder (hw : w.Sound) {n off : Nat} {inputSize : Int}
    (hmax : n ≤ MAX_CAPACITY) (hat : w.AtPacket n)
    (h : InflateAt n off inputSize) :
    2 ≤ (w.bufferFrom off).size ∧ inputSize ≤ (w.bufferFrom off).size
      ∧ inputSize.toNat ≤ (w.bufferFrom off).size := by
  have hcap : MAX_CAPACITY = 52428800 := rfl
  have htarget : recvTarget (some n) = 24 + n := rfl
  have hused := hw.used_le
  have hfull := hat.2
  obtain ⟨e, hpow⟩ := hw.power
  have hone : 1 ≤ 2 ^ e := Nat.one_le_two_pow
  obtain ⟨extrasLen, keyLen, dataLen, hext, hkey, hpos, rfl, rfl, rfl⟩ := h
  rw [toInt_of_range (by omega) (by omega)]
  show 2 ≤ w.conn.capacity - _ ∧ _ ≤ ((w.conn.capacity - _ : Nat) : Int) ∧ _
    ≤ w.conn.capacity - _
  omega

/-- In every state that a receiving thread reaches, with a packet in the
buffer whose data is to be decompressed, the call of the decoder on the
receive buffer and on the block that `malloc` returns stays inside both.
It ends, and its result is the one that the codec computes of any memory
that starts with the input, so what lies behind the packet has no part in
it. -/
theorem receiver_decoder_inside {server : Except Error Int} {malloc : Option Mem}
    (hconn : yrmcdsConnect server malloc = .ok c) {acts : List ReceiverAct}
    (hrun : Run.exec (step lz) (start c k) acts = .ok w) {n : Nat}
    (hat : w.AtPacket n) {r : Response} {off size : Nat} {inputSize : Int}
    (hdec : w.decoded n = .inflate r off inputSize size) (fresh junk : Mem) :
    Ends (fun _ => True) (· < 0)
      (lz4DecompressSafe (w.bufferFrom off) ⟨size, junk⟩ inputSize size)
    ∧ ∀ src : Mem, (∀ i < inputSize.toNat, src i = w.conn.recvbuf (off + i)) →
      outputBytes
          (lz4DecompressSafe (w.bufferFrom off) ⟨size, junk⟩ inputSize size)
        = (lz4 fresh junk).decompressSafe src inputSize size := by
  have hw := inv_run hconn hrun
  have hmax : n ≤ MAX_CAPACITY := hw.body n (by rw [hat.1]; rfl)
  obtain ⟨h2, hle, hle'⟩ :=
    hw.sound.room_for_decoder hmax hat (decodeBody_inflate hdec)
  -- the front of the buffer that the codec sees is enough
  have hpart : (Region.of (fun i => w.conn.recvbuf (off + i))
      (Nat.max 2 inputSize.toNat)).Part (w.bufferFrom off) := by
    refine ⟨Nat.max_le.mpr ⟨h2, hle'⟩, ?_⟩
    intro i hi
    exact if_pos hi
  have hends : Ends (fun _ => True) (· < 0)
      (lz4DecompressBlock junk (fun i => w.conn.recvbuf (off + i)) inputSize
        size) := by
    have hinput : inputSize.toNat ≤ Nat.max 2 inputSize.toNat :=
      Nat.le_max_right ..
    apply lz4DecompressSafe_inside
    · show inputSize ≤ (Nat.max 2 inputSize.toNat : Nat)
      omega
    · exact Nat.le_max_left ..
    · exact Int.le_refl _
  have heq := (lz4DecompressSafe_extends hpart ⟨size, junk⟩ inputSize
    size).eq_of_ends hends
  rw [← heq]
  refine ⟨hends, fun src hsrc => ?_⟩
  have hlz := lz4_lawful fresh junk
  have hsame : (lz4 fresh junk).decompressSafe src inputSize size
      = (lz4 fresh junk).decompressSafe (fun i => w.conn.recvbuf (off + i))
        inputSize size := by
    by_cases hneg : inputSize < 0
    · rw [hlz.neg _ _ _ hneg, hlz.neg _ _ _ hneg]
    · rw [← Int.toNat_of_nonneg (Int.not_lt.mp hneg)]
      exact hlz.inside _ _ _ _ hsrc
  rw [hsame, lz4_decompressSafe]
  rfl

deriving instance DecidableEq for RecvPc

/-- One byte compressed, when the whole packet is there. -/
theorem receiver_decoder_inside_one :
    ∃ w : Receiver, w.AtPacket 10 ∧ ∃ r off inputSize size,
      w.decoded 10 = .inflate r off inputSize size
      ∧ Ends (fun _ => True) (· < 0)
        (lz4DecompressSafe (w.bufferFrom off) ⟨size, fun _ => 0⟩ inputSize size)
      ∧ ∀ src : Mem,
        (∀ i < inputSize.toNat, src i = w.conn.recvbuf (off + i)) →
        outputBytes (lz4DecompressSafe (w.bufferFrom off) ⟨size, fun _ => 0⟩
            inputSize size)
          = (lz4 (fun _ => 0) fun _ => 0).decompressSafe src inputSize size := by
  obtain ⟨w, hrun, hp⟩ := Run.exists_of_ends
    (r := Run.exec (step Lz4.literals)
      (start (Conn.connected 3 fun _ => 0) ⟨oneCompressed, [.bytes 34]⟩)
      [.setCompression 16384, .recv, .recv, .recv, .recv])
    (p := fun w => (w.decoded 10).mallocs
      && decide (w.pc = .loop (some 10) ∧ recvTarget (some 10) ≤ w.conn.used))
    (by decide +kernel)
  rw [Bool.and_eq_true, decide_eq_true_eq] at hp
  obtain ⟨hmallocs, hat⟩ := hp
  cases hdec : w.decoded 10 with
  | bad =>
      rw [hdec] at hmallocs
      cases hmallocs
  | packet r =>
      rw [hdec] at hmallocs
      cases hmallocs
  | inflate r off inputSize size =>
      exact ⟨w, hat, r, off, inputSize, size, hdec, receiver_decoder_inside
        (show yrmcdsConnect (.ok 3) (some fun _ => 0) = .ok _ from rfl) hrun hat
        hdec (fun _ => 0) fun _ => 0⟩

end Receiver

end Yrmcds
