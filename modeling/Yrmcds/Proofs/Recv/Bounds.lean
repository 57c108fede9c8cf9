/-
The bounds of the receive buffer and the life of the blocks for
decompressed data.

`Inv` holds at every step of every run of a receiving thread. Why the
buffer stays within 64 MiB: a call asks for more only while its packet is
incomplete, so with less than 24 bytes and 50 MiB in use, and the buffer is
doubled only when less than `RECV_SIZE` is free, so not from 64 MiB on
(`exponent_lt`). Why no block is lost: from its first step to its last a
call has no packet of an earlier one and a sound connection, and then
`decompressed` is `NULL`, so that `malloc` meets no live block.

What is left is the arithmetic of the decoding. All its subtractions are
in range but the last one, `data_len - sizeof(uint32_t)`, which wraps
around for the payloads of `ShortMarked` that get as far
(`decodeSubtractions_iff`).
-/
import Yrmcds.Proofs.Recv.Inside
import Yrmcds.Proofs.Threads.Receiver

namespace Yrmcds

open Endian Query

variable {lz : Lz4} {c c' : Conn} {k k' : Kernel}

-- ================================================================ capacity

/-- The packet a call is busy with is not too large. -/
def RecvPc.body : RecvPc → Option Nat
  | .idle => none
  | .loop body => body
  | .again body => body

/-- A capacity that a buffer may have: 1 MiB doubled at most six times. -/
def Capacity (n : Nat) : Prop := ∃ e ≤ 6, n = 2 ^ 20 * 2 ^ e

/-- Only headers of packets that are not too large are accepted. -/
theorem decodeHeader_le {m : Mem} {n : Nat}
    (h : run m.answer decodeHeader = some n) : n ≤ MAX_CAPACITY := by
  unfold decodeHeader byteAt ntoh32 at h
  simp only [run_bind, run_query, run_pure, run_ite] at h
  split at h
  next => cases h
  next =>
    split at h
    next => cases h
    next hle =>
      cases h
      exact Nat.le_of_not_lt hle

/-- A buffer is doubled only while it is far below 64 MiB. -/
theorem exponent_lt {e used : Nat} {body : Option Nat}
    (hbody : ∀ n, body = some n → n ≤ MAX_CAPACITY)
    (hmore : used < recvTarget body)
    (hfree : 2 ^ 20 * 2 ^ e - used < RECV_SIZE) : e < 6 := by
  have hmax : MAX_CAPACITY = 52428800 := rfl
  have hsize : RECV_SIZE = 262144 := rfl
  have hhead : BINARY_HEADER_SIZE = 24 := rfl
  have htarget : recvTarget body ≤ 24 + MAX_CAPACITY := by
    cases body with
    | none => exact Nat.le_add_right 24 _
    | some n =>
        have hn := hbody n rfl
        show BINARY_HEADER_SIZE + n ≤ _
        omega
  by_contra he
  have hpow : 2 ^ 6 ≤ 2 ^ e := Nat.pow_le_pow_right (by omega) (by omega)
  omega

/-- All that growing changes, besides where the buffer lies. -/
theorem growBuf_frame (h : growBuf c k = some (some c', k')) :
    ∃ recvbuf capacity, c' = { c with recvbuf, capacity }
      ∧ (capacity = c.capacity ∨ c.capacity - c.used < RECV_SIZE
        ∧ capacity = c.capacity * 2) := by
  unfold growBuf at h
  split at h
  next hfree =>
    split at h
    next => cases h
    next => cases h
    next =>
      cases h
      exact ⟨_, _, rfl, .inr ⟨hfree, rfl⟩⟩
  next =>
    cases h
    exact ⟨_, _, rfl, .inl rfl⟩

/-- A buffer that grows keeps within its bounds. -/
theorem Capacity.grow {body : Option Nat} (hc : Capacity c.capacity)
    (hbody : ∀ n, body = some n → n ≤ MAX_CAPACITY)
    (hmore : c.used < recvTarget body)
    (h : growBuf c k = some (some c', k')) : Capacity c'.capacity := by
  obtain ⟨recvbuf, capacity, rfl, hcap⟩ := growBuf_frame h
  rcases hcap with rfl | ⟨hfree, rfl⟩
  · exact hc
  · obtain ⟨e, -, hpow⟩ := hc
    rw [hpow] at hfree
    refine ⟨e + 1, exponent_lt hbody hmore hfree, ?_⟩
    have hsucc : 2 ^ (e + 1) = 2 ^ e * 2 := Nat.pow_succ ..
    show c.capacity * 2 = _
    omega

-- ================================================================== blocks

/-- The blocks are those of the connection: `decompressed` points to the
one that is live, if any, and every block allocated is freed or live, in
the order of allocation, and not both. -/
structure Tracks (c : Conn) (b : Blocks) : Prop where
  pointer : c.decompressed = b.pointer.isSome
  order : b.freed ++ b.pointer.toList = List.range b.allocated

variable {b : Blocks}

theorem Tracks.congr (h : Tracks c b) (hc : c'.decompressed = c.decompressed) :
    Tracks c' b :=
  ⟨hc.trans h.pointer, h.order⟩

theorem Tracks.free (h : Tracks c b) (hc : c'.decompressed = false) :
    Tracks c' b.free := by
  refine ⟨hc, ?_⟩
  show (b.freed ++ b.pointer.toList) ++ [] = _
  rw [List.append_nil]
  exact h.order

/-- A connection without a block. -/
theorem Tracks.pointer_none (h : Tracks c b)
    (hc : c.decompressed = false) : b.pointer = none := by
  have hsome := h.pointer
  cases hp : b.pointer with
  | none => rfl
  | some n =>
      rw [hc, hp] at hsome
      cases hsome

/-- An allocation that meets no live block. -/
theorem Tracks.malloc (h : Tracks c b) (hnone : c.decompressed = false)
    {ok : Bool} (hc : c'.decompressed = ok) : Tracks c' (b.malloc ok) := by
  have hp := h.pointer_none hnone
  have horder := h.order
  rw [hp, Option.toList_none, List.append_nil] at horder
  cases ok with
  | false =>
      refine ⟨hc, ?_⟩
      show b.freed ++ [] = _
      rw [List.append_nil]
      exact horder
  | true =>
      refine ⟨hc, ?_⟩
      show b.freed ++ [b.allocated] = List.range (b.allocated + 1)
      rw [List.range_succ, horder]

-- =============================================================== invariant

namespace Receiver

/-- The invariant of a receiving thread. -/
structure Inv (w : Receiver) : Prop where
  buf : w.pc.Ok w.conn
  capacity : Capacity w.conn.capacity
  inCall : w.pc ≠ .idle → w.conn.lastSize = 0 ∧ w.conn.invalid = false
  body : ∀ n, w.pc.body = some n → n ≤ MAX_CAPACITY
  live : w.conn.decompressed = true →
    0 < w.conn.lastSize ∨ w.conn.invalid = true
  tracks : Tracks w.conn w.blocks

variable {w w' : Receiver}

/-- Without a packet to shift out a sound connection has no block. -/
theorem Inv.no_block (hw : w.Inv) (hlast : w.conn.lastSize = 0)
    (hinv : w.conn.invalid = false) : w.conn.decompressed = false := by
  cases hd : w.conn.decompressed with
  | false => rfl
  | true =>
      rcases hw.live hd with hpos | hbad
      · omega
      · rw [hinv] at hbad
        cases hbad

theorem inv_start {server : Except Error Int} {malloc : Option Mem}
    (hconn : yrmcdsConnect server malloc = .ok c) (k : Kernel) :
    (start c k).Inv := by
  unfold yrmcdsConnect at hconn
  split at hconn
  next => cases hconn
  next => cases hconn
  next fd buf =>
    cases hconn
    refine ⟨⟨Nat.le_refl _, Nat.zero_le _, ?_⟩, ⟨0, by omega, rfl⟩, ?_, ?_, ?_,
      ⟨rfl, rfl⟩⟩
    · show RECV_SIZE ≤ 2 ^ 20
      decide
    · exact fun hpc => absurd rfl hpc
    · exact fun n hn => by cases hn
    · exact fun hd => by cases hd

variable {pc pc' : RecvPc} {b' : Blocks}

/-- A call returns. -/
theorem Inv.returns (hw : Inv ⟨c, pc, k, b⟩) (hok : c'.BufOk)
    (hcap : c'.capacity = c.capacity)
    (hlive : c'.decompressed = true → 0 < c'.lastSize ∨ c'.invalid = true)
    (htracks : Tracks c' b') : Inv ⟨c', .idle, k', b'⟩ where
  buf := hok
  capacity := by
    have hcapacity := hw.capacity
    rwa [← hcap] at hcapacity
  inCall := fun hpc => absurd rfl hpc
  body := fun n hn => by cases hn
  live := hlive
  tracks := htracks

/-- A call goes on, without a block. -/
theorem Inv.goes (hok : pc'.Ok c') (hcap : Capacity c'.capacity)
    (hlast : c'.lastSize = 0) (hinv : c'.invalid = false)
    (hbody : ∀ n, pc'.body = some n → n ≤ MAX_CAPACITY)
    (hnone : c'.decompressed = false) (htracks : Tracks c' b') :
    Inv ⟨c', pc', k', b'⟩ where
  buf := hok
  capacity := hcap
  inCall := fun _ => ⟨hlast, hinv⟩
  body := hbody
  live := fun hd => by
    rw [hnone] at hd
    cases hd
  tracks := htracks

/-- A call begins: the block of the packet that is shifted out is freed. -/
theorem Inv.begins (hw : Inv ⟨c, .idle, k, b⟩) (hinv : c.invalid = false) :
    Inv ⟨c.shiftOut, .loop none, k, nextBlocks ⟨c, .idle, k, b⟩⟩ := by
  obtain ⟨hok, hlast, -, -, hinv'⟩ := shiftOut_spec hw.buf
  have hbody : ∀ n, (RecvPc.loop none).body = some n → n ≤ MAX_CAPACITY :=
    fun n hn => by cases hn
  have hblocks : nextBlocks ⟨c, .idle, k, b⟩
      = if c.lastSize > 0 then b.free else b := by
    simp [nextBlocks, hinv]
  rw [hblocks]
  by_cases hpos : c.lastSize > 0
  · have hshift : c.shiftOut.capacity = c.capacity
        ∧ c.shiftOut.decompressed = false := by
      unfold Conn.shiftOut
      rw [if_pos hpos]
      exact ⟨rfl, rfl⟩
    obtain ⟨hcap, hnone⟩ := hshift
    rw [if_pos hpos]
    refine Inv.goes hok ?_ hlast (hinv'.trans hinv) hbody hnone
      (hw.tracks.free hnone)
    rw [hcap]
    exact hw.capacity
  · have hzero : c.lastSize = 0 := Nat.eq_zero_of_not_pos hpos
    have hshift : c.shiftOut = c := if_neg hpos
    rw [if_neg hpos, hshift]
    exact Inv.goes hw.buf hw.capacity hzero hinv hbody
      (hw.no_block hzero hinv) hw.tracks

/-- A call ends with the packet: what it allocates meets no live block. -/
theorem Inv.packet {n : Nat} (hw : Inv ⟨c, .loop (some n), k, b⟩)
    (hfull : recvTarget (some n) ≤ c.used) {res : RecvResult}
    (h : recvPacket lz c k n = some (res, c', k')) :
    Inv ⟨c', .idle, k', nextBlocks ⟨c, .loop (some n), k, b⟩⟩ := by
  obtain ⟨hlast, hinv⟩ := hw.inCall (fun hpc => by cases hpc)
  have hnone := hw.no_block hlast hinv
  have hok := recvPacket_ok h hw.buf hfull
  have hpos : 0 < 24 + n := by omega
  have hblocks : nextBlocks ⟨c, .loop (some n), k, b⟩
      = if (run c.recvbuf.answer (decodeBody c.compressSize n)).mallocs then
        b.malloc (k.alloc.any fun x => x.1.isSome) else b :=
    if_neg (Nat.not_lt_of_le hfull)
  rw [hblocks]
  cases recvPacket_done h with
  | bad hd =>
      rw [if_neg (by rw [hd]; exact Bool.false_ne_true)]
      exact hw.returns hok rfl (fun _ => .inr rfl) (hw.tracks.congr rfl)
  | returned hd =>
      rw [if_neg (by rw [hd]; exact Bool.false_ne_true)]
      exact hw.returns hok rfl (fun _ => .inl hpos)
        (hw.tracks.congr rfl)
  | noBlock hd hk =>
      rw [if_pos hd, hk]
      exact hw.returns hok rfl (fun hd => by cases hd)
        (hw.tracks.malloc hnone rfl)
  | badBlock hd hk =>
      rw [if_pos hd, hk]
      exact hw.returns hok rfl (fun _ => .inr rfl) (hw.tracks.malloc hnone rfl)
  | inflated hd hk =>
      rw [if_pos hd, hk]
      exact hw.returns hok rfl (fun _ => .inl hpos)
        (hw.tracks.malloc hnone rfl)

/-- A step of `yrmcds_recv`. -/
theorem Inv.recv (hw : Inv ⟨c, pc, k, b⟩) {res : Option RecvResult}
    (h : recvStep lz pc c k = some (pc', c', k', res)) :
    Inv ⟨c', pc', k', nextBlocks ⟨c, pc, k, b⟩⟩ := by
  have hok := (recvStep_ok h hw.buf).1
  cases recvStepped h with
  | refused hinv =>
      have hblocks : nextBlocks ⟨c, .idle, k, b⟩ = b := by
        simp [nextBlocks, hinv]
      rw [hblocks]
      exact hw.returns hok rfl hw.live hw.tracks
  | begins hinv => exact hw.begins hinv
  | @noMemory body _ _ _ hmore hgrow =>
      have hblocks : nextBlocks ⟨c, .loop body, k, b⟩ = b := by
        cases body with
        | none => rfl
        | some n => exact if_pos hmore
      rw [hblocks]
      exact hw.returns hok rfl hw.live hw.tracks
  | @grows body _ _ _ _ hmore hgrow =>
      have hblocks : nextBlocks ⟨c, .loop body, k, b⟩ = b := by
        cases body with
        | none => rfl
        | some n => exact if_pos hmore
      obtain ⟨hlast, hinv⟩ := hw.inCall (fun hpc => by cases hpc)
      have hcap := hw.capacity.grow hw.body hmore hgrow
      obtain ⟨recvbuf, capacity, rfl, -⟩ := growBuf_frame hgrow
      rw [hblocks]
      exact Inv.goes hok hcap hlast hinv hw.body (hw.no_block hlast hinv)
        (hw.tracks.congr rfl)
  | badHeader =>
      exact hw.returns hok rfl (fun _ => .inr rfl) (hw.tracks.congr rfl)
  | header hfull hn =>
      obtain ⟨hlast, hinv⟩ := hw.inCall (fun hpc => by cases hpc)
      refine Inv.goes hok hw.capacity hlast hinv (fun n' hn' => ?_)
        (hw.no_block hlast hinv) hw.tracks
      cases hn'
      exact decodeHeader_le hn
  | packet hfull hdone => exact hw.packet hfull hdone
  | interrupted =>
      obtain ⟨hlast, hinv⟩ := hw.inCall (fun hpc => by cases hpc)
      exact Inv.goes hok hw.capacity hlast hinv hw.body
        (hw.no_block hlast hinv) hw.tracks
  | failed => exact hw.returns hok rfl hw.live hw.tracks
  | got hrecv =>
      obtain ⟨hlast, hinv⟩ := hw.inCall (fun hpc => by cases hpc)
      exact Inv.goes hok hw.capacity hlast hinv hw.body
        (hw.no_block hlast hinv) (hw.tracks.congr rfl)

/-- Every step keeps the invariant. -/
theorem inv_step (hw : w.Inv) {a : ReceiverAct} (h : step lz w a = .ok w') :
    w'.Inv := by
  obtain ⟨c, pc, k, b⟩ := w
  cases a with
  | recv =>
      rw [step] at h
      split at h
      next => cases h
      next hstep =>
        cases h
        exact hw.recv hstep
  | setCompression threshold =>
      rw [step] at h
      split at h
      next hpc =>
        cases h
        obtain ⟨hbuf, hcap, hin, hbody, hlive, htracks⟩ := hw
        dsimp only at hpc
        subst hpc
        exact ⟨⟨hbuf.last_le, hbuf.used_le, hbuf.recv_le⟩, hcap, hin, hbody,
          hlive, htracks.congr rfl⟩
      next => cases h

/-- And so does every run. -/
theorem inv_run {server : Except Error Int} {malloc : Option Mem}
    (hconn : yrmcdsConnect server malloc = .ok c) {acts : List ReceiverAct}
    (hrun : Run.exec (step lz) (start c k) acts = .ok w) : w.Inv :=
  Run.exec_inv (fun _ _ _ hw _ => inv_step hw) (inv_start hconn k)
    Run.guarded_true hrun

end Receiver

-- ============================================================ subtractions

/-- No subtraction wraps around. -/
def InRange (subtractions : List (Nat × Nat)) : Prop :=
  ∀ x ∈ subtractions, x.2 ≤ x.1

@[simp] theorem inRange_nil : InRange [] := fun x hx => by cases hx

@[simp] theorem inRange_cons {a b : Nat} {rest : List (Nat × Nat)} :
    InRange ((a, b) :: rest) ↔ b ≤ a ∧ InRange rest :=
  List.forall_mem_cons

@[simp] theorem inRange_append {rest rest' : List (Nat × Nat)} :
    InRange (rest ++ rest') ↔ InRange rest ∧ InRange rest' :=
  List.forall_mem_append

/-- The subtractions behind the flags: all but the last are in range, and
the last is made for a payload that is marked, no number and not empty. -/
theorem inRange_payload {lengths : List (Nat × Nat)}
    (hlengths : InRange lengths) (number marked : Prop) [Decidable number]
    [Decidable marked] (dataLen size : Nat) (malloc : Bool) :
    InRange (if number then lengths
        else if ¬ marked then lengths
        else if dataLen = 0 then lengths
        else if size > INT_MAX ∨ malloc = false then lengths
        else lengths ++ [(dataLen, 4)])
      ↔ ¬ (¬ number ∧ marked ∧ (0 < dataLen ∧ dataLen < 4)
        ∧ size ≤ INT_MAX ∧ malloc = true) := by
  by_cases hnum : number
  · rw [if_pos hnum]
    exact iff_of_true hlengths fun h => h.1 hnum
  · rw [if_neg hnum]
    by_cases hmark : marked
    · rw [if_neg (not_not_intro hmark)]
      by_cases hzero : dataLen = 0
      · rw [if_pos hzero]
        exact iff_of_true hlengths fun h => by omega
      · rw [if_neg hzero]
        by_cases hstop : size > INT_MAX ∨ malloc = false
        · rw [if_pos hstop]
          apply iff_of_true hlengths
          intro h
          obtain ⟨-, -, -, hsize, hblock⟩ := h
          rcases hstop with hlarge | hfail
          · omega
          · rw [hfail] at hblock
            cases hblock
        · rw [if_neg hstop, inRange_append]
          rw [not_or, Nat.not_lt, Bool.not_eq_false] at hstop
          constructor
          · intro hrange h
            obtain ⟨-, -, hshort, -⟩ := h
            have hle := (inRange_cons.mp hrange.2).1
            omega
          · intro hno
            refine ⟨hlengths, inRange_cons.mpr ⟨?_, inRange_nil⟩⟩
            by_contra hshort
            exact hno ⟨hnum, hmark, by omega, hstop⟩
    · rw [if_pos hmark]
      exact iff_of_true hlengths fun h => hmark h.2.1

/-- The subtractions of a decoding are in range, unless the payload is
marked and too short for its size word and comes as far as LZ4. -/
theorem decodeSubtractions_iff (m : Mem) (compressSize n : Nat)
    (malloc : Bool) :
    InRange (run m.answer (decodeSubtractions compressSize n malloc))
      ↔ ¬ (ShortMarked compressSize (m.slice 0 (BINARY_HEADER_SIZE + n))
        ∧ ofBE (m.slice (28 + ofBE (m.slice 2 2)) 4) ≤ INT_MAX
        ∧ malloc = true) := by
  have hhead : BINARY_HEADER_SIZE = 24 := rfl
  unfold decodeSubtractions byteAt ntoh16 ntoh32
  simp only [run_bind, run_query, run_pure, run_ite, answer_eq]
  generalize hkey : ofBE (m.slice 2 2) = keyLen
  generalize hext : ((m.slice 4 1).headD 0).toNat = extrasLen
  by_cases hfit : n < keyLen + extrasLen
  · rw [if_pos hfit]
    apply iff_of_true inRange_nil
    intro h
    have he := h.1.extras_slice
    have hp := h.1.pos_slice
    omega
  · rw [if_neg hfit, run_decodeFlags]
    have hlengths : InRange [(n, keyLen), (n - keyLen, extrasLen)] := by
      simp only [inRange_cons, inRange_nil, and_true]
      omega
    by_cases h0 : extrasLen = 0
    · rw [if_pos h0]
      dsimp only
      simp only [run_ite, run_pure, run_bind, run_query, answer_eq]
      rw [inRange_payload hlengths]
      apply iff_of_true (fun h => h.2.1.2 (by simp))
      intro h
      have he := h.1.extras_slice
      omega
    · rw [if_neg h0]
      by_cases h4 : extrasLen ≠ 4
      · rw [if_pos h4]
        dsimp only
        apply iff_of_true inRange_nil
        intro h
        exact h4 (hext.symm.trans h.1.extras_slice)
      · rw [not_not] at h4
        subst h4
        rw [if_neg (not_not_intro rfl), shortMarked_slice_iff (by omega), hkey]
        dsimp only
        simp only [run_ite, run_pure, run_bind, run_query, answer_eq]
        rw [inRange_payload hlengths]
        apply not_congr
        constructor
        · intro h
          obtain ⟨hnum, ⟨hc, hm⟩, hshort, hstop⟩ := h
          exact ⟨⟨hc, hext, hm, hnum, by omega, by omega⟩, hstop⟩
        · intro h
          obtain ⟨⟨hc, -, hm, hnum, hpos, hshort⟩, hstop⟩ := h
          exact ⟨hnum, ⟨hc, hm⟩, by omega, hstop⟩

namespace Receiver

variable {w : Receiver}

/-- A marked payload that is too short for its size word is about to be
handed to LZ4: a packet of that kind is in the buffer, what stands where
the size word should be is an `int`, and `malloc` will succeed. -/
def ShortBlock (w : Receiver) : Prop :=
  ∃ n, w.AtPacket n
    ∧ ShortMarked w.conn.compressSize
      (w.conn.recvbuf.slice 0 (BINARY_HEADER_SIZE + n))
    ∧ ofBE (w.conn.recvbuf.slice (28 + ofBE (w.conn.recvbuf.slice 2 2)) 4)
      ≤ INT_MAX
    ∧ w.malloc = true

/-- The subtractions of a step are in range, but for that case. -/
theorem Inv.inRange_iff (hw : w.Inv) :
    InRange w.subtractions ↔ ¬ w.ShortBlock := by
  obtain ⟨c, pc, k, b⟩ := w
  cases pc with
  | idle =>
      refine iff_of_true ?_ fun ⟨n, ⟨hpc, _⟩, _⟩ => by cases hpc
      show InRange (if _ then _ else _)
      split
      next => exact inRange_cons.mpr ⟨hw.buf.last_le, inRange_nil⟩
      next => exact inRange_nil
  | again body =>
      exact iff_of_true inRange_nil fun ⟨n, ⟨hpc, _⟩, _⟩ => by cases hpc
  | loop body =>
      show InRange (if c.used < recvTarget body then _ else _) ↔ _
      by_cases hmore : c.used < recvTarget body
      · rw [if_pos hmore]
        refine iff_of_true (inRange_cons.mpr ⟨hw.buf.used_le, inRange_nil⟩) ?_
        intro h
        obtain ⟨n, ⟨hpc, hfull⟩, -⟩ := h
        cases hpc
        exact Nat.not_lt_of_le hfull hmore
      · rw [if_neg hmore]
        cases body with
        | none =>
            exact iff_of_true inRange_nil fun ⟨n, ⟨hpc, _⟩, _⟩ => by cases hpc
        | some n =>
            dsimp only
            rw [decodeSubtractions_iff]
            refine not_congr ⟨fun h => ⟨n, ⟨rfl, Nat.le_of_not_lt hmore⟩, h⟩, ?_⟩
            intro h
            obtain ⟨n', ⟨hpc, -⟩, h⟩ := h
            cases hpc
            exact h

-- ================================================================= results

/-- What holds in every state of a receiving thread. -/
structure Sound (w : Receiver) : Prop where
  last_le : w.conn.lastSize ≤ w.conn.used
  used_le : w.conn.used ≤ w.conn.capacity
  power : ∃ e, w.conn.capacity = 2 ^ 20 * 2 ^ e
  bound : w.conn.capacity ≤ 64 * 2 ^ 20
  /-- There is room at `recv()`. -/
  room : ∀ body, w.pc = .again body →
    w.conn.used + RECV_SIZE ≤ w.conn.capacity
  /-- What it brings is written into the buffer. -/
  written : ∀ body bs k, w.pc = .again body →
    w.kernel.recv RECV_SIZE = some (.got bs, k) →
      w.conn.used + bs.length ≤ w.conn.capacity
  /-- One doubling makes that room. -/
  doubling : w.conn.used + RECV_SIZE ≤ w.conn.capacity * 2
  live : w.conn.decompressed = true →
    0 < w.conn.lastSize ∨ w.conn.invalid = true
  pointer : w.conn.decompressed = w.blocks.pointer.isSome
  /-- No block is overwritten while it is live. -/
  malloc : ∀ n, w.AtPacket n → (w.decoded n).mallocs = true →
    w.blocks.pointer = none
  /-- The blocks freed so far and the live one are those allocated. -/
  order : w.blocks.freed ++ w.blocks.pointer.toList
    = List.range w.blocks.allocated
  /-- When the connection is closed each of them has been freed once. -/
  closed : w.close.blocks.freed = List.range w.blocks.allocated

theorem Inv.sound (hw : w.Inv) : w.Sound := by
  have hok : w.conn.BufOk := by
    have hbuf := hw.buf
    cases hpc : w.pc with
    | idle => rw [hpc] at hbuf; exact hbuf
    | loop body => rw [hpc] at hbuf; exact hbuf
    | again body => rw [hpc] at hbuf; exact hbuf.1
  obtain ⟨hlast, hused, hrecv⟩ := hok
  have hroom : ∀ body, w.pc = .again body →
      w.conn.used + RECV_SIZE ≤ w.conn.capacity := by
    intro body hpc
    have hbuf := hw.buf
    rw [hpc] at hbuf
    have hfree := hbuf.2
    omega
  obtain ⟨e, he, hcap⟩ := hw.capacity
  refine ⟨hlast, hused, ⟨e, hcap⟩, ?_, hroom, ?_, ?_, hw.live,
    hw.tracks.pointer, ?_, hw.tracks.order, ?_⟩
  · have hpow : 2 ^ e ≤ 2 ^ 6 := Nat.pow_le_pow_right (by omega) he
    omega
  · intro body bs k hpc hgot
    obtain ⟨_, _, -, hdid⟩ := Kernel.recv_spec hgot
    have hfree := hroom body hpc
    have hlen := hdid.2.2
    omega
  · omega
  · intro n hat _
    obtain ⟨hzero, hinv⟩ := hw.inCall (fun hpc => by
      rw [hat.1] at hpc
      cases hpc)
    exact hw.tracks.pointer_none (hw.no_block hzero hinv)
  · exact hw.tracks.order

/-- The bounds of the receive buffer and the life of the blocks, in every
state a receiving thread reaches from `yrmcds_connect`, between its calls
and in them, whatever the kernel, the allocator, the peer and LZ4 do; and
when the arithmetic of the next step is in range. -/
theorem receiver_sound (lz : Lz4) {server : Except Error Int}
    {malloc : Option Mem} (hconn : yrmcdsConnect server malloc = .ok c)
    {acts : List ReceiverAct}
    (hrun : Run.exec (step lz) (start c k) acts = .ok w) :
    w.Sound ∧ (InRange w.subtractions ↔ ¬ w.ShortBlock) := by
  have hw := inv_run hconn hrun
  exact ⟨hw.sound, hw.inRange_iff⟩

/-- A response with one byte of data, compressed. -/
def oneCompressed : List UInt8 :=
  [0x81, 0, 0, 0, 4, 0, 0, 0, 0, 0, 0, 10, 1, 0, 0, 0, 0, 0, 0, 0, 0, 0, 0,
    0, 0x40, 0, 0, 0, 0, 0, 0, 1, 16, 97]

/-- It is received into a block that stays with the connection. -/
theorem receiver_sound_inflated :
    ∃ w, Run.exec (step Lz4.literals)
        (start (Conn.connected 3 fun _ => 0)
          ⟨oneCompressed, [.bytes 34, .block fun _ => 0]⟩)
        [.setCompression 16384, .recv, .recv, .recv, .recv, .recv] = .ok w
      ∧ w.blocks.pointer = some 0 ∧ w.Sound
      ∧ (InRange w.subtractions ↔ ¬ w.ShortBlock) := by
  obtain ⟨w, hrun, hp⟩ := Run.exists_of_ends
    (r := Run.exec (step Lz4.literals)
      (start (Conn.connected 3 fun _ => 0)
        ⟨oneCompressed, [.bytes 34, .block fun _ => 0]⟩)
      [.setCompression 16384, .recv, .recv, .recv, .recv, .recv])
    (p := fun w => decide (w.blocks.pointer = some 0)) (by decide +kernel)
  exact ⟨w, hrun, of_decide_eq_true hp, receiver_sound Lz4.literals
    (show yrmcdsConnect (.ok 3) (some fun _ => 0) = .ok _ from rfl) hrun⟩

/-- With one byte that is marked compressed but has no room for a size
word, `data_len - sizeof(uint32_t)` is 1 - 4. -/
theorem oneMarked_wraps :
    ∃ w, Run.exec (step Lz4.literals)
        (start (Conn.connected 3 fun _ => 0)
          ⟨oneMarked, [.bytes 29, .block fun _ => 0]⟩)
        [.setCompression 16384, .recv, .recv, .recv, .recv] = .ok w
      ∧ (1, 4) ∈ w.subtractions ∧ ¬ InRange w.subtractions := by
  obtain ⟨w, hrun, hp⟩ := Run.exists_of_ends
    (r := Run.exec (step Lz4.literals)
      (start (Conn.connected 3 fun _ => 0)
        ⟨oneMarked, [.bytes 29, .block fun _ => 0]⟩)
      [.setCompression 16384, .recv, .recv, .recv, .recv])
    (p := fun w => decide ((1, 4) ∈ w.subtractions)) (by decide +kernel)
  have hmem := of_decide_eq_true hp
  refine ⟨w, hrun, hmem, fun hrange => ?_⟩
  have hle := hrange (1, 4) hmem
  omega

end Receiver

end Yrmcds
