/-
Values of every size through `send_data`.

A value that is compressed has its length narrowed twice before any check
sees it: to an `int` for LZ4 and to 32 bits for the size word. LZ4 refuses
lengths above its maximum, so up to 2^32 nothing is lost; from there on the
low 32 bits of the length are all that is left of it, and a request with a
part of the value goes out (`sendData_represents_iff`). The check on
`MAX_DATA_SIZE` sees the length of the block.
-/
import Yrmcds.Proofs.Compression
import Yrmcds.Proofs.Send.Sync

namespace Yrmcds

open Endian Gather

variable {lz : Lz4}

/-- A request carries the whole value, as it is or compressed. -/
def Represents (lz : Lz4) (data : List UInt8) (p : Packet) : Prop :=
  p.payload = data
    ∨ (p.storedFlags &&& FLAG_COMPRESS ≠ 0 ∧ 4 ≤ p.payload.length
      ∧ ofBE (p.payload.take 4) = data.length
      ∧ p.payload.drop 4 = lz.compress data)

/-- What LZ4 writes fits what `LZ4_compressBound` says, whatever the length
is narrowed to. -/
theorem compressBytes_le_bound (hlz : lz.Lawful) (data : List UInt8) :
    (lz.compressBytes data (toInt data.length)).length
      ≤ lz4CompressBound (toInt data.length) := by
  have hmax : LZ4_MAX_INPUT_SIZE = 2113929216 := rfl
  unfold Lz4.compressBytes
  rw [toUnsigned_toInt]
  split
  next => exact Nat.zero_le _
  next hbig =>
    have hlen : (data.take (data.length % 2 ^ 32)).length
        = data.length % 2 ^ 32 := by
      rw [List.length_take]
      exact Nat.min_eq_left (Nat.mod_le _ _)
    have hbound := hlz.bound (data.take (data.length % 2 ^ 32))
      (by rw [hlen]; omega)
    rw [hlen] at hbound
    rw [toInt_natCast (by omega), Int.toNat_natCast]
    exact hbound

/-- Below 2^32 a block that is not empty is that of the whole value. -/
theorem compressBytes_whole {data : List UInt8}
    (hne : lz.compressBytes data (toInt data.length) ≠ [])
    (hlt : data.length < 2 ^ 32) :
    lz.compressBytes data (toInt data.length) = lz.compress data := by
  have hmax : LZ4_MAX_INPUT_SIZE = 2113929216 := rfl
  unfold Lz4.compressBytes at hne ⊢
  rw [toUnsigned_toInt, Nat.mod_eq_of_lt hlt] at hne ⊢
  by_cases hbig : data.length > LZ4_MAX_INPUT_SIZE
  · rw [if_pos hbig] at hne
    exact absurd rfl hne
  · rw [if_neg hbig, toInt_natCast (by omega), Nat.mod_eq_of_lt hlt,
      Int.toNat_natCast, List.take_length]

/-- A call that returns OK has written its frame. -/
theorem sendCommand_ok {c : Conn} {p : Packet} {acks : List Ack}
    (h : (sendCommand c p acks).result = some .ok) :
    ¬ p.rejected ∧ (sendCommand c p acks).written = p.frame (c.serial + 1) := by
  by_cases hrej : p.rejected
  · rw [sendCommand, if_pos hrej] at h
    cases h
  · exact ⟨hrej, (sendCommand_spec (c := c) acks hrej).of_ok h⟩

/-- A request that goes out carries the whole value exactly when the value
is not compressed or its length has 32 bits; and the buffer of the
compressor is large enough for any value. -/
theorem sendData_represents_iff (hlz : lz.Lawful) {c : Conn} {malloc : Bool}
    {cmd : Command} {key data : Ptr} {flags expire : UInt32} {cas : UInt64}
    {p : Packet} {acks : List Ack}
    (hp : sendData lz c malloc cmd key data flags expire cas = .ok p)
    (hok : (sendCommand c p acks).result = some .ok) :
    (sendCommand c p acks).written = p.frame (c.serial + 1)
    ∧ (lz.compressBytes data.bytes (toInt data.len)).length
      ≤ lz4CompressBound (toInt data.len)
    ∧ (Represents lz data.bytes p
      ↔ ¬ (c.compressSize > 0 ∧ data.len > c.compressSize)
        ∨ data.len < 2 ^ 32) := by
  obtain ⟨hrej, hwritten⟩ := sendCommand_ok hok
  obtain ⟨hlen, hcases⟩ := sendData_spec hp
  refine ⟨hwritten, ?_, ?_⟩
  · rw [hlen]
    exact compressBytes_le_bound hlz data.bytes
  · rcases hcases with ⟨hplain, -, hpay⟩ | ⟨hlong, -, hflags, hne, hpay⟩
    · exact iff_of_true (.inl hpay) (.inl hplain)
    · rw [hlen] at hlong hne hpay ⊢
      rw [or_iff_right (not_not_intro hlong)]
      constructor
      · rintro (hsame | ⟨-, -, hsize, -⟩)
        · have hmax : ¬ p.data.len > MAX_DATA_SIZE := fun h =>
            hrej (.inr (.inr (.inr (.inl h))))
          have hle : p.payload.length ≤ p.data.len := by
            rw [Packet.payload]
            cases p.data with
            | null n => exact Nat.zero_le n
            | buf bs => exact Nat.le_refl _
          rw [hsame] at hle
          have hcap : MAX_DATA_SIZE = 2 ^ 30 := rfl
          omega
        · rw [hpay, List.take_left' (by simp), ofBE_toBE] at hsize
          have hmod := Nat.mod_lt data.bytes.length (show 0 < 256 ^ 4 by decide)
          omega
      · intro hlt
        refine .inr ⟨?_, ?_, ?_, ?_⟩
        · rw [hflags, flags_marked]
          decide
        · rw [hpay, List.length_append, length_toBE]
          omega
        · rw [hpay, List.take_left' (by simp), ofBE_toBE_of_lt hlt]
        · rw [hpay, List.drop_left' (by simp), compressBytes_whole hne hlt]

-- ============================================================== instances

/-- A connection that compresses whatever is longer than four bytes. -/
def compressing (buf : Mem) : Conn :=
  (yrmcdsSetCompression (Conn.connected 3 buf) 4).2

/-- The request a value of zeros ends in that shows five of them to LZ4:
marked, with the size word 5 and a block of literals. -/
def fiveZeros : Packet where
  cmd := .set
  cas := 0
  key := .buf [107]
  extras := .buf [0x40, 0, 0, 0, 0, 0, 0, 0]
  data := .buf [0, 0, 0, 5, 80, 0, 0, 0, 0, 0]

/-- Every length that is 5 in its low 32 bits ends in the same request. -/
theorem sendData_fiveZeros (buf : Mem) {n : Nat} (h : n % 2 ^ 32 = 5) :
    sendData .literals (compressing buf) true .set (.buf [107])
      (.buf (List.replicate n 0)) 0 0 0 = .ok fiveZeros := by
  have hlen : (Ptr.buf (List.replicate n 0)).len = n := List.length_replicate
  have hblock : Lz4.literals.compressBytes (List.replicate n 0) (toInt n)
      = [80, 0, 0, 0, 0, 0] := by
    unfold Lz4.compressBytes
    rw [toUnsigned_toInt, h, toInt_natCast (by omega), h, if_neg (by decide),
      List.take_replicate, Int.toNat_natCast, Nat.min_eq_left (by omega)]
    rfl
  have hword : toBE 4 n = [0, 0, 0, 5] := by
    have hofBE := ofBE_toBE 4 n
    rw [show 256 ^ 4 = 2 ^ 32 from rfl, h] at hofBE
    rw [← toBE_ofBE (toBE 4 n), hofBE, length_toBE]
    rfl
  unfold sendData
  rw [if_neg (by rw [hlen]; simp [Ptr.isNull, Ptr.len]; omega),
    if_pos (by rw [hlen]; exact ⟨Nat.zero_lt_succ 3, by show n > 4; omega⟩), hlen]
  simp only [Ptr.bytes, hblock, hword]
  rfl

/-- The frame of the request goes out. -/
theorem fiveZeros_sent (buf : Mem) :
    (sendCommand (compressing buf) fiveZeros [.took 43]).result = some .ok :=
  rfl

/-- A value of five bytes goes out whole. -/
theorem sendData_represents_five :
    Represents .literals [0, 0, 0, 0, 0] fiveZeros :=
  ((sendData_represents_iff Lz4.literals_lawful
    (sendData_fiveZeros (fun _ => 0) (n := 5) rfl) (fiveZeros_sent _)).2.2).mpr
    (.inr (by decide))

/-- A value of 2^32 + 5 bytes is accepted, and five of them go out. -/
theorem hugeValue_truncated :
    ∃ (lz : Lz4) (c : Conn) (data : Ptr) (p : Packet) (acks : List Ack),
      lz.Lawful
      ∧ data.len = 2 ^ 32 + 5
      ∧ sendData lz c true .set (.buf [107]) data 0 0 0 = .ok p
      ∧ (sendCommand c p acks).result = some .ok
      ∧ ¬ Represents lz data.bytes p := by
  have hlen : (Ptr.buf (List.replicate (2 ^ 32 + 5) 0)).len = 2 ^ 32 + 5 :=
    List.length_replicate
  refine ⟨.literals, compressing (fun _ => 0), .buf (List.replicate (2 ^ 32 + 5) 0),
    fiveZeros, [.took 43], Lz4.literals_lawful, hlen,
    sendData_fiveZeros _ (by decide), fiveZeros_sent _, ?_⟩
  rintro (hsame | ⟨-, -, hsize, -⟩)
  · have hcount := congrArg List.length hsame
    rw [show (Ptr.buf (List.replicate (2 ^ 32 + 5) 0)).bytes.length
      = 2 ^ 32 + 5 from List.length_replicate] at hcount
    exact absurd hcount (by decide)
  · rw [show (Ptr.buf (List.replicate (2 ^ 32 + 5) 0)).bytes.length
      = 2 ^ 32 + 5 from List.length_replicate] at hsize
    exact absurd hsize (by decide)

end Yrmcds
