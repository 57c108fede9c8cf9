/-
Decoding in place against decoding a packet.

`yrmcds_recv` reads the receive buffer at computed offsets; the reference
takes a packet apart. `finish_decodeBody` is their agreement on every
packet that is wholly in the buffer: header, extras, the numeric answer
of `Increment`/`Decrement` and the transparent decompression, each a
lemma of its own over the same buffer.

Only one read of the code leaves the packet: with one to three payload
bytes marked compressed the size word reaches behind it. Whatever is
found there, the input length handed to LZ4 is negative and the call ends
in a protocol error, as the reference says (`finish_decodeData`).
-/
import Yrmcds.Proofs.Recv.Buffer
import Yrmcds.Spec.ResponseFormat

namespace Yrmcds

open Endian Query

variable {lz : Lz4}

-- ====================================================== vocabulary

/-- What a decoding comes to once `malloc` has succeeded. -/
def Decoded.finish (lz : Lz4) (m : Mem) : Decoded → Option Response
  | .bad => none
  | .packet r => some r
  | .inflate r off inputSize size =>
      match lz.decompressSafe (fun i => m (off + i)) inputSize size with
      | some data => if data.length = size then some { r with data } else none
      | none => none

/-- Every response of a decoding carries the length of its packet. -/
def Decoded.LengthIs (n : Nat) : Decoded → Prop
  | .bad => True
  | .packet r => r.length = n
  | .inflate r _ _ _ => r.length = n

/-- The narrowing to `int` is the identity on its range. -/
theorem toInt_of_range {n : Int} (hlo : -2 ^ 31 ≤ n) (hhi : n < 2 ^ 31) :
    toInt n = n := by
  unfold toInt
  exact Int.bmod_eq_of_le (by omega) (by omega)

theorem answer_eq (m : Mem) (off len : Nat) :
    m.answer ⟨off, len⟩ = m.slice off len := rfl

/-- A field of a packet in the buffer is a slice of the buffer. -/
theorem field_slice (m : Mem) {n off len : Nat} (h : off + len ≤ n) :
    field (m.slice 0 n) off len = m.slice off len := by
  rw [field, Mem.drop_slice _ _ _ _ (by omega), Mem.take_slice _ _ _ _ (by omega),
    Nat.zero_add]

theorem drop_slice_zero (m : Mem) {n off : Nat} (h : off ≤ n) :
    (m.slice 0 n).drop off = m.slice off (n - off) := by
  rw [Mem.drop_slice _ _ _ _ h, Nat.zero_add]

-- ======================================================== the pieces

theorem run_decodeFlags (m : Mem) (e : Nat) :
    run m.answer (decodeFlags e)
      = if e = 0 then some 0
        else if e ≠ 4 then none
        else some (UInt32.ofNat (ofBE (m.slice 24 4))) := by
  unfold decodeFlags ntoh32
  simp only [run_bind, run_query, run_pure, run_ite]
  rfl

theorem run_decodeValue (m : Mem) (r : Response) (pdata dataLen : Nat) :
    run m.answer (decodeValue r pdata dataLen)
      = if dataLen ≠ 8 then .bad
        else .packet { r with
          value := UInt64.ofNat (ofBE (m.slice pdata 8)) } := by
  unfold decodeValue ntoh64
  simp only [run_bind, run_query, run_pure, run_ite]
  rfl

theorem run_decodeData (m : Mem) (compressSize : Nat) (r : Response)
    (pdata dataLen : Nat) :
    run m.answer (decodeData compressSize r pdata dataLen)
      = if ¬ (compressSize ≠ 0 ∧ r.flags &&& FLAG_COMPRESS ≠ 0) then
          .packet { r with data := m.slice pdata dataLen }
        else if dataLen = 0 then .bad
        else if ofBE (m.slice pdata 4) > INT_MAX then .bad
        else .inflate { r with flags := r.flags &&& ~~~FLAG_COMPRESS }
          (pdata + 4) (toInt ((dataLen : Int) - 4))
          (ofBE (m.slice pdata 4)) := by
  unfold decodeData ntoh32
  simp only [run_bind, run_query, run_pure, run_ite]
  rfl

/-- The LZ4 call on a whole block in the buffer is the one on the
block. -/
theorem decompress_slice (hlz : lz.Lawful) (m : Mem) (off n size : Nat) :
    lz.decompressSafe (fun i => m (off + i)) (n : Nat) size
      = lz.decompressSafe (Mem.ofList (m.slice off n)) (n : Nat) size := by
  apply hlz.inside _ _ n size
  intro i hi
  show m (off + i) = (m.slice off n).getD i 0
  simp [List.getD, Mem.slice, hi]

/-- The data of a response: decompressed exactly when it is marked and
compression is on, and refused exactly when it does not decode. -/
theorem finish_decodeData (hlz : lz.Lawful) (m : Mem) (compressSize : Nat)
    (r : Response) (pdata : Nat) {dataLen : Nat}
    (hlen : dataLen ≤ MAX_CAPACITY) :
    (run m.answer (decodeData compressSize r pdata dataLen)).finish lz m
      = match unpackIfMarked lz compressSize r.flags
            (m.slice pdata dataLen) with
        | some (flags, data) => some { r with flags, data }
        | none => none := by
  have hmax : MAX_CAPACITY = 52428800 := rfl
  rw [run_decodeData, unpackIfMarked]
  by_cases hmark : compressSize ≠ 0 ∧ r.flags &&& FLAG_COMPRESS ≠ 0
  · rw [if_neg (not_not_intro hmark), if_pos hmark, unpack,
      Mem.length_slice]
    by_cases hshort : dataLen < 4
    · -- the size word reaches behind the packet: a negative input length
      rw [if_pos hshort]
      have hneg : toInt ((dataLen : Int) - 4) < 0 := by
        rw [toInt_of_range] <;> omega
      split
      · rfl
      · split
        · rfl
        · rw [Decoded.finish, hlz.neg _ _ _ hneg]
    · rw [if_neg hshort, if_neg (by omega), Mem.take_slice _ _ _ _ (by omega),
        Mem.drop_slice _ _ _ _ (by omega)]

      by_cases hbig : ofBE (m.slice pdata 4) > INT_MAX
      · rw [if_pos hbig, if_pos hbig]
        rfl
      · have hint : toInt ((dataLen : Int) - 4) = ((dataLen - 4 : Nat) : Int) := by
          rw [toInt_of_range] <;> omega
        rw [if_neg hbig, if_neg hbig, Decoded.finish, hint,
          decompress_slice hlz]
        cases lz.decompressSafe (Mem.ofList (m.slice (pdata + 4) (dataLen - 4)))
            (dataLen - 4 : Nat) (ofBE (m.slice pdata 4)) with
        | none => rfl
        | some data =>
            dsimp only
            by_cases hsize : data.length = ofBE (m.slice pdata 4)
            · rw [if_pos hsize, if_pos hsize]
            · rw [if_neg hsize, if_neg hsize]
  · rw [if_pos hmark, if_neg hmark]
    rfl
/-- The number of a successful `Increment`/`Decrement`. -/
theorem finish_decodeValue (m : Mem) (r : Response) (pdata dataLen : Nat) :
    (run m.answer (decodeValue r pdata dataLen)).finish lz m
      = if dataLen = 8 then
          some { r with value := UInt64.ofNat (ofBE (m.slice pdata dataLen)) }
        else none := by
  rw [run_decodeValue]
  by_cases h : dataLen = 8
  · rw [if_neg (not_not_intro h), if_pos h, h]
    rfl
  · rw [if_pos h, if_neg h]
    rfl

-- ===================================================== the whole packet

/-- The flags of a packet whose extras are in order. -/
theorem flags_eq (m : Mem) {e : Nat} (h : e = 0 ∨ e = 4) :
    (if e = 0 then some 0
      else if e ≠ 4 then none
      else some (UInt32.ofNat (ofBE (m.slice 24 4))))
      = some (UInt32.ofNat (if e > 0 then ofBE (m.slice 24 e) else 0)) := by
  rcases h with rfl | rfl
  · rfl
  · rfl

/-- Decoding a packet in the buffer is decoding the packet. -/
theorem finish_decodeBody (hlz : lz.Lawful) (m : Mem) (compressSize : Nat)
    {totalLen : Nat} (htot : totalLen ≤ MAX_CAPACITY) :
    (run m.answer (decodeBody compressSize totalLen)).finish lz m
      = refDecode lz compressSize (m.slice 0 (24 + totalLen)) := by
  unfold decodeBody byteAt ntoh16 ntoh64 host32 refDecode
  simp only [run_bind, run_query, run_pure, run_ite, run_decodeFlags,
    answer_eq, Mem.length_slice, BINARY_HEADER_SIZE]
  rw [field_slice _ (by omega), field_slice _ (by omega),
    field_slice _ (by omega), field_slice _ (by omega),
    field_slice _ (by omega), field_slice _ (by omega),
    drop_slice_zero _ (by omega), Mem.length_slice,
    show 24 + totalLen - 24 = totalLen by omega]
  generalize hkey : ofBE (m.slice 2 2) = keyLen
  generalize hext : ((m.slice 4 1).headD 0).toNat = extrasLen
  by_cases hfit : totalLen < keyLen + extrasLen
  · rw [if_pos hfit, if_pos hfit]
    rfl
  · rw [if_neg hfit, if_neg hfit,
      Mem.drop_slice _ _ _ _ (by omega), Mem.drop_slice _ _ _ _ (by omega),
      Mem.take_slice _ _ _ _ (by omega), Mem.take_slice _ _ _ _ (by omega),
      Mem.length_slice, show totalLen - (extrasLen + keyLen)
        = totalLen - keyLen - extrasLen by omega,
      show 24 + (extrasLen + keyLen) = 24 + extrasLen + keyLen by omega]
    by_cases hodd : extrasLen ≠ 0 ∧ extrasLen ≠ 4
    · rw [if_pos hodd, if_neg hodd.1, if_pos hodd.2]
      rfl
    · rw [if_neg hodd, flags_eq m (by omega)]
      dsimp only
      rw [run_ite]
      split
      · rw [finish_decodeValue]
      · exact finish_decodeData hlz _ _ _ _ (by omega)

-- ============================================================== lengths

theorem lengthIs_decodeValue (m : Mem) (r : Response) (pdata dataLen : Nat) :
    (run m.answer (decodeValue r pdata dataLen)).LengthIs r.length := by
  rw [run_decodeValue]
  split
  · trivial
  · rfl

theorem lengthIs_decodeData (m : Mem) (compressSize : Nat) (r : Response)
    (pdata dataLen : Nat) :
    (run m.answer (decodeData compressSize r pdata dataLen)).LengthIs
      r.length := by
  rw [run_decodeData]
  split
  · rfl
  · split
    · trivial
    · split
      · trivial
      · rfl

/-- `r->length` is the length of the packet, whichever way it was
decoded. -/
theorem lengthIs_decodeBody (m : Mem) (compressSize totalLen : Nat) :
    (run m.answer (decodeBody compressSize totalLen)).LengthIs
      (BINARY_HEADER_SIZE + totalLen) := by
  unfold decodeBody
  simp only [run_bind, run_ite]
  split
  · trivial
  · split
    · rw [run_ite]
      split
      · exact lengthIs_decodeValue ..
      · exact lengthIs_decodeData ..
    · trivial

end Yrmcds
