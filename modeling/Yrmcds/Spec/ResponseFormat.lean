/-
The response format, as a reader of whole streams sees it: a stream of
packets of `24 + total_len` bytes, each a header, extras, a key and a
payload. This is the reference the receiving code is compared with; it
knows nothing of buffers, offsets or calls.

A packet violates the format when its magic byte is not `0x81`, its body
is above 50 MiB, its key and extras do not fit the body, its extras are
neither absent nor the four bytes of flags, it is a successful
`Increment`/`Decrement` whose payload is not eight bytes, or compression
is on and the payload is marked compressed but does not decode.
-/
import Yrmcds.Lib.Framing
import Yrmcds.Model.Recv

namespace Yrmcds

open Endian Framing

/-- A list of bytes as a block of memory. -/
def Mem.ofList (bs : List UInt8) : Mem := fun i => bs.getD i 0

/-- Bytes `off .. off + len` of a packet. -/
def field (s : List UInt8) (off len : Nat) : List UInt8 :=
  (s.drop off).take len

/-- A payload marked compressed: a four-byte size and an LZ4 block that
decodes to exactly that size. -/
def unpack (lz : Lz4) (payload : List UInt8) : Option (List UInt8) :=
  if payload.length < 4 then none
  else if ofBE (payload.take 4) > INT_MAX then none
  else
    match lz.decompressSafe (Mem.ofList (payload.drop 4))
        (payload.length - 4 : Nat) (ofBE (payload.take 4)) with
    | some data =>
        if data.length = ofBE (payload.take 4) then some data else none
    | none => none

/-- The flags and data of a retrieval, transparently decompressed. -/
def unpackIfMarked (lz : Lz4) (compressSize : Nat) (flags : UInt32)
    (payload : List UInt8) : Option (UInt32 × List UInt8) :=
  if compressSize ≠ 0 ∧ flags &&& FLAG_COMPRESS ≠ 0 then
    match unpack lz payload with
    | some data => some (flags &&& ~~~FLAG_COMPRESS, data)
    | none => none
  else some (flags, payload)

/-- The response a whole packet stands for. -/
def refDecode (lz : Lz4) (compressSize : Nat) (p : List UInt8) :
    Option Response :=
  let keyLen := ofBE (field p 2 2)
  let extrasLen := ((field p 4 1).headD 0).toNat
  let body := p.drop 24
  let payload := body.drop (extrasLen + keyLen)
  let flags := UInt32.ofNat
    (if extrasLen > 0 then ofBE (body.take extrasLen) else 0)
  let r : Response :=
    { serial := UInt32.ofNat (ofLE (field p 12 4))
      length := p.length
      status := UInt16.ofNat (ofBE (field p 6 2))
      command := (field p 1 1).headD 0
      casUnique := UInt64.ofNat (ofBE (field p 16 8))
      flags
      key := (body.drop extrasLen).take keyLen
      data := []
      value := 0 }
  if body.length < keyLen + extrasLen then none
  else if extrasLen ≠ 0 ∧ extrasLen ≠ 4 then none
  else if (r.command = Command.increment.code
      ∨ r.command = Command.decrement.code) ∧ r.status = Status.ok then
    if payload.length = 8 then
      some { r with value := UInt64.ofNat (ofBE payload) }
    else none
  else
    match unpackIfMarked lz compressSize flags payload with
    | some (flags, data) => some { r with flags, data }
    | none => none

/-- The body length a whole header announces, if the header is
acceptable. -/
def refHeader (s : List UInt8) : Option Nat :=
  if s.headD 0 ≠ 0x81 then none
  else if ofBE (field s 8 4) > MAX_CAPACITY then none
  else some (ofBE (field s 8 4))

/-- The verdict on the front of a stream. -/
def refCut (lz : Lz4) (compressSize : Nat) (s : List UInt8) : Cut Response :=
  if s.length < 24 then .more
  else
    match refHeader s with
    | none => .bad
    | some totalLen =>
        if s.length < 24 + totalLen then .more
        else
          match refDecode lz compressSize (s.take (24 + totalLen)) with
          | some r => .frame (24 + totalLen) r
          | none => .bad

-- ===================================================== final verdicts

/-- A field of a stream is there as soon as its bytes are. -/
theorem field_append {s : List UInt8} {off len : Nat} (t : List UInt8)
    (h : off + len ≤ s.length) : field (s ++ t) off len = field s off len := by
  rw [field, field, List.drop_append_of_le_length (by omega),
    List.take_append_of_le_length (by rw [List.length_drop]; omega)]

/-- A field that is there has its length. -/
theorem length_field {s : List UInt8} {off len : Nat}
    (h : off + len ≤ s.length) : (field s off len).length = len := by
  rw [field, List.length_take, List.length_drop]
  omega

/-- A prefix has the fields it reaches over. -/
theorem field_take {s : List UInt8} {off len n : Nat} (h : off + len ≤ n) :
    field (s.take n) off len = field s off len := by
  rw [field, field, List.drop_take, List.take_take, Nat.min_eq_left (by omega)]

/-- A prefix and the field behind it. -/
theorem take_field (s : List UInt8) (off len : Nat) :
    s.take (off + len) = s.take off ++ field s off len := List.take_add

/-- A field behind a first piece. -/
theorem field_skip {a b : List UInt8} (n : Nat) {off len : Nat}
    (ha : a.length = n) (h : n ≤ off) :
    field (a ++ b) off len = field b (off - n) len := by
  rw [field, field, List.drop_append, ha,
    List.drop_eq_nil_of_le (by omega), List.nil_append]

/-- A field that is the first piece. -/
theorem field_here {a b : List UInt8} {n : Nat} (ha : a.length = n) :
    field (a ++ b) 0 n = a := by
  subst ha
  rw [field, List.drop_zero, List.take_left]

theorem headD_append {s : List UInt8} (t : List UInt8) (h : 0 < s.length) :
    (s ++ t).headD 0 = s.headD 0 := by
  cases s with
  | nil => cases h
  | cons b s => rfl

/-- A header is read from its 24 bytes. -/
theorem refHeader_append {s : List UInt8} (t : List UInt8)
    (h : 24 ≤ s.length) : refHeader (s ++ t) = refHeader s := by
  rw [refHeader, refHeader, headD_append t (by omega),
    field_append t (by omega)]

/-- A verdict other than "more" does not change when the stream goes
on. -/
theorem refCut_append {lz : Lz4} {compressSize : Nat} {s : List UInt8}
    (t : List UInt8) (h : refCut lz compressSize s ≠ .more) :
    refCut lz compressSize (s ++ t) = refCut lz compressSize s := by
  rw [refCut] at h
  rw [refCut, refCut, List.length_append]
  by_cases hlen : s.length < 24
  · rw [if_pos hlen] at h
    exact absurd rfl h
  · rw [if_neg hlen] at h ⊢
    rw [if_neg (by omega), refHeader_append t (by omega)]
    split
    next => rfl
    next totalLen heq =>
      rw [heq] at h
      dsimp only at h
      by_cases htot : s.length < 24 + totalLen
      · rw [if_pos htot] at h
        exact absurd rfl h
      · rw [if_neg htot, if_neg (by omega),
          List.take_append_of_le_length (by omega)]

/-- A frame is cut from at least its own bytes. -/
theorem refCut_frame {lz : Lz4} {compressSize n : Nat} {s : List UInt8}
    {r : Response} (h : refCut lz compressSize s = .frame n r) :
    24 ≤ n ∧ n ≤ s.length := by
  rw [refCut] at h
  split at h
  next => cases h
  next =>
    split at h
    next => cases h
    next totalLen heq =>
      split at h
      next => cases h
      next hlen =>
        split at h
        next => cases h; omega
        next => cases h

/-- The response format of a connection with the given compression
setting. -/
def responseFormat (lz : Lz4) (compressSize : Nat) :
    Format UInt8 Response where
  cut := refCut lz compressSize
  size_pos h := by
    have hsize := refCut_frame h
    omega
  size_le h := (refCut_frame h).2
  frame_append t h := by
    rw [refCut_append t (by rw [h]; intro hm; cases hm)]
    exact h
  bad_append t h := by
    rw [refCut_append t (by rw [h]; intro hm; cases hm)]
    exact h

end Yrmcds
