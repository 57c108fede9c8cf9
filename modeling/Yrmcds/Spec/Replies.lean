/-
Answers without extras, as a server of the command line tool sends them,
and servers that send nothing else.

An answer has a key and data, or it is the number of an `Increment` or a
`Decrement`. Each is one packet for a reader (`Reply.cut_packet`), so what
a server sends is read as the responses it stands for, without a violation
(`Responder.parse_peer`, `Responder.no_violation`).
-/
import Yrmcds.Model.YcCommands
import Yrmcds.Spec.RequestFormat
import Yrmcds.Spec.Retrieval

namespace Yrmcds

open Endian Framing

-- ========================================================== keys and data

/-- An answer with a key and data, and no extras. -/
structure KeyedAnswer where
  command : UInt8
  status : Status
  serial : UInt32
  key : List UInt8
  data : List UInt8

namespace KeyedAnswer

/-- The header by its fields. -/
def fields (k : KeyedAnswer) : ResponseHeader where
  command := k.command
  keyLen := k.key.length
  extrasLen := 0
  dataType := 0
  status := k.status
  totalLen := k.key.length + k.data.length
  serial := k.serial
  casUnique := 0

/-- The packet on the wire. -/
def packet (k : KeyedAnswer) : List UInt8 :=
  k.fields.bytes ++ (k.key ++ k.data)

/-- The response a reader is to return for the packet. -/
def response (k : KeyedAnswer) : Response where
  serial := k.serial
  length := 24 + (k.key.length + k.data.length)
  status := k.status
  command := k.command
  casUnique := 0
  flags := 0
  key := k.key
  data := k.data
  value := 0

/-- The lengths fit their fields and a reader's buffer, and a good answer is
not one to a command that is answered with a number. -/
structure WellFormed (k : KeyedAnswer) : Prop where
  key_lt : k.key.length < 2 ^ 16
  total_le : k.key.length + k.data.length ≤ MAX_CAPACITY
  plain : ¬ ((k.command = Command.increment.code
    ∨ k.command = Command.decrement.code) ∧ k.status = Status.ok)

theorem length_packet (k : KeyedAnswer) :
    k.packet.length = 24 + (k.key.length + k.data.length) := by
  rw [packet, List.length_append, List.length_append, k.fields.length_bytes]

/-- The packet as the reference decodes it. -/
theorem refDecode_packet (lz : Lz4) (compressSize : Nat) {k : KeyedAnswer}
    (hk : k.WellFormed) :
    refDecode lz compressSize k.packet = some k.response := by
  obtain ⟨hcommand, hkey, hextras, hstatus, -, hserial, hcas⟩ :=
    k.fields.fields (k.key ++ k.data)
  have hdrop := k.fields.drop_bytes (k.key ++ k.data)
  have hunmarked : unpackIfMarked lz compressSize 0 k.data
      = some (0, k.data) := if_neg fun hm => hm.2 (by decide)
  rw [show k.fields.bytes ++ (k.key ++ k.data) = k.packet from rfl]
    at hcommand hkey hextras hstatus hserial hcas hdrop
  unfold refDecode
  simp only [hkey, hextras, hstatus, hserial, hcas, hcommand, hdrop,
    List.headD_cons, fields, UInt8.toNat_zero, Nat.zero_add, Nat.add_zero,
    List.drop_zero]
  rw [ofBE_toBE_of_lt (show k.key.length < 256 ^ 2 from hk.key_lt),
    List.length_append, if_neg (by omega), if_neg (by decide),
    ofBE_toBE_of_lt (show k.status.toNat < 256 ^ 2 from k.status.toNat_lt),
    UInt16.ofNat_toNat, if_neg hk.plain, if_neg (by decide), List.drop_left,
    List.take_left, show UInt32.ofNat 0 = 0 from rfl, hunmarked,
    ofLE_toLE_of_lt (show k.serial.toNat < 256 ^ 4 from k.serial.toNat_lt),
    UInt32.ofNat_toNat, k.length_packet]
  rfl

/-- The packet is one frame, and says what it was written for. -/
theorem cut_packet (lz : Lz4) (compressSize : Nat) {k : KeyedAnswer}
    (hk : k.WellFormed) :
    (responseFormat lz compressSize).cut k.packet
      = .frame k.packet.length k.response := by
  have hmax : MAX_CAPACITY < 2 ^ 32 := by decide
  have htotal := hk.total_le
  have hcut := k.fields.refCut_bytes lz compressSize
    (show k.key.length + k.data.length < 2 ^ 32 by omega)
    (show (k.key ++ k.data).length = k.key.length + k.data.length
      from List.length_append) []
  rw [List.append_nil,
    show k.fields.bytes ++ (k.key ++ k.data) = k.packet from rfl,
    show k.fields.totalLen = k.key.length + k.data.length from rfl,
    if_neg (by omega), refDecode_packet lz compressSize hk,
    ← k.length_packet] at hcut
  exact hcut

end KeyedAnswer

-- ================================================================ numbers

namespace Yc

/-- An answer: a key and data, or a number. -/
inductive Reply where
  | plain (k : KeyedAnswer)
  | number (command : UInt8) (serial : UInt32) (value : UInt64)

namespace Reply

/-- The header of a number. -/
def numberFields (command : UInt8) (serial : UInt32) : ResponseHeader where
  command
  keyLen := 0
  extrasLen := 0
  dataType := 0
  status := Status.ok
  totalLen := 8
  serial
  casUnique := 0

/-- The packet on the wire. -/
def packet : Reply → List UInt8
  | plain k => k.packet
  | number command serial value =>
      (numberFields command serial).bytes ++ toBE 8 value.toNat

/-- The response a reader is to return for the packet. -/
def response : Reply → Response
  | plain k => k.response
  | number command serial value =>
      { serial
        length := 32
        status := Status.ok
        command
        casUnique := 0
        flags := 0
        key := []
        data := []
        value }

/-- A reader accepts the packet. -/
def WellFormed : Reply → Prop
  | plain k => k.WellFormed
  | number command _ _ => command = Command.increment.code
      ∨ command = Command.decrement.code

/-- The packet of a number is one frame. -/
theorem cut_number (lz : Lz4) (compressSize : Nat) {command : UInt8}
    {serial : UInt32} {value : UInt64}
    (h : (number command serial value).WellFormed) :
    refCut lz compressSize (number command serial value).packet
      = .frame 32 (number command serial value).response := by
  have hlen : (toBE 8 value.toNat).length = 8 := length_toBE 8 _
  have hcut := (numberFields command serial).refCut_bytes lz compressSize
    (show 8 < 2 ^ 32 by decide) hlen []
  obtain ⟨hcommand, hkey, hextras, hstatus, -, hserial, hcas⟩ :=
    (numberFields command serial).fields (toBE 8 value.toNat)
  have hdrop := (numberFields command serial).drop_bytes (toBE 8 value.toNat)
  have hdecode : refDecode lz compressSize (number command serial value).packet
      = some (number command serial value).response := by
    have hzero : ofBE (toBE 2 0) = 0 := ofBE_toBE_of_lt (by decide)
    have hok : UInt16.ofNat (ofBE (toBE 2 Status.ok.toNat)) = Status.ok := by
      decide
    rw [show (numberFields command serial).bytes ++ toBE 8 value.toNat
      = (number command serial value).packet from rfl]
      at hcommand hkey hextras hstatus hserial hcas hdrop
    unfold refDecode
    simp only [hkey, hextras, hstatus, hserial, hcas, hcommand, hdrop, hzero,
      List.headD_cons, numberFields, UInt8.toNat_zero, Nat.add_zero,
      List.drop_zero, List.take_zero, hok]
    rw [if_neg (by omega), if_neg (by decide), if_pos ⟨h, trivial⟩, if_pos hlen,
      ofBE_toBE_of_lt (show value.toNat < 256 ^ 8 from value.toNat_lt),
      ofLE_toLE_of_lt (show serial.toNat < 256 ^ 4 from serial.toNat_lt),
      UInt32.ofNat_toNat, UInt64.ofNat_toNat]
    rfl
  rw [List.append_nil, show (numberFields command serial).totalLen = 8 from rfl,
    if_neg (show ¬ 8 > MAX_CAPACITY by decide),
    show (numberFields command serial).bytes ++ toBE 8 value.toNat
      = (number command serial value).packet from rfl, hdecode] at hcut
  exact hcut

/-- The packet is one frame, and says what it was written for. -/
theorem cut_packet (lz : Lz4) (compressSize : Nat) {r : Reply}
    (h : r.WellFormed) :
    (responseFormat lz compressSize).cut r.packet
      = .frame r.packet.length r.response := by
  cases r with
  | plain k => exact KeyedAnswer.cut_packet lz compressSize h
  | number command serial value => exact cut_number lz compressSize h

end Reply

-- ================================================================ servers

/-- A server: its answers to each request. -/
structure Responder where
  answers : RequestMessage → List Reply
  wellFormed : ∀ {m r}, r ∈ answers m → r.WellFormed

namespace Responder

/-- The server as a peer: the requests it reads, answered in order. -/
def peer (sv : Responder) : Peer := fun bytes =>
  ((requestFormat.parse bytes).flatMap sv.answers).flatMap Reply.packet

/-- The responses to some requests. -/
def responses (sv : Responder) (ms : List RequestMessage) : List Response :=
  (ms.flatMap sv.answers).map Reply.response

theorem cut_answers (sv : Responder) (lz : Lz4) (compressSize : Nat)
    (ms : List RequestMessage) :
    ∀ r ∈ ms.flatMap sv.answers, (responseFormat lz compressSize).cut r.packet
      = .frame r.packet.length r.response := by
  intro r hr
  obtain ⟨m, -, hm⟩ := List.mem_flatMap.mp hr
  exact Reply.cut_packet lz compressSize (sv.wellFormed hm)

/-- What a server sends is read as its responses. -/
theorem parse_peer (sv : Responder) (lz : Lz4) (compressSize : Nat)
    (bytes : List UInt8) :
    (responseFormat lz compressSize).parse (sv.peer bytes)
      = sv.responses (requestFormat.parse bytes) :=
  (Format.parse_flatMap (sv.cut_answers lz compressSize _)).1

/-- There is no violation in it. -/
theorem no_violation (sv : Responder) (lz : Lz4) (compressSize : Nat)
    (bytes : List UInt8) (j : Nat) :
    (responseFormat lz compressSize).cut
      ((responseFormat lz compressSize).after j (sv.peer bytes)) ≠ .bad := by
  have hnil : (responseFormat lz compressSize).cut [] ≠ .bad := by
    intro h
    cases h
  exact Format.after_flatMap (sv.cut_answers lz compressSize _) hnil j

end Responder

end Yc

end Yrmcds
