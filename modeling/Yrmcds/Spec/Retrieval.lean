/-
Answers of a server, as the protocol lays them out: a packet with flags,
a key and a payload for a retrieval (`Retrieval`), and one with nothing
but a text for everything else (`BareAnswer`). A server that stores what
a client sent answers with the flags and payload of the request
(`Packet.storedFlags`, `Packet.payload`).

`Retrieval.refCut_packet` and `BareAnswer.refCut_packet` are what the
reference makes of such a packet at the front of a stream. Both go through
the header they share (`ResponseHeader`).
-/
import Yrmcds.Spec.ResponseFormat
import Yrmcds.Model.Send

namespace Yrmcds

open Endian Framing

-- ================================================================ header

/-- The fields of a response header. -/
structure ResponseHeader where
  command : UInt8
  keyLen : Nat
  extrasLen : UInt8
  dataType : UInt8
  status : Status
  totalLen : Nat
  serial : UInt32
  casUnique : UInt64

namespace ResponseHeader

/-- The header on the wire. -/
def bytes (h : ResponseHeader) : List UInt8 :=
  [0x81, h.command] ++ (toBE 2 h.keyLen ++ ([h.extrasLen, h.dataType]
    ++ (toBE 2 h.status.toNat ++ (toBE 4 h.totalLen
    ++ (toLE 4 h.serial.toNat ++ toBE 8 h.casUnique.toNat)))))

theorem length_bytes (h : ResponseHeader) : h.bytes.length = 24 := by
  simp [bytes]

/-- What a reader finds in the header. -/
theorem fields (h : ResponseHeader) (rest : List UInt8) :
    field (h.bytes ++ rest) 1 1 = [h.command]
      ∧ field (h.bytes ++ rest) 2 2 = toBE 2 h.keyLen
      ∧ field (h.bytes ++ rest) 4 1 = [h.extrasLen]
      ∧ field (h.bytes ++ rest) 6 2 = toBE 2 h.status.toNat
      ∧ field (h.bytes ++ rest) 8 4 = toBE 4 h.totalLen
      ∧ field (h.bytes ++ rest) 12 4 = toLE 4 h.serial.toNat
      ∧ field (h.bytes ++ rest) 16 8 = toBE 8 h.casUnique.toNat := by
  have hfield : ∀ {off len : Nat}, off + len ≤ 24 →
      field (h.bytes ++ rest) off len = field h.bytes off len := by
    intro off len hle
    apply field_append
    rw [h.length_bytes]
    exact hle
  refine ⟨rfl, ?_, ?_, ?_, ?_, ?_, ?_⟩
  · rw [hfield (by omega), bytes, field_skip 2 rfl (by omega),
      field_here (by simp)]
  · rw [hfield (by omega), bytes, field_skip 2 rfl (by omega),
      field_skip 2 (by simp) (by omega)]
    rfl
  · rw [hfield (by omega), bytes, field_skip 2 rfl (by omega),
      field_skip 2 (by simp) (by omega), field_skip 2 rfl (by omega),
      field_here (by simp)]
  · rw [hfield (by omega), bytes, field_skip 2 rfl (by omega),
      field_skip 2 (by simp) (by omega), field_skip 2 rfl (by omega),
      field_skip 2 (by simp) (by omega), field_here (by simp)]
  · rw [hfield (by omega), bytes, field_skip 2 rfl (by omega),
      field_skip 2 (by simp) (by omega), field_skip 2 rfl (by omega),
      field_skip 2 (by simp) (by omega), field_skip 4 (by simp) (by omega),
      field_here (by simp)]
  · rw [hfield (by omega), bytes, field_skip 2 rfl (by omega),
      field_skip 2 (by simp) (by omega), field_skip 2 rfl (by omega),
      field_skip 2 (by simp) (by omega), field_skip 4 (by simp) (by omega),
      field_skip 4 (by simp) (by omega), field, List.drop_zero,
      List.take_of_length_le (by simp)]

theorem drop_bytes (h : ResponseHeader) (body : List UInt8) :
    (h.bytes ++ body).drop 24 = body := by
  apply List.drop_left'
  exact h.length_bytes

/-- The verdict on a stream that starts with a header and the body it
announces: acceptable exactly when it is not too large and decodes. -/
theorem refCut_bytes (lz : Lz4) (compressSize : Nat) (h : ResponseHeader)
    {body : List UInt8}
    (hlt : h.totalLen < 2 ^ 32) (hbody : body.length = h.totalLen)
    (rest : List UInt8) :
    refCut lz compressSize (h.bytes ++ body ++ rest)
      = if h.totalLen > MAX_CAPACITY then .bad
        else (refDecode lz compressSize (h.bytes ++ body)).elim .bad
          (.frame (24 + h.totalLen)) := by
  have hpacket : (h.bytes ++ body).length = 24 + h.totalLen := by
    rw [List.length_append, h.length_bytes, hbody]
  have hhead : refHeader (h.bytes ++ body ++ rest)
      = if h.totalLen > MAX_CAPACITY then none else some h.totalLen := by
    have hmagic : (h.bytes ++ body ++ rest).headD 0 = 0x81 := rfl
    obtain ⟨-, -, -, -, hlen, -, -⟩ := h.fields (body ++ rest)
    rw [← List.append_assoc] at hlen
    rw [refHeader, if_neg (not_not_intro hmagic), hlen,
      ofBE_toBE_of_lt hlt]
  rw [refCut, List.length_append, hpacket, if_neg (by omega), hhead]
  by_cases hmax : h.totalLen > MAX_CAPACITY
  · rw [if_pos hmax, if_pos hmax]
  · rw [if_neg hmax, if_neg hmax]
    dsimp only
    rw [if_neg (by omega), ← hpacket, List.take_left]
    cases refDecode lz compressSize (h.bytes ++ body) with
    | none => rfl
    | some r => rfl

end ResponseHeader

-- ============================================================== retrievals

/-- A retrieval's answer. -/
structure Retrieval where
  command : UInt8
  dataType : UInt8
  status : Status
  serial : UInt32
  casUnique : UInt64
  flags : UInt32
  key : List UInt8
  data : List UInt8

namespace Retrieval

/-- `total_len`. -/
def totalLen (g : Retrieval) : Nat := 4 + g.key.length + g.data.length

/-- The lengths fit their fields, and the command is not one whose
successful answer is a number. -/
structure WellFormed (g : Retrieval) : Prop where
  key_lt : g.key.length < 2 ^ 16
  total_lt : g.totalLen < 2 ^ 32
  retrieval : g.command ≠ Command.increment.code
    ∧ g.command ≠ Command.decrement.code

def header (g : Retrieval) : List UInt8 :=
  [0x81, g.command] ++ (toBE 2 g.key.length ++ ([4, g.dataType]
    ++ (toBE 2 g.status.toNat ++ (toBE 4 g.totalLen
    ++ (toLE 4 g.serial.toNat ++ toBE 8 g.casUnique.toNat)))))

/-- The packet on the wire. -/
def packet (g : Retrieval) : List UInt8 :=
  g.header ++ (toBE 4 g.flags.toNat ++ (g.key ++ g.data))

/-- The response a reader is to return for the packet, once it knows the
flags and the data the payload stands for. -/
def response (g : Retrieval) (flags : UInt32) (data : List UInt8) :
    Response where
  serial := g.serial
  length := 24 + g.totalLen
  status := g.status
  command := g.command
  casUnique := g.casUnique
  flags
  key := g.key
  data
  value := 0

end Retrieval

/-- The flags a server stores with a request's data. -/
def Packet.storedFlags (p : Packet) : UInt32 :=
  UInt32.ofNat (ofBE (p.extras.bytes.take 4))

/-- The payload a server stores. -/
def Packet.payload (p : Packet) : List UInt8 := p.data.bytes

-- ==================================================== the written packet

namespace Retrieval

/-- The header by its fields. -/
def fields (g : Retrieval) : ResponseHeader where
  command := g.command
  keyLen := g.key.length
  extrasLen := 4
  dataType := g.dataType
  status := g.status
  totalLen := g.totalLen
  serial := g.serial
  casUnique := g.casUnique

theorem packet_eq (g : Retrieval) :
    g.packet
      = g.fields.bytes ++ (toBE 4 g.flags.toNat ++ (g.key ++ g.data)) := rfl

theorem length_body (g : Retrieval) :
    (toBE 4 g.flags.toNat ++ (g.key ++ g.data)).length = g.totalLen := by
  simp only [totalLen, List.length_append, length_toBE]
  omega

theorem length_packet (g : Retrieval) :
    g.packet.length = 24 + g.totalLen := by
  rw [g.packet_eq, List.length_append, g.fields.length_bytes, g.length_body]

/-- The packet as the reference decodes it. -/
theorem refDecode_packet (lz : Lz4) (compressSize : Nat) (g : Retrieval)
    (hg : g.WellFormed) :
    refDecode lz compressSize g.packet
      = match unpackIfMarked lz compressSize g.flags g.data with
        | some (flags, data) => some (g.response flags data)
        | none => none := by
  obtain ⟨hcommand, hkey, hextras, hstatus, -, hserial, hcas⟩ :=
    g.fields.fields (toBE 4 g.flags.toNat ++ (g.key ++ g.data))
  have hdrop := g.fields.drop_bytes (toBE 4 g.flags.toNat ++ (g.key ++ g.data))
  rw [← g.packet_eq] at hcommand hkey hextras hstatus hserial hcas hdrop
  have hpayload : (toBE 4 g.flags.toNat ++ (g.key ++ g.data)).drop
      (4 + g.key.length) = g.data := by
    rw [← List.append_assoc, List.drop_left' (by simp)]
  have hflags : (toBE 4 g.flags.toNat ++ (g.key ++ g.data)).take 4
      = toBE 4 g.flags.toNat := List.take_left' (by simp)
  have hname : ((toBE 4 g.flags.toNat ++ (g.key ++ g.data)).drop 4).take
      g.key.length = g.key := by
    rw [List.drop_left' (by simp), List.take_left]
  unfold refDecode
  simp only [hkey, hextras, hstatus, hserial, hcas, hcommand, hdrop,
    List.headD_cons, fields, show (4 : UInt8).toNat = 4 from rfl]
  rw [ofBE_toBE_of_lt (show g.key.length < 256 ^ 2 from hg.key_lt),
    hpayload, hflags, hname, g.length_body, totalLen, if_neg (by omega),
    if_neg (by decide),
    if_neg (fun h => h.1.elim hg.retrieval.1 hg.retrieval.2),
    if_pos (by decide), ofBE_toBE_of_lt (show g.flags.toNat < 256 ^ 4
      from g.flags.toNat_lt), ofBE_toBE_of_lt (show g.status.toNat < 256 ^ 2
      from g.status.toNat_lt), ofLE_toLE_of_lt (show g.serial.toNat < 256 ^ 4
      from g.serial.toNat_lt), ofBE_toBE_of_lt
      (show g.casUnique.toNat < 256 ^ 8 from g.casUnique.toNat_lt),
    UInt32.ofNat_toNat, UInt16.ofNat_toNat, UInt32.ofNat_toNat,
    UInt64.ofNat_toNat, g.length_packet]
  rfl

/-- The verdict of the reference on a stream that starts with the
packet. -/
theorem refCut_packet (lz : Lz4) (compressSize : Nat) (g : Retrieval)
    (hg : g.WellFormed) (rest : List UInt8) :
    refCut lz compressSize (g.packet ++ rest)
      = if g.totalLen > MAX_CAPACITY then .bad
        else
          match unpackIfMarked lz compressSize g.flags g.data with
          | some (flags, data) =>
              .frame (24 + g.totalLen) (g.response flags data)
          | none => .bad := by
  rw [g.packet_eq, g.fields.refCut_bytes _ _ hg.total_lt g.length_body,
    ← g.packet_eq, g.refDecode_packet lz compressSize hg,
    show g.fields.totalLen = g.totalLen from rfl]
  cases unpackIfMarked lz compressSize g.flags g.data with
  | none => rfl
  | some fd => rfl

end Retrieval

-- ============================================================ bare answers

/-- An answer without extras and key: a text, or nothing. -/
structure BareAnswer where
  command : UInt8
  status : Status
  serial : UInt32
  text : List UInt8

namespace BareAnswer

/-- The header by its fields. -/
def fields (b : BareAnswer) : ResponseHeader where
  command := b.command
  keyLen := 0
  extrasLen := 0
  dataType := 0
  status := b.status
  totalLen := b.text.length
  serial := b.serial
  casUnique := 0

/-- The packet on the wire. -/
def packet (b : BareAnswer) : List UInt8 := b.fields.bytes ++ b.text

/-- The response a reader is to return for the packet. -/
def response (b : BareAnswer) : Response where
  serial := b.serial
  length := 24 + b.text.length
  status := b.status
  command := b.command
  casUnique := 0
  flags := 0
  key := []
  data := b.text
  value := 0

/-- The text fits its length field, and the command is not one whose
successful answer is a number. -/
structure WellFormed (b : BareAnswer) : Prop where
  text_lt : b.text.length < 2 ^ 32
  plain : b.command ≠ Command.increment.code
    ∧ b.command ≠ Command.decrement.code

theorem length_packet (b : BareAnswer) :
    b.packet.length = 24 + b.text.length := by
  rw [packet, List.length_append, b.fields.length_bytes]

/-- The packet as the reference decodes it. -/
theorem refDecode_packet (lz : Lz4) (compressSize : Nat) (b : BareAnswer)
    (hb : b.WellFormed) :
    refDecode lz compressSize b.packet = some b.response := by
  obtain ⟨hcommand, hkey, hextras, hstatus, -, hserial, hcas⟩ :=
    b.fields.fields b.text
  have hdrop := b.fields.drop_bytes b.text
  have hzero : ofBE (toBE 2 0) = 0 := ofBE_toBE_of_lt (by decide)
  have hunmarked : unpackIfMarked lz compressSize 0 b.text
      = some (0, b.text) := if_neg fun hm => hm.2 (by decide)
  rw [show b.fields.bytes ++ b.text = b.packet from rfl]
    at hcommand hkey hextras hstatus hserial hcas hdrop
  unfold refDecode
  simp only [hkey, hextras, hstatus, hserial, hcas, hcommand, hdrop, hzero,
    List.headD_cons, fields, UInt8.toNat_zero, Nat.add_zero, List.drop_zero,
    List.take_zero]
  rw [if_neg (by omega), if_neg (by decide),
    if_neg (fun h => h.1.elim hb.plain.1 hb.plain.2), if_neg (by decide),
    show UInt32.ofNat 0 = 0 from rfl, hunmarked,
    ofBE_toBE_of_lt (show b.status.toNat < 256 ^ 2 from b.status.toNat_lt),
    ofLE_toLE_of_lt (show b.serial.toNat < 256 ^ 4 from b.serial.toNat_lt),
    UInt32.ofNat_toNat, UInt16.ofNat_toNat, b.length_packet]
  rfl

/-- The verdict of the reference on a stream that starts with the
packet. -/
theorem refCut_packet (lz : Lz4) (compressSize : Nat) (b : BareAnswer)
    (hb : b.WellFormed) (rest : List UInt8) :
    refCut lz compressSize (b.packet ++ rest)
      = if b.text.length > MAX_CAPACITY then .bad
        else .frame (24 + b.text.length) b.response := by
  have hlen : b.text.length = b.fields.totalLen := rfl
  have hcut := b.fields.refCut_bytes lz compressSize hb.text_lt hlen rest
  rw [show b.fields.bytes ++ b.text = b.packet from rfl,
    b.refDecode_packet lz compressSize hb] at hcut
  exact hcut

end BareAnswer

end Yrmcds
