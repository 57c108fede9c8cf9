/-
What a server reads of the requests.

The bytes a command writes are its frame (`Wrote.fair`), the frame is one
request of the binary format (`Packet.cut_frame`), and frames in a row are
read back one by one (`whole_sendCalls`): from the bytes of a sequence of
commands the reference reader recovers the sequence
(`sendCommand_decodable`).
-/
import Yrmcds.Proofs.Send.Sync
import Yrmcds.Spec.RequestFormat

namespace Yrmcds

open Endian Gather Framing

-- ============================================================= one command

/-- With a transport that fails nobody a command writes exactly what is
taken, and returns when that is the whole frame. -/
theorem Wrote.fair {σ : Type} {acks : List Ack} {request : List UInt8}
    {s : Sent σ} (h : Wrote acks request s) (hfair : Fair request.length acks) :
    s.written = request.take (accepted acks)
      ∧ (s.result = some .ok ∨ s.result = none)
      ∧ (s.result = some .ok ↔ accepted acks = request.length) := by
  obtain ⟨hw, -, hend, hdone⟩ := pour_fair hfair
  rw [h.written, h.result, ← hdone, hw]
  refine ⟨rfl, ?_⟩
  rcases hp : pour acks request with ⟨written, ending⟩
  rw [hp] at hend
  rcases hend with rfl | rfl
  · exact ⟨.inl rfl, iff_of_true rfl rfl⟩
  · exact ⟨.inr rfl, iff_of_false (fun hr => by cases hr) fun hd => by cases hd⟩

-- ===================================================== commands in a row

/-- Commands whose frames the format reads are read one by one. -/
theorem whole_sendCalls {σ κ ρ : Type} {F : Format UInt8 ρ}
    {exec : σ → κ → Sent σ} (serialOf : σ → UInt32)
    (frame : κ → UInt32 → List UInt8) (message : κ → UInt32 → ρ)
    {calls : List κ} {c : σ}
    (hexec : ∀ c, ∀ call ∈ calls, (exec c call).result = some .ok →
      (exec c call).written = frame call (serialOf c + 1)
        ∧ serialOf (exec c call).conn = serialOf c + 1)
    (hcut : ∀ call ∈ calls, ∀ serial, F.cut (frame call serial)
      = .frame (frame call serial).length (message call serial))
    (hok : ∀ sent ∈ sendCalls exec c calls, sent.result = some .ok) :
    F.whole ((sendCalls exec c calls).flatMap (·.written))
      = some (numbered message (serialOf c) calls) := by
  induction calls generalizing c with
  | nil => rfl
  | cons call calls ih =>
      have hmem := List.mem_cons_self (a := call) (l := calls)
      have hrun : sendCalls exec c (call :: calls)
          = if (exec c call).result = none then [exec c call]
            else exec c call :: sendCalls exec (exec c call).conn calls := rfl
      have hfirst : (exec c call).result = some .ok := by
        apply hok _
        rw [hrun]
        split
        next => exact List.mem_singleton_self _
        next => exact List.mem_cons_self ..
      rw [if_neg (by rw [hfirst]; exact Option.some_ne_none _)] at hrun
      rw [hrun] at hok ⊢
      obtain ⟨hwritten, hserial⟩ := hexec c call hmem hfirst
      have hframe := F.frame_append
        ((sendCalls exec (exec c call).conn calls).flatMap (·.written))
        (hcut call hmem (serialOf c + 1))
      rw [List.flatMap_cons, hwritten, Format.whole_of_frame hframe,
        List.drop_left,
        ih (fun c call hm => hexec c call (List.mem_cons_of_mem _ hm))
          (fun call hm => hcut call (List.mem_cons_of_mem _ hm))
          (fun sent hm => hok sent (List.mem_cons_of_mem _ hm)), hserial]
      rfl

-- ======================================================== the binary format

/-- Every opcode but the bottom one is that of its command. -/
theorem Command.ofCode_code (cmd : Command) (h : ¬ cmd.code ≥ Command.bottom.code) :
    Command.ofCode cmd.code = some cmd := by
  cases cmd <;> first | rfl | exact absurd (by decide) h

/-- An argument that passed the checks has the length it was given
with. -/
theorem Ptr.length_bytes {p : Ptr} (h : ¬ (p.len ≠ 0 ∧ p.isNull = true)) :
    p.bytes.length = p.len := by
  cases p with
  | null n =>
      have hn : n = 0 := by simpa [Ptr.len, Ptr.isNull] using h
      subst hn
      rfl
  | buf bs => rfl

namespace Packet

variable {p : Packet}

theorem length_header (p : Packet) (serial : UInt32) :
    (p.header serial).length = 24 := by
  simp [header]

theorem length_frame (h : ¬ p.rejected) (serial : UInt32) :
    (p.frame serial).length = 24 + (p.extras.len + p.key.len + p.data.len) := by
  simp only [rejected, not_or] at h
  obtain ⟨-, -, -, -, hkey, hextras, hdata⟩ := h
  rw [frame, List.length_append, List.length_append, List.length_append,
    length_header, Ptr.length_bytes hkey, Ptr.length_bytes hextras,
    Ptr.length_bytes hdata]
  omega

/-- The lengths of an accepted command fit their fields. -/
theorem lengths_lt (h : ¬ p.rejected) :
    p.key.len < 2 ^ 16 ∧ p.extras.len < 2 ^ 8
      ∧ p.key.len + p.extras.len + p.data.len < 2 ^ 32 := by
  simp only [rejected, not_or] at h
  obtain ⟨-, hkey, hextras, hdata, -⟩ := h
  have hmax : MAX_DATA_SIZE = 2 ^ 30 := rfl
  omega

theorem field_frame (serial : UInt32) {off len : Nat} (h : off + len ≤ 24) :
    field (p.frame serial) off len = field (p.header serial) off len := by
  rw [frame, List.append_assoc, List.append_assoc,
    field_append _ (by rw [length_header]; exact h)]

/-- The fields of the header. -/
theorem header_fields (p : Packet) (serial : UInt32) :
    field (p.header serial) 0 1 = [0x80]
      ∧ field (p.header serial) 1 1 = [p.cmd.code]
      ∧ field (p.header serial) 2 2 = toBE 2 p.key.len
      ∧ field (p.header serial) 4 1 = [UInt8.ofNat p.extras.len]
      ∧ field (p.header serial) 8 4
        = toBE 4 (p.key.len + p.extras.len + p.data.len)
      ∧ field (p.header serial) 12 4 = toLE 4 serial.toNat
      ∧ field (p.header serial) 16 8 = toBE 8 p.cas.toNat := by
  have hheader : p.header serial = [0x80, p.cmd.code]
      ++ (toBE 2 p.key.len ++ ([UInt8.ofNat p.extras.len, 0, 0, 0]
        ++ (toBE 4 (p.key.len + p.extras.len + p.data.len)
          ++ (toLE 4 serial.toNat ++ toBE 8 p.cas.toNat)))) := by
    simp only [header, List.append_assoc]
  rw [hheader]
  refine ⟨rfl, rfl, ?_, ?_, ?_, ?_, ?_⟩
  · rw [field_skip 2 rfl (by omega), field_here (by simp)]
  · rw [field_skip 2 rfl (by omega), field_skip 2 (by simp) (by omega)]
    rfl
  · rw [field_skip 2 rfl (by omega), field_skip 2 (by simp) (by omega),
      field_skip 4 rfl (by omega), field_here (by simp)]
  · rw [field_skip 2 rfl (by omega), field_skip 2 (by simp) (by omega),
      field_skip 4 rfl (by omega), field_skip 4 (by simp) (by omega),
      field_here (by simp)]
  · rw [field_skip 2 rfl (by omega), field_skip 2 (by simp) (by omega),
      field_skip 4 rfl (by omega), field_skip 4 (by simp) (by omega),
      field_skip 4 (by simp) (by omega), field, List.drop_zero,
      List.take_of_length_le (by simp)]

/-- The frame of an accepted command is one request, and says what the
command was called with. -/
theorem cut_frame (h : ¬ p.rejected) (serial : UInt32) :
    requestFormat.cut (p.frame serial)
      = .frame (p.frame serial).length (p.message serial) := by
  obtain ⟨hkeyLt, hextrasLt, htotalLt⟩ := p.lengths_lt h
  obtain ⟨hmagic, hcmd, hkeyLen, hextrasLen, htotalLen, hserial, hcas⟩ :=
    p.header_fields serial
  have hlen := p.length_frame h serial
  have hrej := h
  simp only [rejected, not_or] at hrej
  obtain ⟨hcode, -, -, -, hkey, hextras, hdata⟩ := hrej
  have hext : ofBE [UInt8.ofNat p.extras.len] = p.extras.len :=
    ofBE_singleton hextrasLt
  rw [← field_frame serial (by omega)] at hmagic hcmd hkeyLen hextrasLen
  rw [← field_frame serial (by omega)] at htotalLen hserial hcas
  rw [requestFormat, Headed.format_cut]
  refine Headed.cut_frame
    (n := p.extras.len + p.key.len + p.data.len) hlen ?_ ?_
  · have hbodyLen : ∀ h : List UInt8, requestHeaded.bodyLen h
        = if (field h 0 1).headD 0 ≠ 0x80 then none
          else if ofBE (field h 8 4) < ofBE (field h 4 1) + ofBE (field h 2 2)
            then none
          else some (ofBE (field h 8 4)) := fun _ => rfl
    rw [hbodyLen, show requestHeaded.head = 24 from rfl,
      field_take (by decide), field_take (by decide), field_take (by decide),
      field_take (by decide), hmagic, hkeyLen, hextrasLen, htotalLen, hext,
      ofBE_toBE_of_lt (w := 2) hkeyLt, ofBE_toBE_of_lt htotalLt,
      if_neg (by simp), if_neg (by omega)]
    congr 1
    omega
  · have hextrasField : field (p.frame serial) 24 p.extras.len
        = p.extras.bytes := by
      rw [frame, List.append_assoc, List.append_assoc,
        field_skip 24 (p.length_header serial) (by omega),
        field_here (Ptr.length_bytes hextras)]
    have hkeyField : field (p.frame serial) (24 + p.extras.len) p.key.len
        = p.key.bytes := by
      rw [frame, List.append_assoc, List.append_assoc,
        field_skip 24 (p.length_header serial) (by omega),
        field_skip p.extras.len (Ptr.length_bytes hextras) (by omega),
        show 24 + p.extras.len - 24 - p.extras.len = 0 by omega,
        field_here (Ptr.length_bytes hkey)]
    have hdataField : (p.frame serial).drop (24 + p.extras.len + p.key.len)
        = p.data.bytes := by
      rw [frame, List.drop_left']
      rw [List.length_append, List.length_append, length_header,
        Ptr.length_bytes hextras, Ptr.length_bytes hkey]
    have hdecode : ∀ f : List UInt8, requestHeaded.decode f
        = (Command.ofCode ((field f 1 1).headD 0)).map fun command =>
          { command
            serial := UInt32.ofNat (ofLE (field f 12 4))
            cas := UInt64.ofNat (ofBE (field f 16 8))
            extras := field f 24 (ofBE (field f 4 1))
            key := field f (24 + ofBE (field f 4 1)) (ofBE (field f 2 2))
            data := f.drop (24 + ofBE (field f 4 1) + ofBE (field f 2 2)) } :=
      fun _ => rfl
    rw [hdecode, hcmd, List.headD_cons, Command.ofCode_code p.cmd hcode, Option.map_some,
      hkeyLen, hextrasLen, hserial, hcas, hext, ofBE_toBE_of_lt (w := 2) hkeyLt,
      hextrasField, hkeyField, hdataField, ofLE_toLE_of_lt serial.toNat_lt,
      ofBE_toBE_of_lt p.cas.toNat_lt, UInt32.ofNat_toNat, UInt64.ofNat_toNat]
    rfl

end Packet

/-- A command with its packet is executed with these answers. -/
def sendCommands (c : Conn) (calls : List (Packet × List Ack)) :
    List (Sent Conn) :=
  sendCalls (fun c call => sendCommand c call.1 call.2) c calls

/-- `send_command` writes exactly its frame and stays inside its array, and
the requests are read back from the bytes of a sequence of commands, each
with the arguments it was called with and the serials in order. -/
theorem sendCommand_decodable :
    (∀ (c : Conn) (p : Packet) (acks : List Ack), ¬ p.rejected →
      let serial := c.serial + 1
      let iov := p.iov serial
      let frame := p.header serial ++ p.extras.bytes ++ p.key.bytes
        ++ p.data.bytes
      ofBE (field frame 8 4) = p.extras.len + p.key.len + p.data.len
      ∧ (iov ++ List.replicate (4 - iov.length) []).length = 4
      ∧ sendLoop acks (iov ++ List.replicate (4 - iov.length) []) iov.length
        ≠ none
      ∧ (Fair frame.length acks →
        (sendCommand c p acks).written = frame.take (accepted acks)
        ∧ ((sendCommand c p acks).result = some .ok
          ∨ (sendCommand c p acks).result = none)
        ∧ ((sendCommand c p acks).result = some .ok
          ↔ accepted acks = frame.length)))
    ∧ ∀ (c : Conn) (calls : List (Packet × List Ack)),
      (∀ call ∈ calls, ¬ call.1.rejected) →
      (∀ sent ∈ sendCommands c calls, sent.result = some .ok) →
      requestFormat.whole ((sendCommands c calls).flatMap (·.written))
        = some (numbered (fun call serial => call.1.message serial) c.serial
          calls) := by
  refine ⟨fun c p acks hrej => ?_, fun c calls hrej hok => ?_⟩
  · obtain ⟨-, -, hlt⟩ := p.lengths_lt hrej
    obtain ⟨-, -, -, -, htotal, -⟩ := p.header_fields (c.serial + 1)
    have hspec := sendCommand_spec (c := c) acks hrej
    obtain ⟨-, hne⟩ := p.iov_spec hrej (c.serial + 1)
    refine ⟨?_, ?_, ?_, hspec.fair⟩
    · show ofBE (field (p.frame (c.serial + 1)) 8 4)
        = p.extras.len + p.key.len + p.data.len
      rw [Packet.field_frame _ (by omega), htotal, ofBE_toBE_of_lt hlt]
      omega
    · have hle : (p.iov (c.serial + 1)).length ≤ 4 := by
        unfold Packet.iov
        split <;> split <;> split <;> simp
      rw [List.length_append, List.length_replicate]
      omega
    · rw [sendLoop_spec acks _ _ hne]
      exact Option.some_ne_none _
  · refine whole_sendCalls Conn.serial (fun call => call.1.frame)
      (fun call serial => call.1.message serial) ?_ ?_ hok
    · intro c call hmem hsent
      have hspec := sendCommand_spec (c := c) call.2 (hrej call hmem)
      refine ⟨hspec.of_ok hsent, ?_⟩
      rw [sendCommand, if_neg (hrej call hmem)]
    · intro call hmem serial
      exact call.1.cut_frame (hrej call hmem) serial

/-- A `Get` in two pieces and a `Set` in one go. -/
theorem sendCommand_decodable_two :
    requestFormat.whole ((sendCommands (Conn.connected 3 fun _ => 0)
        [(⟨.get, 0, .buf [107], .none, .none⟩, [.took 10, .again, .took 15]),
          (⟨.set, 7, .buf [107], .buf [0, 0, 0, 0, 0, 0, 0, 0], .buf [97, 98]⟩,
            [.took 35])]).flatMap (·.written))
      = some [⟨.get, 1, 0, [], [107], []⟩,
          ⟨.set, 2, 7, [0, 0, 0, 0, 0, 0, 0, 0], [107], [97, 98]⟩] :=
  sendCommand_decodable.2 (Conn.connected 3 fun _ => 0) _
    (List.forall_mem_cons.mpr
      ⟨by decide, List.forall_mem_singleton.mpr (by decide)⟩)
    (List.forall_mem_cons.mpr ⟨rfl, List.forall_mem_singleton.mpr rfl⟩)

end Yrmcds
