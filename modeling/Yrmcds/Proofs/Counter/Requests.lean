/-
What a server reads of the counter requests.

A call is accepted exactly when its name has 1 to 65535 bytes and, where it
acquires, it asks for some resources and no more than there are initially
(`CntRequest.accepted_iff`). It ends in a request whose announced lengths
are those of its parts (`CntRequest.packet_spec`), so its frame is one
request of the counter format (`CntRequest.cut_frame`), and a sequence of
calls is read back from its bytes (`cntSendCalls_decodable`).
-/
import Yrmcds.Proofs.Send.Requests

namespace Yrmcds

open Endian Gather Framing

-- ============================================================= one request

/-- What an accepted call hands to `send_command`: a request that passes
its checks, whose body says what the call asked for. -/
structure CntRequest.Sends (request : CntRequest) (p : CntPacket) : Prop where
  accepted : ¬ p.rejected
  length_lt : p.body1.len + p.body2.len < 2 ^ 32
  body : refOp p.cmd.code (p.body1.bytes ++ p.body2.bytes) = some request.op

/-- A name a command function takes: 1 to 65535 bytes. -/
def Ptr.IsName (name : Ptr) : Prop :=
  ∃ bs, name = .buf bs ∧ 0 < bs.length ∧ bs.length < 2 ^ 16

/-- The check lets names pass and nothing else. -/
theorem not_badName_iff {name : Ptr} : ¬ badName name ↔ name.IsName := by
  have hmax : UINT16_MAX = 65535 := rfl
  simp only [badName, not_or]
  constructor
  · rintro ⟨hnull, hzero, hlong⟩
    cases name with
    | null n => exact absurd rfl hnull
    | buf bs =>
        simp only [Ptr.len] at hzero hlong
        exact ⟨bs, rfl, by omega, by omega⟩
  · rintro ⟨bs, rfl, hpos, hlt⟩
    simp only [Ptr.isNull, Ptr.len]
    exact ⟨Bool.false_ne_true, by omega, by omega⟩

/-- The name is read from behind the fixed part that announces it. -/
theorem refName_fixed {fixed name : List UInt8} {n : Nat}
    (hlen : fixed.length = n + 2) (hlast : fixed.drop n = toBE 2 name.length)
    (hname : name.length < 2 ^ 16) :
    refName (n + 2) (fixed ++ name) = some name := by
  have hfield : field (fixed ++ name) (n + 2 - 2) 2 = toBE 2 name.length := by
    rw [Nat.add_sub_cancel, field_append _ (by omega), field, hlast,
      List.take_of_length_le (by simp)]
  rw [refName, hfield, ofBE_toBE_of_lt hname, List.length_append, hlen,
    if_neg (by omega), if_neg (by omega), List.drop_left' hlen]

theorem refOp_get {name : List UInt8} (h : name.length < 2 ^ 16) :
    refOp CntCommand.get.code (toBE 2 name.length ++ name)
      = some (.get name) := by
  have hname : refName 2 (toBE 2 name.length ++ name) = some name :=
    refName_fixed (n := 0) (by simp) (List.drop_zero ..) h
  rw [refOp, if_neg (by decide), if_pos rfl, hname]
  rfl

theorem refOp_acquire {name : List UInt8} (resources initial : UInt32)
    (h : name.length < 2 ^ 16) :
    refOp CntCommand.acquire.code ((toBE 4 resources.toNat
        ++ toBE 4 initial.toNat ++ toBE 2 name.length) ++ name)
      = some (.acquire name resources initial) := by
  have hname : refName 10 ((toBE 4 resources.toNat ++ toBE 4 initial.toNat
      ++ toBE 2 name.length) ++ name) = some name :=
    refName_fixed (n := 8) (by simp) (List.drop_left' (by simp)) h
  rw [refOp, if_neg (by decide), if_neg (by decide), if_pos rfl, hname,
    List.append_assoc, List.append_assoc, field_here (by simp),
    field_skip 4 (by simp) (by omega), field_here (by simp),
    ofBE_toBE_of_lt resources.toNat_lt, ofBE_toBE_of_lt initial.toNat_lt,
    UInt32.ofNat_toNat, UInt32.ofNat_toNat]
  rfl

theorem refOp_release {name : List UInt8} (resources : UInt32)
    (h : name.length < 2 ^ 16) :
    refOp CntCommand.release.code ((toBE 4 resources.toNat
        ++ toBE 2 name.length) ++ name)
      = some (.release name resources) := by
  have hname : refName 6 ((toBE 4 resources.toNat ++ toBE 2 name.length)
      ++ name) = some name :=
    refName_fixed (n := 4) (by simp) (List.drop_left' (by simp)) h
  rw [refOp, if_neg (by decide), if_neg (by decide), if_neg (by decide),
    if_pos rfl, hname, List.append_assoc, field_here (by simp),
    ofBE_toBE_of_lt resources.toNat_lt, UInt32.ofNat_toNat]
  rfl

/-- A fixed part and a name are accepted. -/
theorem not_rejected_named (cmd : CntCommand) {fixed name : List UInt8}
    (hfixed : fixed.length < 2 ^ 16) (hname : name.length < 2 ^ 16) :
    ¬ (CntPacket.mk cmd (.buf fixed) (.buf name)).rejected
      ∧ fixed.length + name.length < 2 ^ 32 := by
  have hmax : UINT32_MAX = 4294967295 := rfl
  simp only [CntPacket.rejected, Ptr.len, Ptr.isNull]
  refine ⟨?_, by omega⟩
  rintro (hsum | ⟨-, hnull⟩ | ⟨-, hnull⟩)
  · omega
  · cases hnull
  · cases hnull

/-- The arguments a command function takes: a name, and to acquire some
resources, no more than there are initially. -/
def CntRequest.Proper : CntRequest → Prop
  | noop | stats | dump => True
  | get name | release name _ => name.IsName
  | acquire name resources initial =>
      name.IsName ∧ 0 < resources ∧ resources ≤ initial

/-- A command function accepts these arguments and no others. -/
theorem CntRequest.accepted_iff (request : CntRequest) :
    (∃ p, request.packet = .ok p) ↔ request.Proper := by
  cases request with
  | noop => exact ⟨fun _ => trivial, fun _ => ⟨_, rfl⟩⟩
  | stats => exact ⟨fun _ => trivial, fun _ => ⟨_, rfl⟩⟩
  | dump => exact ⟨fun _ => trivial, fun _ => ⟨_, rfl⟩⟩
  | get name =>
      simp only [packet, yrmcdsCntGet, Proper, ← not_badName_iff]
      split <;> simp [*]
  | release name resources =>
      simp only [packet, yrmcdsCntRelease, Proper, ← not_badName_iff]
      split <;> simp [*]
  | acquire name resources initial =>
      have hsome : 0 < resources ↔ resources ≠ 0 := by
        rw [UInt32.lt_iff_toNat_lt, ne_eq, ← UInt32.toNat_inj]
        exact Nat.pos_iff_ne_zero
      have hfew : resources ≤ initial ↔ ¬ resources > initial :=
        UInt32.not_lt.symm
      simp only [packet, yrmcdsCntAcquire, Proper, ← not_badName_iff, hsome,
        hfew, ne_eq, ← not_or]
      split
      next hbad => exact ⟨fun ⟨_, h⟩ => (by cases h), fun h => absurd hbad h⟩
      next hgood => exact ⟨fun _ => hgood, fun _ => ⟨_, rfl⟩⟩

theorem CntRequest.packet_spec {request : CntRequest} {p : CntPacket}
    (h : request.packet = .ok p) : request.Sends p := by
  cases request with
  | noop =>
      cases h
      exact ⟨by decide, by decide, rfl⟩
  | get name =>
      simp only [packet, yrmcdsCntGet] at h
      split at h
      next => cases h
      next hbad =>
        cases h
        obtain ⟨bs, rfl, -, hlt⟩ := not_badName_iff.mp hbad
        obtain ⟨hacc, hsum⟩ := not_rejected_named .get
          (show (toBE 2 bs.length).length < 2 ^ 16 by simp) hlt
        exact ⟨hacc, hsum, refOp_get hlt⟩
  | acquire name resources initial =>
      simp only [packet, yrmcdsCntAcquire] at h
      split at h
      next => cases h
      next hbad =>
        cases h
        rw [not_or] at hbad
        obtain ⟨bs, rfl, -, hlt⟩ := not_badName_iff.mp hbad.1
        obtain ⟨hacc, hsum⟩ := not_rejected_named .acquire
          (show (toBE 4 resources.toNat ++ toBE 4 initial.toNat
            ++ toBE 2 bs.length).length < 2 ^ 16 by simp) hlt
        exact ⟨hacc, hsum, refOp_acquire resources initial hlt⟩
  | release name resources =>
      simp only [packet, yrmcdsCntRelease] at h
      split at h
      next => cases h
      next hbad =>
        cases h
        obtain ⟨bs, rfl, -, hlt⟩ := not_badName_iff.mp hbad
        obtain ⟨hacc, hsum⟩ := not_rejected_named .release
          (show (toBE 4 resources.toNat ++ toBE 2 bs.length).length < 2 ^ 16
            by simp) hlt
        exact ⟨hacc, hsum, refOp_release resources hlt⟩
  | stats =>
      cases h
      exact ⟨by decide, by decide, rfl⟩
  | dump =>
      cases h
      exact ⟨by decide, by decide, rfl⟩

-- =========================================================== the frame

namespace CntPacket

variable {p : CntPacket}

theorem length_header (p : CntPacket) (serial : UInt32) :
    (p.header serial).length = 12 := by
  simp [header]

theorem length_frame (h : ¬ p.rejected) (serial : UInt32) :
    (p.frame serial).length = 12 + (p.body1.len + p.body2.len) := by
  simp only [rejected, not_or] at h
  rw [frame, List.length_append, List.length_append, length_header,
    Ptr.length_bytes h.2.1, Ptr.length_bytes h.2.2]
  omega

/-- The fields of a request's header. -/
theorem frame_fields (p : CntPacket) (serial : UInt32) :
    field (p.frame serial) 0 1 = [0x90]
      ∧ field (p.frame serial) 1 1 = [p.cmd.code]
      ∧ field (p.frame serial) 4 4 = toBE 4 (p.body1.len + p.body2.len)
      ∧ field (p.frame serial) 8 4 = toLE 4 serial.toNat
      ∧ (p.frame serial).drop 12 = p.body1.bytes ++ p.body2.bytes := by
  have hframe : p.frame serial = [0x90, p.cmd.code, 0, 0]
      ++ (toBE 4 (p.body1.len + p.body2.len) ++ (toLE 4 serial.toNat
        ++ (p.body1.bytes ++ p.body2.bytes))) := by
    simp only [frame, header, List.append_assoc]
  refine ⟨?_, ?_, ?_, ?_, ?_⟩
  · rw [hframe]
    rfl
  · rw [hframe]
    rfl
  · rw [hframe, field_skip 4 rfl (by omega), field_here (by simp)]
  · rw [hframe, field_skip 4 rfl (by omega), field_skip 4 (by simp) (by omega),
      field_here (by simp)]
  · rw [frame, List.append_assoc, List.drop_left' (p.length_header serial)]

/-- The frame of an accepted call is one request, and says what the call
asked for. -/
theorem cut_frame {request : CntRequest} (h : request.Sends p)
    (serial : UInt32) :
    cntRequestFormat.cut (p.frame serial)
      = .frame (p.frame serial).length ⟨serial, request.op⟩ := by
  obtain ⟨hmagic, hcmd, hlen, hserial, hbody⟩ := p.frame_fields serial
  have hbodyLen : ∀ h : List UInt8, cntRequestHeaded.bodyLen h
      = if (field h 0 1).headD 0 ≠ 0x90 then none
        else some (ofBE (field h 4 4)) := fun _ => rfl
  have hdecode : ∀ f : List UInt8, cntRequestHeaded.decode f
      = (refOp ((field f 1 1).headD 0) (f.drop 12)).map fun op =>
        ⟨UInt32.ofNat (ofLE (field f 8 4)), op⟩ := fun _ => rfl
  rw [cntRequestFormat, Headed.format_cut]
  refine Headed.cut_frame (p.length_frame h.accepted serial) ?_ ?_
  · rw [hbodyLen, show cntRequestHeaded.head = 12 from rfl,
      field_take (by decide), field_take (by decide), hmagic, hlen,
      ofBE_toBE_of_lt (w := 4) h.length_lt, if_neg (by simp)]
  · rw [hdecode, hcmd, hbody, hserial, List.headD_cons, h.body,
      ofLE_toLE_of_lt serial.toNat_lt, UInt32.ofNat_toNat]
    rfl

end CntPacket

-- ================================================================ the calls

/-- The frame of a call that is accepted. -/
def CntSendCall.frame (call : CntSendCall) (serial : UInt32) : List UInt8 :=
  match call.request.packet with
  | .ok p => p.frame serial
  | .error _ => []

/-- Counter requests are written whole: the loop stays among the entries
it filled and ends when the last byte is taken, and from the bytes of a
sequence of calls the operations are read back, with their names and
numbers and the serials in order. -/
theorem cntSendCalls_decodable :
    (∀ (c : CntConn) (request : CntRequest) (p : CntPacket) (acks : List Ack),
      request.packet = .ok p →
      let frame := p.frame (c.serial + 1)
      let iov := p.iov (c.serial + 1)
      let sent := CntSendCall.exec c ⟨request, acks⟩
      ¬ p.rejected
      ∧ ofBE (field frame 4 4) = p.body1.len + p.body2.len
      ∧ cntSendLoop iov.length acks iov 0 ≠ none
      ∧ cntSendLoop iov.length acks (iov ++ List.replicate (3 - iov.length) [])
          0 = cntSendLoop iov.length acks iov 0
      ∧ (Fair frame.length acks →
        sent.written = frame.take (accepted acks)
        ∧ (sent.result = some .ok ∨ sent.result = none)
        ∧ (sent.result = some .ok ↔ accepted acks = frame.length)))
    ∧ ∀ (c : CntConn) (calls : List CntSendCall),
      (∀ call ∈ calls, ∃ p, call.request.packet = .ok p) →
      (∀ sent ∈ sendCalls CntSendCall.exec c calls, sent.result = some .ok) →
      cntRequestFormat.whole
          ((sendCalls CntSendCall.exec c calls).flatMap (·.written))
        = some (numbered (fun call serial => ⟨serial, call.request.op⟩) c.serial
          calls) := by
  refine ⟨fun c request p acks hp => ?_, fun c calls hacc hok => ?_⟩
  · have hsends := CntRequest.packet_spec hp
    have hspec := cntSendCommand_spec (c := c) acks hsends.accepted
    obtain ⟨hflat, hne⟩ := p.iov_spec hsends.accepted (c.serial + 1)
    obtain ⟨-, -, hlen, -, -⟩ := p.frame_fields (c.serial + 1)
    have hloop := fun junk => cntSendLoop_spec acks
      (p.iov (c.serial + 1)).length [] (p.iov (c.serial + 1)) junk hne
      (Nat.zero_add _).symm
    simp only [List.nil_append, List.length_nil] at hloop
    have hbare := hloop []
    rw [List.append_nil] at hbare
    have hexec : CntSendCall.exec c ⟨request, acks⟩
        = cntSendCommand c p acks := by
      rw [CntSendCall.exec, hp]
    refine ⟨hsends.accepted, ?_, ?_, ?_, ?_⟩
    · rw [hlen, ofBE_toBE_of_lt hsends.length_lt]
    · rw [hbare]
      exact Option.some_ne_none _
    · rw [hbare]
      exact hloop _
    · rw [hexec]
      exact hspec.fair
  · refine whole_sendCalls CntConn.serial CntSendCall.frame
      (fun call serial => CntMessage.mk serial call.request.op) ?_ ?_ hok
    · intro c call hmem hsent
      obtain ⟨p, hp⟩ := hacc call hmem
      have hsends := CntRequest.packet_spec hp
      rw [CntSendCall.exec, hp] at hsent ⊢
      rw [CntSendCall.frame, hp]
      refine ⟨(cntSendCommand_spec call.acks hsends.accepted).of_ok hsent, ?_⟩
      show (cntSendCommand c p call.acks).conn.serial = _
      rw [cntSendCommand, if_neg hsends.accepted]
    · intro call hmem serial
      obtain ⟨p, hp⟩ := hacc call hmem
      rw [CntSendCall.frame, hp]
      exact CntPacket.cut_frame (CntRequest.packet_spec hp) serial

/-- An `Acquire` in two pieces, then a `Noop`. -/
theorem cntSendCalls_decodable_two :
    cntRequestFormat.whole ((sendCalls CntSendCall.exec ⟨3, 4294967294⟩
        [⟨.acquire (.buf [97]) 1 2, [.took 13, .again, .took 10]⟩,
          ⟨.noop, [.took 12]⟩]).flatMap (·.written))
      = some [⟨4294967295, .acquire [97] 1 2⟩, ⟨0, .noop⟩] :=
  cntSendCalls_decodable.2 ⟨3, 4294967294⟩ _
    (List.forall_mem_cons.mpr
      ⟨⟨_, rfl⟩, List.forall_mem_singleton.mpr ⟨_, rfl⟩⟩)
    (List.forall_mem_cons.mpr ⟨rfl, List.forall_mem_singleton.mpr rfl⟩)

end Yrmcds
