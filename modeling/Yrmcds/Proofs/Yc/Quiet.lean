/-
What a retrieval prints of an object, with `-q` and without.

Without, the loop ends with the answer to the retrieval, and its data is
written (`prints_plain`). With `-q` the serial of the `Noop` has replaced
that of the retrieval: the loop skips the object and ends with the answer
to the `Noop`, which has no data, so that nothing is written
(`prints_quiet`). The two print the object's data exactly when that is
empty (`quiet_prints_iff`).
-/
import Yrmcds.Proofs.Send.Requests
import Yrmcds.Proofs.Yc.Runs
import Yrmcds.Spec.ObjectServer

namespace Yrmcds

open Endian Gather Framing

namespace Yc

variable {lz : Lz4} {compression : Nat} {quiet : Bool} {cmd : Retrieve}
  {key : List UInt8}

-- =============================================================== requests

/-- The request of a retrieval. -/
def Retrieve.request (key : List UInt8) (expire : UInt32) (quiet : Bool) :
    Retrieve → Request
  | get => .get (.buf key) quiet
  | getk => .getk (.buf key) quiet
  | gat => .getTouch (.buf key) expire quiet
  | gatk => .getkTouch (.buf key) expire quiet
  | lag => .lockGet (.buf key) quiet
  | lagk => .lockGetk (.buf key) quiet

/-- What a server makes of a retrieval. -/
def Retrieve.kind (quiet : Bool) : Retrieve → Kind
  | get | gat => ⟨quiet, false, false⟩
  | getk | gatk => ⟨quiet, true, false⟩
  | lag => ⟨quiet, false, true⟩
  | lagk => ⟨quiet, true, true⟩

theorem exec_argv (peer : Peer) (cmd : Retrieve) (key expire : List UInt8)
    (c : Conn) (a : Answers) :
    cmd.exec lz peer quiet (cmd.argv key expire) c a
      = retrieve lz peer quiet
        (cmd.request key (UInt32.ofNat (strtoull expire)) quiet) c a := by
  cases cmd <;> rfl

/-- The retrievals are among the commands of the protocol, and none is
answered with a number. -/
theorem kindOf_spec {cmd : Command} {kind : Kind} (h : kindOf cmd = some kind) :
    cmd ≠ .noop ∧ ¬ cmd.code ≥ Command.bottom.code
      ∧ cmd.code ≠ Command.increment.code
      ∧ cmd.code ≠ Command.decrement.code := by
  cases cmd <;> first | cases h; done | decide

/-- A retrieval's arguments pass the checks. -/
theorem keyCommand_passes {command : Command} {kind : Kind} {extras : Ptr}
    (hkind : kindOf command = some kind)
    (hextras : extras = .none ∨ ∃ expire, extras = .buf (toBE 4 expire))
    (hne : key ≠ []) (hlt : key.length < 2 ^ 16) :
    keyCommand command (.buf key) extras
        = .ok ⟨command, 0, .buf key, extras, .none⟩
      ∧ ¬ Packet.rejected ⟨command, 0, .buf key, extras, .none⟩ := by
  have hlen : key.length ≠ 0 := fun h => hne (List.length_eq_zero_iff.mp h)
  obtain ⟨-, hcode, -⟩ := kindOf_spec hkind
  have hext : extras.len ≤ 4 ∧ ¬ (extras.len ≠ 0 ∧ extras.isNull = true) := by
    rcases hextras with rfl | ⟨expire, rfl⟩
    · decide
    · simp [Ptr.len, Ptr.isNull]
  constructor
  · rw [keyCommand, if_neg]
    intro hrefused
    rcases hrefused with hnull | hzero
    · cases hnull
    · exact hlen hzero
  · simp only [Packet.rejected, not_or]
    refine ⟨hcode, ?_, ?_, Nat.not_lt_zero _, ?_, hext.2, ?_⟩
    · show ¬ key.length > 65535
      omega
    · omega
    · intro hkey
      cases hkey.2
    · intro hdata
      exact hdata.1 rfl

/-- A command of the kind, in its quiet or its plain form. -/
theorem kindOf_pick (q command : Command) {withKey locks : Bool}
    (hq : kindOf q = some ⟨true, withKey, locks⟩)
    (hcommand : kindOf command = some ⟨false, withKey, locks⟩)
    (quiet : Bool) :
    kindOf (pick quiet q command) = some ⟨quiet, withKey, locks⟩ := by
  cases quiet with
  | false => exact hcommand
  | true => exact hq

/-- A retrieval goes out as a request for its key. -/
theorem request_becomes (lz : Lz4) (cmd : Retrieve) (hne : key ≠ [])
    (hlt : key.length < 2 ^ 16) (expire : UInt32) (quiet : Bool) :
    ∃ p, Request.Becomes lz (cmd.request key expire quiet) p
      ∧ p.key.bytes = key ∧ kindOf p.cmd = some (cmd.kind quiet) := by
  have becomes : ∀ {command : Command} {extras : Ptr},
      kindOf command = some (cmd.kind quiet) →
      (extras = .none ∨ ∃ expire, extras = .buf (toBE 4 expire)) →
      (∀ c, (cmd.request key expire quiet).packet lz c true
        = keyCommand command (.buf key) extras) →
      ∃ p, Request.Becomes lz (cmd.request key expire quiet) p
        ∧ p.key.bytes = key ∧ kindOf p.cmd = some (cmd.kind quiet) := by
    intro command extras hkind hextras hrequest
    obtain ⟨hpacket, hpasses⟩ := keyCommand_passes hkind hextras hne hlt
    exact ⟨_, ⟨fun c => (hrequest c).trans hpacket, hpasses⟩, rfl, hkind⟩
  cases cmd with
  | get =>
      exact becomes (kindOf_pick .getQ .get rfl rfl quiet)
        (.inl rfl) fun _ => rfl
  | getk =>
      exact becomes
        (kindOf_pick .getKQ .getK rfl rfl quiet)
        (.inl rfl) fun _ => rfl
  | gat =>
      exact becomes (kindOf_pick .gatQ .gat rfl rfl quiet)
        (.inr ⟨expire.toNat, rfl⟩) fun _ => rfl
  | gatk =>
      exact becomes
        (kindOf_pick .gatKQ .gatK rfl rfl quiet)
        (.inr ⟨expire.toNat, rfl⟩) fun _ => rfl
  | lag =>
      exact becomes (kindOf_pick .lagQ .lag rfl rfl quiet)
        (.inl rfl) fun _ => rfl
  | lagk =>
      exact becomes
        (kindOf_pick .lagKQ .lagK rfl rfl quiet)
        (.inl rfl) fun _ => rfl

-- ================================================================ answers

section Answers

variable {sv : Server} {o : Object} {kind : Kind} {m : RequestMessage}

/-- The object goes out, and is not too large for a client. -/
def Server.Serves (sv : Server) (kind : Kind) (key : List UInt8)
    (o : Object) : Prop :=
  ¬ (kind.locks = true ∧ sv.lockedOut key = true)
    ∧ 4 + (if kind.withKey then key.length else 0) + o.payload.length
      ≤ MAX_CAPACITY

instance (kind : Kind) (key : List UInt8) (o : Object) :
    Decidable (sv.Serves kind key o) := by
  unfold Server.Serves
  infer_instance

/-- The requests of a retrieval are answered in order. -/
theorem peer_requested (sv : Server) {c : Conn} {p : Packet}
    (hp : ¬ p.rejected) (hserial : c.serial = 0) (quiet : Bool) :
    sv.peer (requested quiet c p).written
      = sv.answer (p.message 1)
        ++ (if quiet then sv.answer (noopPacket.message 2) else []) := by
  have hparse : ∀ calls : List (Packet × UInt32),
      (∀ call ∈ calls, ¬ call.1.rejected) →
      requestFormat.parse (calls.flatMap fun call => call.1.frame call.2)
        = calls.map fun call => call.1.message call.2 := fun calls h =>
    (Format.parse_flatMap fun call hm => call.1.cut_frame (h call hm) call.2).1
  have hfirst : c.serial + 1 = 1 := by rw [hserial]; rfl
  cases quiet with
  | false =>
      have hread := hparse [(p, 1)] (List.forall_mem_singleton.mpr hp)
      rw [List.flatMap_singleton] at hread
      show (requestFormat.parse (p.frame (c.serial + 1))).flatMap sv.answer = _
      rw [hfirst, hread]
      rfl
  | true =>
      have hread := hparse [(p, 1), (noopPacket, 2)]
        (List.forall_mem_cons.mpr
          ⟨hp, List.forall_mem_singleton.mpr (by decide)⟩)
      rw [List.flatMap_cons, List.flatMap_singleton] at hread
      show (requestFormat.parse (p.frame (c.serial + 1)
        ++ noopPacket.frame (c.serial + 1 + 1))).flatMap sv.answer = _
      rw [hfirst, show (1 + 1 : UInt32) = 2 from rfl, hread]
      rw [List.map_cons, List.map_singleton, List.flatMap_cons,
        List.flatMap_singleton]
      rfl

theorem requested_serial {c : Conn} (hserial : c.serial = 0) (quiet : Bool)
    (p : Packet) :
    (requested quiet c p).serial = if quiet then 2 else 1 := by
  cases quiet with
  | false => show c.serial + 1 = 1; rw [hserial]; rfl
  | true => show c.serial + 1 + 1 = 2; rw [hserial]; rfl

/-- A retrieval of an object is answered with a refusal when another
connection has locked it, otherwise with the object. -/
theorem answer_eq_ite (hkind : kindOf m.command = some kind)
    (hcontent : sv.content m.key = some o) :
    sv.answer m = if kind.locks ∧ sv.lockedOut m.key then
        (Server.bare m Status.locked (sv.text Status.locked)).packet
      else (Server.found m kind o).packet := by
  rw [Server.answer, if_neg (kindOf_spec hkind).1]
  simp only [hkind, hcontent]

theorem totalLen_found (m : RequestMessage) (kind : Kind) (o : Object) :
    (Server.found m kind o).totalLen
      = 4 + (if kind.withKey then m.key.length else 0)
        + o.payload.length := by
  show 4 + (if kind.withKey then m.key else []).length + _ = _
  split <;> rfl

/-- An object with its key fits the length fields. -/
theorem found_wellFormed (hkind : kindOf m.command = some kind)
    (hcontent : sv.content m.key = some o) :
    (Server.found m kind o).WellFormed := by
  have hkey := sv.key_lt hcontent
  have hobject := sv.object_lt hcontent
  refine ⟨?_, ?_, (kindOf_spec hkind).2.2⟩
  · show (if kind.withKey then m.key else []).length < _
    split
    next => exact hkey
    next => decide
  · rw [totalLen_found]
    split <;> omega

/-- What a client makes of an object, if it is not too large and
decodes. -/
theorem refCut_found (lz : Lz4) (compression : Nat)
    (hkind : kindOf m.command = some kind)
    (hcontent : sv.content m.key = some o) (rest : List UInt8)
    (hmax : (Server.found m kind o).totalLen ≤ MAX_CAPACITY) :
    (∃ r, refCut lz compression ((Server.found m kind o).packet ++ rest)
        = .frame (Server.found m kind o).packet.length r
      ∧ r.status = Status.ok ∧ r.serial = m.serial
      ∧ r.data = o.data lz compression)
    ∨ o.data lz compression = []
      ∧ refCut lz compression ((Server.found m kind o).packet ++ rest)
        = .bad := by
  have hcut := (Server.found m kind o).refCut_packet lz compression
    (found_wellFormed hkind hcontent) rest
  rw [← (Server.found m kind o).length_packet, if_neg (by omega),
    show (Server.found m kind o).flags = o.flags from rfl,
    show (Server.found m kind o).data = o.payload from rfl] at hcut
  cases hunpack : unpackIfMarked lz compression o.flags o.payload with
  | none =>
      rw [hunpack] at hcut
      refine .inr ⟨?_, hcut⟩
      rw [Object.data, hunpack]
  | some unpacked =>
      rw [hunpack] at hcut
      refine .inl ⟨_, hcut, rfl, rfl, ?_⟩
      rw [Object.data, hunpack]
      rfl

/-- What a client makes of the answer to a retrieval: the object, if it is
served and decodes, or nothing that it would print. -/
theorem refCut_answer (lz : Lz4) (compression : Nat)
    (hkind : kindOf m.command = some kind)
    (hcontent : sv.content m.key = some o) (rest : List UInt8) :
    (sv.Serves kind m.key o
      ∧ ∃ r, refCut lz compression (sv.answer m ++ rest)
          = .frame (sv.answer m).length r
        ∧ r.status = Status.ok ∧ r.serial = m.serial
        ∧ r.data = o.data lz compression)
    ∨ (sv.Serves kind m.key o → o.data lz compression = [])
      ∧ (refCut lz compression (sv.answer m ++ rest) = .bad
        ∨ ∃ n r, refCut lz compression (sv.answer m ++ rest) = .frame n r
          ∧ r.status ≠ Status.ok) := by
  rw [answer_eq_ite hkind hcontent]
  by_cases hlocked : kind.locks = true ∧ sv.lockedOut m.key = true
  · rw [if_pos hlocked]
    have hcut := (Server.bare m Status.locked
      (sv.text Status.locked)).refCut_packet lz compression
        ⟨sv.text_lt _, (kindOf_spec hkind).2.2⟩ rest
    refine .inr ⟨fun hs => absurd hlocked hs.1, ?_⟩
    rw [hcut]
    split
    next => exact .inl rfl
    next => exact .inr ⟨_, _, rfl, by show Status.locked ≠ _; decide⟩
  · rw [if_neg hlocked]
    by_cases hmax : (Server.found m kind o).totalLen ≤ MAX_CAPACITY
    · have hserves : sv.Serves kind m.key o := by
        refine ⟨hlocked, ?_⟩
        rw [← totalLen_found]
        exact hmax
      obtain hfound | ⟨hnone, hbad⟩ :=
        refCut_found lz compression hkind hcontent rest hmax
      · exact .inl ⟨hserves, hfound⟩
      · exact .inr ⟨fun _ => hnone, .inl hbad⟩
    · have hcut := (Server.found m kind o).refCut_packet lz compression
        (found_wellFormed hkind hcontent) rest
      rw [if_pos (by omega)] at hcut
      refine .inr ⟨fun hs => absurd hs.2 ?_, .inl hcut⟩
      rw [← totalLen_found]
      exact hmax

end Answers

-- ============================================================== printing

variable {sv : Server} {o : Object}

/-- What a retrieval prints is what its loop ends with in front of the
answers to its requests. -/
theorem prints_of_answers (hlz : lz.Lawful) (hcontent : sv.content key = some o)
    (cmd : Retrieve) (expire : List UInt8) (quiet : Bool)
    {out : List UInt8}
    (h : ∀ m : RequestMessage, m.serial = 1 → m.key = key →
      kindOf m.command = some (cmd.kind quiet) →
      ∃ last, printed last = out
        ∧ Awaits lz compression (if quiet then 2 else 1)
          (sv.answer m
            ++ if quiet then sv.answer (noopPacket.message 2) else []) last) :
    Prints (main lz sv.peer quiet compression cmd (cmd.argv key expire))
      out := by
  obtain ⟨p, hp, hkey, hkind⟩ := request_becomes lz cmd
    (sv.key_ne_nil hcontent) (sv.key_lt hcontent)
    (UInt32.ofNat (strtoull expire)) quiet
  obtain ⟨last, rfl, hw⟩ := h (p.message 1) rfl hkey hkind
  refine prints_of_awaits hlz hp (exec_argv sv.peer cmd key expire) ?_
  intro c hserial
  rw [requested_serial hserial, peer_requested sv hp.passes hserial]
  exact hw

/-- Without `-q` a retrieval prints the object's data, if the object is
served. -/
theorem prints_plain (hlz : lz.Lawful) (hcontent : sv.content key = some o)
    (compression : Nat) (cmd : Retrieve) (expire : List UInt8) :
    Prints (main lz sv.peer false compression cmd (cmd.argv key expire))
      (if sv.Serves (cmd.kind false) key o then o.data lz compression
        else []) := by
  apply prints_of_answers hlz hcontent cmd expire false
  intro m hserial hkey hkind
  subst hkey
  rw [if_neg Bool.false_ne_true, if_neg Bool.false_ne_true]
  obtain ⟨hserves, r, hcut, hok, hown, hdata⟩ | ⟨hnone, hcut⟩ :=
    refCut_answer lz compression hkind hcontent []
  · refine ⟨.ok r, ?_, .own hcut hok (hown.trans hserial)⟩
    rw [if_pos hserves]
    exact hdata
  · have hnothing : (if sv.Serves (cmd.kind false) m.key o then
        o.data lz compression else []) = [] := by
      split
      next hserves => exact hnone hserves
      next => rfl
    rw [hnothing]
    obtain hbad | ⟨n, r, hframe, hstatus⟩ := hcut
    · exact ⟨.error 2, rfl, .bad hbad⟩
    · exact ⟨.error 3, rfl, .refused hframe hstatus⟩

/-- With `-q` a retrieval prints nothing. -/
theorem prints_quiet (hlz : lz.Lawful) (hcontent : sv.content key = some o)
    (compression : Nat) (cmd : Retrieve) (expire : List UInt8) :
    Prints (main lz sv.peer true compression cmd (cmd.argv key expire))
      [] := by
  apply prints_of_answers hlz hcontent cmd expire true
  intro m hserial hkey hkind
  subst hkey
  rw [if_pos rfl, if_pos rfl]
  have hnoop := (Server.bare (noopPacket.message 2) Status.ok []).refCut_packet
    lz compression ⟨by decide, by decide, by decide⟩ []
  rw [List.append_nil] at hnoop
  obtain ⟨-, r, hcut, hok, hown, -⟩ | ⟨-, hbad | ⟨n, r, hframe, hstatus⟩⟩ :=
    refCut_answer lz compression hkind hcontent
      (sv.answer (noopPacket.message 2))
  · -- the object is skipped: its serial is no longer the one awaited
    refine ⟨.ok (Server.bare (noopPacket.message 2) Status.ok []).response,
      rfl, .other hcut hok ?_ ?_⟩
    · rw [hown, hserial]
      decide
    · rw [List.drop_left]
      exact .own hnoop rfl rfl
  · exact ⟨.error 2, rfl, .bad hbad⟩
  · exact ⟨.error 3, rfl, .refused hframe hstatus⟩

/-- With and without `-q` a retrieval prints the data of an object that
exists exactly when that is empty. -/
theorem quiet_prints_iff (hlz : lz.Lawful) {key : List UInt8} {o : Object}
    (sv : Server) (hcontent : sv.content key = some o) (compression : Nat)
    (cmd : Retrieve) (expire : List UInt8) :
    (Prints (main lz sv.peer false compression cmd (cmd.argv key expire))
        (o.data lz compression)
      ∧ Prints (main lz sv.peer true compression cmd (cmd.argv key expire))
        (o.data lz compression))
    ↔ o.data lz compression = [] := by
  have hplain := prints_plain hlz hcontent compression cmd expire
  have hquiet := prints_quiet hlz hcontent compression cmd expire
  constructor
  · intro h
    exact h.2.unique hquiet
  · intro hempty
    rw [hempty, ite_self] at hplain
    rw [hempty]
    exact ⟨hplain, hquiet⟩

/-- A server with one object under the key `k`. -/
def Server.single (o : Object) (h : 5 + o.payload.length < 2 ^ 32) :
    Server where
  content key := if key = [107] then some o else none
  lockedOut _ := false
  text _ := []
  key_ne_nil {key o'} hc := by
    split at hc
    next hkey => rw [hkey]; exact List.cons_ne_nil _ _
    next => cases hc
  key_lt {key o'} hc := by
    split at hc
    next hkey => rw [hkey]; decide
    next => cases hc
  object_lt {key o'} hc := by
    split at hc
    next hkey => cases hc; rw [hkey]; exact h
    next => cases hc
  text_lt _ := by decide

/-- An empty object: `get` prints nothing with `-q` or without. -/
theorem quiet_prints_iff_empty :
    Prints (main Lz4.literals (Server.single ⟨5, [], 1⟩ (by decide)).peer
        false 16384 .get [[107]]) []
      ∧ Prints (main Lz4.literals (Server.single ⟨5, [], 1⟩ (by decide)).peer
        true 16384 .get [[107]]) [] :=
  (quiet_prints_iff Lz4.literals_lawful _
    (show (Server.single ⟨5, [], 1⟩ (by decide)).content [107] = some _
      from rfl) 16384 .get []).mpr rfl

/-- An object `abc`: `get` prints it, `get` with `-q` exits in the same way
and prints nothing. -/
theorem quiet_get_silent :
    let peer := (Server.single ⟨5, [97, 98, 99], 1⟩ (by decide)).peer
    main Lz4.literals peer false 16384 .get [[107]]
        ⟨.ok 3, some fun _ => 0, [.took 25], [], [.bytes 31], [.took 3]⟩
      = some ⟨0, [97, 98, 99]⟩
    ∧ main Lz4.literals peer true 16384 .get [[107]]
        ⟨.ok 3, some fun _ => 0, [.took 25], [.took 24], [.bytes 55], []⟩
      = some ⟨0, []⟩
    ∧ ¬ (Prints (main Lz4.literals peer false 16384 .get [[107]])
          [97, 98, 99]
        ∧ Prints (main Lz4.literals peer true 16384 .get [[107]])
          [97, 98, 99]) := by
  intro peer
  have hquiet : main Lz4.literals peer true 16384 .get [[107]]
      ⟨.ok 3, some fun _ => 0, [.took 25], [.took 24], [.bytes 55], []⟩
    = some ⟨0, []⟩ := by decide +kernel
  have hsucceed : Answers.Succeed
      ⟨.ok 3, some fun _ => 0, [.took 25], [.took 24], [.bytes 55], []⟩ :=
    ⟨rfl, rfl, by decide, by decide, serving_singleton trivial,
      fun ack hm => by cases hm⟩
  refine ⟨by decide +kernel, hquiet, ?_⟩
  intro h
  cases h.2.2 _ _ hsucceed hquiet

end Yc

end Yrmcds
