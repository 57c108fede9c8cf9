/-
What a sequence of command-sending calls leaves on the socket.

Each call writes a prefix of its frame, the whole of it when it returns
`YRMCDS_OK` (`sendCommand_spec`, `cntSendCommand_spec`), so a run of
calls is the log of a sequential writer and `FrameLog` applies. Neither
`send_command` remembers that an earlier call gave up inside its frame:
the request stream stays in sync exactly when no later call gets to write
(`sendCalls_inSync_iff`).
-/
import Yrmcds.Lib.FrameLog
import Yrmcds.Proofs.Send.Writev

namespace Yrmcds

open Endian Gather FrameLog

-- ============================================================ one command

/-- The segments of an argument that passed the checks. -/
theorem flatten_segment {p : Ptr} (h : ¬ (p.len ≠ 0 ∧ p.isNull = true)) :
    (if p.len > 0 then [p.bytes] else []).flatten = p.bytes := by
  cases p with
  | null n =>
      have hn : n = 0 := by simpa [Ptr.len, Ptr.isNull] using h
      subst hn
      rfl
  | buf bs =>
      split
      next => rw [List.flatten_singleton]
      next hlen =>
        have hnil : bs = [] := List.length_eq_zero_iff.mp (by
          have : ¬ bs.length > 0 := hlen
          omega)
        rw [hnil]
        rfl

theorem segment_ne_nil {p : Ptr} (h : ¬ (p.len ≠ 0 ∧ p.isNull = true)) :
    ∀ s ∈ (if p.len > 0 then [p.bytes] else []), s ≠ [] := by
  intro s hs
  split at hs
  next hlen =>
    rw [List.mem_singleton.mp hs]
    cases p with
    | null n => exact absurd ⟨by omega, rfl⟩ h
    | buf bs => exact List.length_pos_iff.mp hlen
  next => cases hs

/-- The filled entries of `send.c` hold the frame. -/
theorem Packet.iov_spec {p : Packet} (h : ¬ p.rejected) (serial : UInt32) :
    (p.iov serial).flatten = p.frame serial
      ∧ ∀ s ∈ p.iov serial, s ≠ [] := by
  simp only [Packet.rejected, not_or] at h
  obtain ⟨-, -, -, -, hkey, hextras, hdata⟩ := h
  constructor
  · rw [Packet.iov, Packet.frame]
    simp only [List.flatten_append, flatten_segment hkey,
      flatten_segment hextras, flatten_segment hdata, List.flatten_singleton]
  · intro s hs
    rw [Packet.iov] at hs
    simp only [List.mem_append] at hs
    rcases hs with ((hs | hs) | hs) | hs
    · rw [List.mem_singleton.mp hs]
      intro hnil
      cases hnil
    · exact segment_ne_nil hextras s hs
    · exact segment_ne_nil hkey s hs
    · exact segment_ne_nil hdata s hs

/-- The filled entries of `counter.c` hold the frame. -/
theorem CntPacket.iov_spec {p : CntPacket} (h : ¬ p.rejected)
    (serial : UInt32) :
    (p.iov serial).flatten = p.frame serial
      ∧ ∀ s ∈ p.iov serial, s ≠ [] := by
  simp only [CntPacket.rejected, not_or] at h
  obtain ⟨-, h₁, h₂⟩ := h
  simp only [CntPacket.iov, CntPacket.frame, ← Nat.pos_iff_ne_zero]
  constructor
  · simp only [List.flatten_append, flatten_segment h₁, flatten_segment h₂,
      List.flatten_singleton]
  · intro s hs
    simp only [List.mem_append] at hs
    rcases hs with (hs | hs) | hs
    · rw [List.mem_singleton.mp hs]
      intro hnil
      cases hnil
    · exact segment_ne_nil h₁ s hs
    · exact segment_ne_nil h₂ s hs

/-- What a call did that got as far as writing `frame`. -/
structure Wrote {σ : Type} (acks : List Ack) (request : List UInt8)
    (s : Sent σ) : Prop where
  frame : s.frame = some request
  written : s.written = (pour acks request).written
  result : s.result = loopResult (some (pour acks request))

/-- A command that returned OK has written its frame. -/
theorem Wrote.of_ok {σ : Type} {acks : List Ack} {request : List UInt8}
    {s : Sent σ} (h : Wrote acks request s) (hok : s.result = some .ok) :
    s.written = request := by
  rw [h.result] at hok
  rw [h.written]
  apply (pour_done_iff acks _).mp
  rcases hp : pour acks request with ⟨written, ending⟩
  rw [hp] at hok
  cases ending with
  | done => rfl
  | refused => cases hok
  | waiting => cases hok

/-- A command that returns without having been refused returns OK. -/
theorem Wrote.ok_of_returns {σ : Type} {acks : List Ack}
    {request : List UInt8} {s : Sent σ} (h : Wrote acks request s)
    (hacks : .refused ∉ acks) (hret : s.result ≠ none) :
    s.result = some .ok := by
  rw [h.result] at hret ⊢
  rcases hp : pour acks request with ⟨written, _ | _ | _⟩
  · rfl
  · exact absurd (pour_refused (by rw [hp])) hacks
  · rw [hp] at hret
    exact absurd rfl hret

/-- A command whose frame is taken at once returns OK. -/
theorem Wrote.ok_of_all {σ : Type} {request : List UInt8} {s : Sent σ}
    (h : Wrote [.took request.length] request s) : s.result = some .ok := by
  rw [h.result, pour_all]
  rfl

/-- A command that passes the argument checks writes its frame. -/
theorem sendCommand_spec {c : Conn} {p : Packet} (acks : List Ack)
    (h : ¬ p.rejected) :
    Wrote acks (p.frame (c.serial + 1)) (sendCommand c p acks) := by
  obtain ⟨hflat, hne⟩ := p.iov_spec h (c.serial + 1)
  have hloop := sendLoop_spec acks (p.iov (c.serial + 1))
    (List.replicate (4 - (p.iov (c.serial + 1)).length) []) hne
  rw [hflat] at hloop
  rw [sendCommand, if_neg h]
  exact ⟨rfl, congrArg loopWritten hloop, congrArg loopResult hloop⟩

/-- A counter command that passes the argument checks writes its
frame. -/
theorem cntSendCommand_spec {c : CntConn} {p : CntPacket} (acks : List Ack)
    (h : ¬ p.rejected) :
    Wrote acks (p.frame (c.serial + 1)) (cntSendCommand c p acks) := by
  obtain ⟨hflat, hne⟩ := p.iov_spec h (c.serial + 1)
  have hloop := cntSendLoop_spec acks (p.iov (c.serial + 1)).length []
    (p.iov (c.serial + 1))
    (List.replicate (3 - (p.iov (c.serial + 1)).length) []) hne
    (Nat.zero_add _).symm
  rw [hflat, List.nil_append, List.length_nil] at hloop
  rw [cntSendCommand, if_neg h]
  exact ⟨rfl, congrArg loopWritten hloop, congrArg loopResult hloop⟩

-- =============================================================== one call

/-- A call as an attempt to write a frame. -/
def Sent.entry {σ : Type} (s : Sent σ) : Entry UInt8 where
  frame := s.frame
  written := s.written
  gaveUp := s.result == some .systemError

/-- The call passes every check and its first `writev` that is not
interrupted takes bytes. -/
def SendCall.Writes (lz : Lz4) (c : Conn) (call : SendCall) : Prop :=
  ∃ p, call.request.packet lz c call.malloc = .ok p ∧ ¬ p.rejected
    ∧ Takes (p.frame (c.serial + 1)).length call.acks

/-- The call passes every check and its first `writev` that is not
interrupted takes bytes. -/
def CntSendCall.Writes (c : CntConn) (call : CntSendCall) : Prop :=
  ∃ p, call.request.packet = .ok p ∧ ¬ p.rejected
    ∧ Takes (p.frame (c.serial + 1)).length call.acks

/-- What one call does to the socket, for both kinds of connection. -/
structure CallSpec {σ : Type} (writes : Prop) (s : Sent σ) : Prop where
  begins : s.written <+: s.frame.getD []
  ending : s.result = none ∨ s.entry.Whole ∨ s.entry.gaveUp = true
  writes_iff : s.written ≠ [] ↔ writes

/-- An early return writes nothing. -/
theorem callSpec_early {σ : Type} {writes : Prop} (c : σ) (e : Error)
    (h : ¬ writes) : CallSpec writes (Sent.early c e) :=
  ⟨List.nil_prefix, Or.inr (Or.inl rfl),
    fun hw => absurd rfl hw, fun hw => absurd hw h⟩

/-- A call that gets as far as its loop. -/
theorem Wrote.callSpec {σ : Type} {acks : List Ack} {frame : List UInt8}
    {s : Sent σ} (h : Wrote acks frame s) (hne : frame ≠ []) :
    CallSpec (Takes frame.length acks) s := by
  have hpre := pour_written_prefix acks frame
  have hdone := pour_done_iff acks frame
  refine ⟨?_, ?_, ?_⟩
  · rw [h.written, h.frame]
    exact hpre
  · have hres := h.result
    rcases hp : pour acks frame with ⟨written, _ | _ | _⟩
    · rw [hp] at hdone
      refine Or.inr (Or.inl ?_)
      show s.written = s.frame.getD []
      rw [h.written, h.frame, hp]
      exact hdone.mp rfl
    · rw [hp] at hres
      refine Or.inr (Or.inr ?_)
      show (s.result == some .systemError) = true
      rw [hres]
      rfl
    · rw [hp] at hres
      exact Or.inl hres
  · rw [h.written]
    exact pour_written_ne_nil_iff acks hne

/-- A call is an early return or a `send_command`, which rejects its
arguments or writes its frame. -/
theorem callSpec_exec {σ P : Type} {rejected : P → Prop}
    {frame : P → List UInt8} {s : Sent σ} {c : σ} {acks : List Ack}
    (packet : Except Error P) (send : P → Sent σ)
    (herr : ∀ e, packet = .error e → s = .early c e)
    (hok : ∀ p, packet = .ok p → s = send p)
    (hrej : ∀ p, rejected p → send p = .early c .badArgument)
    (hsend : ∀ p, ¬ rejected p → Wrote acks (frame p) (send p))
    (hne : ∀ p, frame p ≠ []) :
    CallSpec
      (∃ p, packet = .ok p ∧ ¬ rejected p ∧ Takes (frame p).length acks)
      s := by
  cases packet with
  | error e =>
      rw [herr e rfl]
      apply callSpec_early c e
      rintro ⟨p, hp, -⟩
      cases hp
  | ok p =>
      rw [hok p rfl]
      by_cases h : rejected p
      · rw [hrej p h]
        apply callSpec_early c .badArgument
        rintro ⟨p', hp', hacc, -⟩
        cases hp'
        exact hacc h
      · have hspec := (hsend p h).callSpec (hne p)
        refine ⟨hspec.begins, hspec.ending, hspec.writes_iff.trans ?_⟩
        refine ⟨fun ht => ⟨p, rfl, h, ht⟩, ?_⟩
        rintro ⟨p', hp', -, ht⟩
        cases hp'
        exact ht

theorem SendCall.exec_spec (lz : Lz4) (c : Conn) (call : SendCall) :
    CallSpec (call.Writes lz c) (call.exec lz c) :=
  callSpec_exec (call.request.packet lz c call.malloc)
    (fun p => sendCommand c p call.acks)
    (fun e he => by rw [SendCall.exec, he])
    (fun p hp => by rw [SendCall.exec, hp])
    (fun p h => if_pos h) (fun p h => sendCommand_spec call.acks h)
    (fun p hnil => by cases hnil)

theorem CntSendCall.exec_spec (c : CntConn) (call : CntSendCall) :
    CallSpec (call.Writes c) (call.exec c) :=
  callSpec_exec call.request.packet (fun p => cntSendCommand c p call.acks)
    (fun e he => by rw [CntSendCall.exec, he])
    (fun p hp => by rw [CntSendCall.exec, hp])
    (fun p h => if_pos h) (fun p h => cntSendCommand_spec call.acks h)
    (fun p hnil => by cases hnil)

-- ================================================================= a run

section Run

variable {σ κ : Type} {exec : σ → κ → Sent σ} {writes : σ → κ → Prop}

/-- No call writes once the socket ends in a frame that an earlier call
gave up; `torn` says whether it does. -/
def Spared (exec : σ → κ → Sent σ) (writes : σ → κ → Prop) :
    Prop → σ → List κ → Prop
  | _, _, [] => True
  | torn, c, call :: calls =>
      (torn → ¬ writes c call)
        ∧ ((exec c call).result ≠ none →
          Spared exec writes (torn ∨ (exec c call).entry.Torn)
            (exec c call).conn calls)

/-- A run of calls is the log of a sequential writer. -/
theorem sendCalls_log (hspec : ∀ c call, CallSpec (writes c call) (exec c call))
    (c : σ) (calls : List κ) :
    Log ((sendCalls exec c calls).map Sent.entry) := by
  induction calls generalizing c with
  | nil => exact .nil
  | cons call calls ih =>
      rw [sendCalls]
      have hs := hspec c call
      split
      next => exact .cons hs.begins (Or.inr (Or.inr rfl)) .nil
      next hres =>
        refine .cons hs.begins ?_ (ih _)
        rcases hs.ending with h | h | h
        · exact absurd h hres
        · exact Or.inl h
        · exact Or.inr (Or.inl h)

/-- In a run, writing nothing behind a torn frame is sparing it. -/
theorem silentFrom_iff_spared
    (hspec : ∀ c call, CallSpec (writes c call) (exec c call))
    (torn : Prop) (c : σ) (calls : List κ) :
    SilentFrom torn ((sendCalls exec c calls).map Sent.entry)
      ↔ Spared exec writes torn c calls := by
  induction calls generalizing torn c with
  | nil => exact Iff.rfl
  | cons call calls ih =>
      rw [sendCalls, Spared]
      have hw := (hspec c call).writes_iff
      have hhead : (torn → (exec c call).entry.written = [])
          ↔ (torn → ¬ writes c call) := by
        rw [← hw, ne_eq, not_not]
        exact Iff.rfl
      split
      next hres =>
        rw [List.map_singleton, SilentFrom, hhead]
        exact and_congr_right fun _ =>
          ⟨fun _ h => absurd hres h, fun _ => trivial⟩
      next hres =>
        rw [List.map_cons, SilentFrom, hhead, ih]
        exact and_congr_right fun _ => ⟨fun h _ => h, fun h => h hres⟩

end Run

/-- The request stream of a connection, of either kind, stays in sync in
a run exactly when no call writes behind a frame an earlier call gave
up. -/
theorem sendCalls_inSync_iff (lz : Lz4) (c : Conn) (calls : List SendCall)
    (cnt : CntConn) (cntCalls : List CntSendCall) :
    (InSync ((sendCalls (fun c call => SendCall.exec lz c call) c calls).map
        Sent.entry)
      ↔ Spared (fun c call => SendCall.exec lz c call)
          (fun c call => call.Writes lz c) False c calls)
    ∧ (InSync ((sendCalls CntSendCall.exec cnt cntCalls).map Sent.entry)
      ↔ Spared CntSendCall.exec (fun c call => call.Writes c) False cnt
          cntCalls) := by
  have hspec := SendCall.exec_spec lz
  have hcnt := CntSendCall.exec_spec
  exact ⟨(sendCalls_log hspec c calls).inSync_iff.trans
      (silentFrom_iff_spared hspec False c calls),
    (sendCalls_log hcnt cnt cntCalls).inSync_iff.trans
      (silentFrom_iff_spared hcnt False cnt cntCalls)⟩

/-- A `set` whose second `writev` fails, followed by the `unlockall` of
the destructor: its header is written behind half a request. -/
theorem sendCalls_not_inSync :
    ¬ InSync ((sendCalls (fun c call => SendCall.exec Lz4.literals c call)
      (Conn.connected 3 fun _ => 0)
      [⟨.set (.buf [107]) (.buf [118]) 0 0 0 false, true,
          [.took 24, .refused]⟩,
        ⟨.unlockall false, true, [.took 24]⟩]).map Sent.entry) := by
  intro h
  have hlate := h.silent [] _ [_] rfl ⟨rfl, by decide, fun hwhole => by
    revert hwhole
    unfold Entry.Whole
    decide⟩ _ (List.mem_cons_self ..)
  revert hlate
  decide

end Yrmcds
