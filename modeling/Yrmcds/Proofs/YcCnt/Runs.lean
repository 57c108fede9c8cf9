/-
Runs of the counter tool.

Every command receives in a loop: `dump` in one of many rounds, the others
in one of a single round (`exec_eq`). Receiving is a source of the
responses of the stream, and `recv_or_die` one of those that carry the
serial of the request, so a command folds its body over these
(`main_comes`): it ends as they say, or behind a beginning of them because a
call failed.

There is a way for every step to return (`ask_finishes`,
`answer_finishes`), so what a command is to end with it can end with.

In front of a server no call fails for the stream's sake
(`CntServer.no_violation`), so it is the network, the kernel or an
allocator.
-/
import Yrmcds.Proofs.Counter.Progress
import Yrmcds.Proofs.Counter.Requests
import Yrmcds.Proofs.Recv.Source
import Yrmcds.Proofs.Send.Sync
import Yrmcds.Spec.CounterServer

namespace Yrmcds

open Endian Framing Gather

namespace YcCnt

variable {realloc : StatsRealloc} {peer : Yc.Peer} {cmd : Cmd} {a : Answers}
  {serial : UInt32} {written : List UInt8}

-- ================================================================== asking

/-- A command function that does not send has a bad argument. -/
theorem packet_error {request : CntRequest} {e : Error}
    (h : request.packet = .error e) : e = .badArgument := by
  cases request with
  | noop => cases h
  | get name =>
      simp only [CntRequest.packet, yrmcdsCntGet] at h
      split at h
      next => cases h; rfl
      next => cases h
  | acquire name resources initial =>
      simp only [CntRequest.packet, yrmcdsCntAcquire] at h
      split at h
      next => cases h; rfl
      next => cases h
  | release name resources =>
      simp only [CntRequest.packet, yrmcdsCntRelease] at h
      split at h
      next => cases h; rfl
      next => cases h
  | stats => cases h
  | dump => cases h

theorem ask_exec {c : CntConn} {request : CntRequest} {p : CntPacket}
    (hp : request.packet = .ok p) (acks : List Ack) :
    CntSendCall.exec c ⟨request, acks⟩ = cntSendCommand c p acks := by
  rw [CntSendCall.exec, hp]

/-- A request that returns OK has been sent. -/
theorem ask_sent {c : CntConn} {request : CntRequest} {p : CntPacket}
    {acks : List Ack} (hp : request.packet = .ok p)
    (hok : (cntSendCommand c p acks).result = some .ok) :
    ask c request acks = some (.ok (c.serial + 1, p.frame (c.serial + 1))) := by
  have hsends := CntRequest.packet_spec hp
  have hwritten := (cntSendCommand_spec acks hsends.accepted).of_ok hok
  have hserial : (cntSendCommand c p acks).serial = some (c.serial + 1) := by
    rw [cntSendCommand, if_neg hsends.accepted]
  unfold ask
  rw [ask_exec hp]
  dsimp only
  rw [hok, hwritten, hserial]
  rfl

/-- A request that was accepted and sent is its frame. -/
theorem ask_ok {c : CntConn} {request : CntRequest} {acks : List Ack}
    (h : ask c request acks = some (.ok (serial, written))) :
    ∃ p, request.packet = .ok p ∧ serial = c.serial + 1
      ∧ written = p.frame (c.serial + 1) := by
  cases hp : request.packet with
  | error e =>
      have hexec : CntSendCall.exec c ⟨request, acks⟩ = .early c e := by
        rw [CntSendCall.exec, hp]
      unfold ask at h
      rw [hexec, packet_error hp] at h
      cases h
  | ok p =>
      have hok : (cntSendCommand c p acks).result = some .ok := by
        unfold ask at h
        rw [ask_exec hp] at h
        dsimp only at h
        split at h
        next => cases h
        next hok => exact hok
        next => cases h
      rw [ask_sent hp hok] at h
      cases h
      exact ⟨p, rfl, rfl, rfl⟩

/-- There is a way for a request to be sent. -/
theorem ask_finishes (c : CntConn) {request : CntRequest} {p : CntPacket}
    (hp : request.packet = .ok p) :
    ∃ acks, .refused ∉ acks
      ∧ ask c request acks
        = some (.ok (c.serial + 1, p.frame (c.serial + 1))) := by
  refine ⟨[.took (p.frame (c.serial + 1)).length], ?_, ?_⟩
  · rw [List.mem_singleton]
    intro h
    cases h
  · exact ask_sent hp
      (cntSendCommand_spec _ (CntRequest.packet_spec hp).accepted).ok_of_all

/-- A request fails before it is written, or because it was refused. -/
theorem ask_error {c : CntConn} {request : CntRequest} {acks : List Ack}
    {e : Error} (h : ask c request acks = some (.error e)) :
    request.packet = .error .badArgument ∨ .refused ∈ acks := by
  cases hp : request.packet with
  | error e => exact .inl (by rw [packet_error hp])
  | ok p =>
      refine .inr ?_
      by_contra hacks
      have hspec := cntSendCommand_spec (c := c) acks
        (CntRequest.packet_spec hp).accepted
      unfold ask at h
      rw [ask_exec hp] at h
      dsimp only at h
      split at h
      next => cases h
      next => cases h
      next e' hne hres =>
        have hok := hspec.ok_of_returns hacks (by rw [hres]; simp)
        rw [hres] at hok
        cases hok
        exact hne rfl

-- ============================================================ receiving

/-- What a command does behind its request. -/
def Cmd.answer (cmd : Cmd) (fuel : Nat)
    (next : Source.Next (CntReceiver × Kernel) Error CntResponse)
    (x : CntReceiver × Kernel) : Option Ending :=
  (Source.loop next (fun out _ => .exited ⟨1, out⟩) cmd.body fuel [] x).map
    Prod.fst

/-- One response is a loop that stops in its first round. -/
theorem once_eq (cmd : Cmd) (hbody : cmd.body = fun _ r => .error
      (if r.status = CNT_STATUS_OK then cmd.shown r else refused [] r))
    (fuel : Nat) : once cmd.shown (fuel + 1) = cmd.answer (fuel + 1) := by
  funext next x
  rw [Cmd.answer, hbody, once]
  exact Source.once_eq_loop next (fun out _ => Ending.exited ⟨1, out⟩) _ fuel
    [] x

/-- A command has a round at least. -/
theorem command_congr {request : CntRequest} {answer answer' : Nat →
      Source.Next (CntReceiver × Kernel) Error CntResponse →
        CntReceiver × Kernel → Option Ending}
    (h : ∀ fuel, answer (fuel + 1) = answer' (fuel + 1)) :
    command peer request answer = command peer request answer' := by
  funext c a
  simp only [command, h]

/-- Every command receives in a loop. -/
theorem exec_eq (peer : Yc.Peer) (cmd : Cmd) :
    cmd.exec peer = command peer cmd.request cmd.answer := by
  cases cmd with
  | noop => exact command_congr (once_eq .noop rfl)
  | get name => exact command_congr (once_eq (.get name) rfl)
  | acquire name resources initial =>
      exact command_congr (once_eq (.acquire name resources initial) rfl)
  | release name resources =>
      exact command_congr (once_eq (.release name resources) rfl)
  | stats => exact command_congr (once_eq .stats rfl)
  | dump => rfl

/-- The responses of a stream to the request with a serial. -/
def own (stream : List UInt8) (serial : UInt32) : List CntResponse :=
  (cntFormat.parse stream).filter fun r => r.serial == serial

/-- What a command comes to in front of a stream. -/
abbrev Comes (realloc : StatsRealloc) (cmd : Cmd) (stream : List UInt8)
    (serial : UInt32) (script : List Answer) : Option Ending → Prop :=
  Source.Comes (own stream serial) (Reason cntFormat stream script)
    (∃ x, GoneOn cntFormat CntReceiver.rx CntReceiver.Ok stream script x
      ∧ nextResponse realloc x = none)
    (fun out _ => .exited ⟨1, out⟩) cmd.body []

/-- A command folds its body over the responses to its request. -/
theorem answer_comes (hmem : ∀ n, (realloc n).isSome) (cmd : Cmd) (buf : Mem)
    (stream : List UInt8) (serial : UInt32) (script : List Answer) :
    Comes realloc cmd stream serial script
      (cmd.answer (stream.length + 1)
        (recvOrDie realloc serial (stream.length + 1))
        (CntReceiver.connected buf, ⟨stream, script⟩)) := by
  have D := (yrmcdsCntRecv_moves hmem).delivers stream script
  have D' := D.find (fun r => r.serial == serial) (stream.length + 1)
  have hstart : GoneOn cntFormat CntReceiver.rx CntReceiver.Ok stream script
      (CntReceiver.connected buf, ⟨stream, script⟩) := by
    refine ⟨⟨Nat.le_refl _, Nat.zero_le _, Nat.le_refl _⟩, fun hd => ?_,
      ⟨0, rfl⟩, List.suffix_refl _⟩
    cases hd
  refine D'.comes (fun h => ?_) (fun hx hfind => ?_) [] hstart ?_
  · obtain ⟨-, -, -, hreason⟩ := h
    exact hreason
  · exact D.loop_blocked hfind hx (Nat.lt_succ_of_le hx.length_parse_le)
  · exact Nat.lt_succ_of_le
      ((List.length_filter_le _ _).trans hstart.length_parse_le)

/-- There is a way for a command to end as these responses say. -/
theorem answer_finishes (realloc : StatsRealloc)
    (hmem : ∀ n, (realloc n).isSome) (cmd : Cmd) (buf : Mem)
    {stream : List UInt8} {serial : UInt32} {t : Ending}
    (hfold : (own stream serial).foldlM cmd.body [] = .error t) :
    ∃ script, Serving script
      ∧ cmd.answer (stream.length + 1)
        (recvOrDie realloc serial (stream.length + 1))
        (CntReceiver.connected buf, ⟨stream, script⟩) = some t := by
  have hok : (CntReceiver.connected buf).Ok :=
    ⟨Nat.le_refl _, Nat.zero_le _, Nat.le_refl _⟩
  have hfew : (cntFormat.parse stream).length ≤ stream.length + 1 :=
    (cntFormat.length_parse_le stream).trans (Nat.le_succ _)
  have V := (yrmcdsCntRecv_provides hmem).find (fun r => r.serial == serial)
    (stream.length + 1)
  obtain ⟨script, x', hserve, hloop⟩ :=
    V.loop_of_fold (fun out _ => Ending.exited ⟨1, out⟩)
      (x := (CntReceiver.connected buf, stream)) ⟨⟨hok, rfl⟩, hfew⟩ hfold
      (Nat.lt_succ_of_le ((List.length_filter_le _ _).trans
        (cntFormat.length_parse_le stream)))
  refine ⟨script, hserve, ?_⟩
  rw [Cmd.answer]
  exact congrArg (Option.map Prod.fst) hloop

-- ================================================================== main

/-- Why a process may end before it has a request on the wire. -/
inductive Unstarted (argv : List (List UInt8)) (a : Answers) : Prop where
  | arguments (h : parseArgs argv = none)
  | server {e : Error} (h : a.server = .error e)
  | malloc (h : a.malloc = none)
  | request {cmd : Cmd} (hcmd : parseArgs argv = some cmd)
      (h : cmd.request.packet = .error .badArgument)
  | refused (h : .refused ∈ a.request)

/-- A process exits with status 1 before it has a request on the wire, is
blocked there, or comes to what the answers to its request say. -/
theorem main_comes (peer : Yc.Peer) (argv : List (List UInt8)) (a : Answers)
    (hmem : ∀ n, (a.realloc n).isSome) :
    (main peer argv a = some (.exited ⟨1, []⟩) ∧ Unstarted argv a)
    ∨ (main peer argv a = none
      ∧ ∃ cmd fd, parseArgs argv = some cmd
        ∧ ask ⟨fd, 0⟩ cmd.request a.request = none)
    ∨ ∃ cmd p, parseArgs argv = some cmd ∧ cmd.request.packet = .ok p
      ∧ Comes a.realloc cmd (peer (p.frame 1)) 1 a.recv (main peer argv a) := by
  unfold main
  split
  next hargv => exact .inl ⟨rfl, .arguments (by rw [hargv]; rfl)⟩
  next =>
    cases hserver : a.server with
    | error e => exact .inl ⟨rfl, .server hserver⟩
    | ok fd =>
        cases hmalloc : a.malloc with
        | none => exact .inl ⟨rfl, .malloc hmalloc⟩
        | some buf =>
            dsimp only [yrmcdsCntConnect]
            cases hcmd : parseArgs argv with
            | none => exact .inl ⟨rfl, .arguments hcmd⟩
            | some cmd =>
                dsimp only
                rw [exec_eq, command]
                cases hask : ask ⟨fd, 0⟩ cmd.request a.request with
                | none => exact .inr (.inl ⟨rfl, cmd, fd, rfl, hask⟩)
                | some res =>
                    cases res with
                    | error e =>
                        obtain hp | hrefused := ask_error hask
                        · exact .inl ⟨rfl, .request hcmd hp⟩
                        · exact .inl ⟨rfl, .refused hrefused⟩
                    | ok sent =>
                        obtain ⟨serial, written⟩ := sent
                        obtain ⟨p, hp, rfl, rfl⟩ := ask_ok hask
                        refine .inr (.inr ⟨cmd, p, rfl, hp, ?_⟩)
                        have hcomes := answer_comes hmem cmd buf
                          (peer (p.frame (0 + 1))) (0 + 1) a.recv
                        dsimp only [CntReceiver.connected] at hcomes ⊢
                        rw [Nat.zero_add]
                        exact hcomes

/-- A `noop` to a peer that answers with a packet of another protocol. -/
theorem main_comes_noop :
    let peer : Yc.Peer := fun _ => [0x81, 0, 0, 0, 0, 0, 0, 0, 1, 0, 0, 0]
    let argv := [ascii "noop"]
    let a : Answers := ⟨.ok 3, some fun _ => 0, [.took 12], [.bytes 12],
      fun _ => some fun _ => ⟨[], []⟩⟩
    (main peer argv a = some (.exited ⟨1, []⟩) ∧ Unstarted argv a)
    ∨ (main peer argv a = none
      ∧ ∃ cmd fd, parseArgs argv = some cmd
        ∧ ask ⟨fd, 0⟩ cmd.request a.request = none)
    ∨ ∃ cmd p, parseArgs argv = some cmd ∧ cmd.request.packet = .ok p
      ∧ Comes a.realloc cmd (peer (p.frame 1)) 1 a.recv (main peer argv a) :=
  main_comes _ _ _ fun _ => rfl

end YcCnt

end Yrmcds
