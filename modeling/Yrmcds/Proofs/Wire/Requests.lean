/-
The requests of a log, and what a server reads of them.

A `Link` records what its requests do (`Kind`) and whether they were sent
completely. Here that record is compared with the bytes: the frame of a
request says what the request does (`Request.kind_message`), and a command
function that returns OK has written exactly its frame, one that fails a
beginning of it or nothing (`SendCall.exec_ends`). So the complete requests
of a log, numbered by their places in it, are what the server's reader
makes of the bytes.
-/
import Yrmcds.Model.Methods
import Yrmcds.Proofs.Send.Requests

namespace Yrmcds

open Framing Gather

-- ============================================================= what it says

/-- What a request does, as the message says it. -/
def RequestMessage.kind (m : RequestMessage) : Kind :=
  match m.command with
  | .noop => .noop
  | .lock | .lag | .lagQ | .lagK | .lagKQ => .lock m.key false
  | .lockQ => .lock m.key true
  | .unlock | .rau | .delete => .unlock m.key false
  | .unlockQ | .rauQ | .deleteQ => .unlock m.key true
  | .unlockAll => .unlockAll false
  | .unlockAllQ => .unlockAll true
  | .flush | .flushQ => .flush
  | .quit | .quitQ => .quit
  | _ => .other

section Commands

variable {lz : Lz4} {c : Conn} {malloc : Bool} {cmd : Command}
  {key extras data : Ptr} {flags expire : UInt32} {cas : UInt64} {p : Packet}
  {e : Error}

theorem keyCommand_ok (h : keyCommand cmd key extras = .ok p) :
    p.cmd = cmd ∧ p.key = key := by
  unfold keyCommand at h
  split at h
  next => cases h
  next =>
    cases h
    exact ⟨rfl, rfl⟩

theorem concatCommand_ok (h : concatCommand cmd key data = .ok p) :
    p.cmd = cmd ∧ p.key = key := by
  unfold concatCommand at h
  split at h
  next => cases h
  next =>
    cases h
    exact ⟨rfl, rfl⟩

theorem sendData_ok
    (h : sendData lz c malloc cmd key data flags expire cas = .ok p) :
    p.cmd = cmd ∧ p.key = key := by
  unfold sendData at h
  split at h
  next => cases h
  next =>
    split at h
    next =>
      split at h
      next => cases h
      next =>
        split at h
        next => cases h
        next =>
          dsimp only at h
          split at h
          next => cases h
          next =>
            cases h
            exact ⟨rfl, rfl⟩
    next =>
      cases h
      exact ⟨rfl, rfl⟩

theorem keyCommand_error (h : keyCommand cmd key extras = .error e) :
    e ≠ .ok := by
  unfold keyCommand at h
  split at h
  next =>
    cases h
    exact Error.noConfusion
  next => cases h

theorem concatCommand_error (h : concatCommand cmd key data = .error e) :
    e ≠ .ok := by
  unfold concatCommand at h
  split at h
  next =>
    cases h
    exact Error.noConfusion
  next => cases h

theorem sendData_error
    (h : sendData lz c malloc cmd key data flags expire cas = .error e) :
    e ≠ .ok := by
  unfold sendData at h
  split at h
  next =>
    cases h
    exact Error.noConfusion
  next =>
    split at h
    next =>
      split at h
      next =>
        cases h
        exact Error.noConfusion
      next =>
        split at h
        next =>
          cases h
          exact Error.noConfusion
        next =>
          dsimp only at h
          split at h
          next =>
            cases h
            exact Error.noConfusion
          next => cases h
    next => cases h

/-- A command function that refuses its arguments says why. -/
theorem Request.packet_error {request : Request}
    (h : request.packet lz c malloc = .error e) : e ≠ .ok := by
  cases request with
  | noop | statGeneral | statSettings | statItems | statSizes | version =>
      cases h
  | unlockall quiet | quit quiet => cases h
  | flush delay quiet =>
      rw [packet, yrmcdsFlush] at h
      split at h
      next => cases h
      next => cases h
  | keys keyPrefix =>
      rw [packet, yrmcdsKeys] at h
      split at h
      next =>
        cases h
        exact Error.noConfusion
      next => cases h
  | set | replace | add | replaceUnlock => exact sendData_error h
  | append | prepend => exact concatCommand_error h
  | get | getk | getTouch | getkTouch | lockGet | lockGetk | touch | incr
  | incr2 | decr | decr2 | remove | lock | unlock => exact keyCommand_error h

/-- The frame of a request says what the request does. -/
theorem Request.kind_message {request : Request} (serial : UInt32)
    (h : request.packet lz c malloc = .ok p) :
    (p.message serial).kind = request.kind := by
  have hkind : ∀ {cmd key}, p.cmd = cmd ∧ p.key = key → (p.message serial).kind
      = RequestMessage.kind ⟨cmd, serial, 0, [], key.bytes, []⟩ := by
    intro cmd key h
    obtain ⟨hcmd, hkey⟩ := h
    unfold RequestMessage.kind Packet.message
    rw [hcmd, hkey]
  cases request with
  | noop | statGeneral | statSettings | statItems | statSizes | version =>
      cases h
      rfl
  | unlockall quiet | quit quiet =>
      cases h
      cases quiet <;> rfl
  | flush delay quiet =>
      rw [packet, yrmcdsFlush] at h
      split at h <;> cases h <;> cases quiet <;> rfl
  | keys keyPrefix =>
      rw [packet, yrmcdsKeys] at h
      split at h
      next => cases h
      next =>
        cases h
        rfl
  | set key data flags expire cas quiet
  | replace key data flags expire cas quiet
  | add key data flags expire cas quiet
  | replaceUnlock key data flags expire quiet =>
      rw [hkind (sendData_ok h)]
      cases quiet <;> rfl
  | append key data quiet | prepend key data quiet =>
      rw [hkind (concatCommand_ok h)]
      cases quiet <;> rfl
  | touch key expire quiet => exact hkind (keyCommand_ok h)
  | get key quiet | getk key quiet | getTouch key expire quiet
  | getkTouch key expire quiet | lockGet key quiet | lockGetk key quiet
  | incr key value quiet | incr2 key value initial expire quiet
  | decr key value quiet | decr2 key value initial expire quiet
  | remove key quiet | lock key quiet | unlock key quiet =>
      rw [hkind (keyCommand_ok h)]
      cases quiet <;> rfl

end Commands

-- ============================================================== what it does

/-- How a call of a command function ends that does end. -/
inductive SendEnding (lz : Lz4) (c : Conn) (call : SendCall) : Prop where
  | refused {e : Error} (he : e ≠ .ok) (hs : call.exec lz c = .early c e)
  | failed (hres : (call.exec lz c).result = some .systemError)
      (hconn : (call.exec lz c).conn = { c with serial := c.serial + 1 })
  | sent {p : Packet} (hrej : ¬ p.rejected)
      (hkind : (p.message (c.serial + 1)).kind = call.request.kind)
      (hres : (call.exec lz c).result = some .ok)
      (hconn : (call.exec lz c).conn = { c with serial := c.serial + 1 })
      (hwritten : (call.exec lz c).written = p.frame (c.serial + 1))

theorem SendCall.exec_ends (lz : Lz4) (c : Conn) (call : SendCall)
    (h : (call.exec lz c).result ≠ none) : SendEnding lz c call := by
  cases hp : call.request.packet lz c call.malloc with
  | error e =>
      have hs : call.exec lz c = .early c e := by rw [SendCall.exec, hp]
      exact .refused (Request.packet_error hp) hs
  | ok p =>
      have hs : call.exec lz c = sendCommand c p call.acks := by
        rw [SendCall.exec, hp]
      by_cases hrej : p.rejected
      · rw [sendCommand, if_pos hrej] at hs
        exact .refused Error.noConfusion hs
      · have hspec := sendCommand_spec (c := c) call.acks hrej
        have hconn : (sendCommand c p call.acks).conn
            = { c with serial := c.serial + 1 } := by
          rw [sendCommand, if_neg hrej]
        rw [← hs] at hspec hconn
        have hres := hspec.result
        rcases hpour : pour call.acks (p.frame (c.serial + 1)) with
          ⟨written, _ | _ | _⟩
        · rw [hpour] at hres
          exact .sent hrej (Request.kind_message _ hp) hres hconn
            (hspec.of_ok hres)
        · rw [hpour] at hres
          exact .failed hres hconn
        · rw [hpour] at hres
          exact absurd hres h

-- ================================================================ the log

/-- The complete requests of a log, under the serials of their places. -/
def completeRequests (log : List SentRequest) : List (UInt32 × Kind) :=
  (log.zipIdx 1).filterMap fun q =>
    if q.1.fate = .complete then some (UInt32.ofNat q.2, q.1.kind)
    else none

theorem completeRequests_append (log : List SentRequest) (q : SentRequest) :
    completeRequests (log ++ [q]) = completeRequests log
      ++ if q.fate = .complete then [(UInt32.ofNat (log.length + 1), q.kind)]
        else [] := by
  unfold completeRequests
  rw [List.zipIdx_append, List.filterMap_append]
  congr 1
  rw [List.zipIdx_singleton, Nat.add_comm 1]
  by_cases hq : q.fate = .complete
  · simp [hq]
  · simp [hq]

/-- What a server reads of the bytes: one message for each complete request,
with nothing left over. -/
def Reads (sent : List UInt8) (log : List SentRequest) : Prop :=
  ∃ messages, requestFormat.whole sent = some messages
    ∧ messages.map (fun m => (m.serial, m.kind)) = completeRequests log

theorem reads_nil : Reads [] [] := ⟨[], rfl, rfl⟩

/-- A request that put nothing on the socket is not read. -/
theorem Reads.lost {sent : List UInt8} {log : List SentRequest}
    {q : SentRequest} (h : Reads sent log) (hq : q.fate ≠ .complete) :
    Reads sent (log ++ [q]) := by
  obtain ⟨messages, hwhole, hall⟩ := h
  refine ⟨messages, hwhole, ?_⟩
  rw [completeRequests_append, if_neg hq, List.append_nil]
  exact hall

/-- A request that was sent is read behind the others. -/
theorem Reads.sent {sent : List UInt8} {log : List SentRequest}
    {q : SentRequest} {p : Packet} (h : Reads sent log) (hq : q.fate = .complete)
    (hrej : ¬ p.rejected)
    (hkind : (p.message (UInt32.ofNat (log.length + 1))).kind = q.kind) :
    Reads (sent ++ p.frame (UInt32.ofNat (log.length + 1))) (log ++ [q]) := by
  obtain ⟨messages, hwhole, hall⟩ := h
  refine ⟨messages ++ [p.message (UInt32.ofNat (log.length + 1))],
    Format.whole_append hwhole (p.cut_frame hrej _), ?_⟩
  rw [completeRequests_append, if_pos hq, List.map_append, hall,
    List.map_singleton, hkind]
  rfl

end Yrmcds
