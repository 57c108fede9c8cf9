/-
The receiver among the senders.

A step of `yrmcds_recv` neither reads nor writes `c->serial`
(`recvStep_serial`), and nothing else that it looks at is written by a
sender, so the receiver's part of a run is the run without the senders
(`recv_alone`). There, step after step, a call becomes what `yrmcdsRecv`
is in one piece: `RecvPc.rest` is what is left of the call, and a step
leaves the rest of the rest (`recvStep_rest`). So the results are those of
`recvCalls` (`results_recvCalls`).
-/
import Yrmcds.Proofs.Recv.Refinement
import Yrmcds.Proofs.Recv.Steps
import Yrmcds.Proofs.Threads.Steps

namespace Yrmcds

open Query

variable {lz : Lz4}

-- ===================================================== the buffer invariant

/-- The buffer invariant between two steps: at `recv()` there is room for
what it may bring. -/
def RecvPc.Ok : RecvPc → Conn → Prop
  | .again _, c => c.BufOk ∧ RECV_SIZE ≤ c.capacity - c.used
  | _, c => c.BufOk

/-- Growing makes room for a `recv()`. -/
theorem growBuf_ok {c c' : Conn} {k k' : Kernel} (body : Option Nat)
    (h : growBuf c k = some (some c', k')) (hok : c.BufOk) :
    (RecvPc.again body).Ok c' ∧ c'.compressSize = c.compressSize := by
  rw [growBuf_eq, Option.map_eq_some_iff] at h
  obtain ⟨⟨g, k₁⟩, hgrow, heq⟩ := h
  have hspec := RecvBuf.grow_spec hgrow (bufOk_iff.mp hok)
  cases g with
  | none => cases heq
  | some b =>
      cases heq
      exact ⟨⟨bufOk_iff.mpr hspec.1.ok, hspec.2.1⟩, rfl⟩

/-- Received bytes go into that room. -/
theorem received_ok {c : Conn} {body : Option Nat} {bs : List UInt8}
    (h : (RecvPc.again body).Ok c) (hlen : bs.length ≤ RECV_SIZE) :
    ({ c with
      recvbuf := c.recvbuf.write c.used bs
      used := c.used + bs.length } : Conn).BufOk := by
  obtain ⟨⟨hlast, hused, hrecv⟩, hfree⟩ := h
  refine ⟨?_, ?_, hrecv⟩
  · show c.lastSize ≤ c.used + bs.length
    omega
  · show c.used + bs.length ≤ c.capacity
    omega

/-- A packet that is returned lies in the bytes in use. -/
theorem recvPacket_ok {c c' : Conn} {k k' : Kernel} {totalLen : Nat}
    {res : RecvResult} (h : recvPacket lz c k totalLen = some (res, c', k'))
    (hok : c.BufOk) (hhave : 24 + totalLen ≤ c.used) : c'.BufOk := by
  obtain ⟨decompressed, invalid, lastSize, rfl, hlast⟩ := recvPacket_frame h
  obtain ⟨hle, hle', hrecv⟩ := hok
  refine ⟨?_, hle', hrecv⟩
  show lastSize ≤ c.used
  omega

theorem poison_ok {c : Conn} (h : c.BufOk) : c.poison.BufOk :=
  ⟨h.last_le, h.used_le, h.recv_le⟩

/-- A step keeps the buffer invariant and the compression setting. -/
theorem recvStep_ok {pc pc' : RecvPc} {c c' : Conn} {k k' : Kernel}
    {res : Option RecvResult}
    (h : recvStep lz pc c k = some (pc', c', k', res)) (hok : pc.Ok c) :
    pc'.Ok c' ∧ c'.compressSize = c.compressSize := by
  cases recvStepped h with
  | refused => exact ⟨hok, rfl⟩
  | begins =>
      obtain ⟨hshift, -, -, hcs, -⟩ := shiftOut_spec hok
      exact ⟨hshift, hcs⟩
  | noMemory => exact ⟨hok, rfl⟩
  | @grows body _ _ _ _ _ hgrow => exact growBuf_ok body hgrow hok
  | badHeader => exact ⟨poison_ok hok, rfl⟩
  | header => exact ⟨hok, rfl⟩
  | packet hfull hdone =>
      refine ⟨recvPacket_ok hdone hok hfull, ?_⟩
      obtain ⟨_, _, _, rfl, -⟩ := recvPacket_frame hdone
      rfl
  | interrupted => exact ⟨hok, rfl⟩
  | failed => exact ⟨hok.1, rfl⟩
  | got hrecv =>
      obtain ⟨used, a, -, hdid⟩ := Kernel.recv_spec hrecv
      exact ⟨received_ok hok hdid.2.2, rfl⟩

-- ========================================================= what is left

/-- What follows on a `while` loop. -/
def afterLoop (lz : Lz4) : Option Nat → Conn → Kernel →
    Option (RecvResult × Conn × Kernel)
  | none, c, k => recvBody lz c k
  | some totalLen, c, k => recvPacket lz c k totalLen

/-- What is left of a call at the head of a `while` loop. -/
def restOfLoop (lz : Lz4) (body : Option Nat) (c : Conn) (k : Kernel) :
    Option (RecvResult × Conn × Kernel) :=
  match recvFill (recvTarget body) (k.script.length + 1) c k with
  | none => none
  | some (.ok, c, k) => afterLoop lz body c k
  | some (e, c, k) => some (.err e, c, k)

/-- What is left of a call at `recv()`, by what that returns. -/
def restOfRecv (lz : Lz4) (body : Option Nat) (c : Conn) :
    Option (RecvRet × Kernel) → Option (RecvResult × Conn × Kernel)
  | none => none
  | some (.error, k) => some (.err .systemError, c, k)
  | some (.eof, k) => some (.err .disconnected, c, k)
  | some (.got bs, k) =>
      restOfLoop lz body { c with
        recvbuf := c.recvbuf.write c.used bs
        used := c.used + bs.length } k

/-- What is left of a call. -/
def RecvPc.rest (lz : Lz4) : RecvPc → Conn → Kernel →
    Option (RecvResult × Conn × Kernel)
  | .idle, c, k => yrmcdsRecv lz c k
  | .loop body, c, k => restOfLoop lz body c k
  | .again body, c, k => restOfRecv lz body c (k.recv RECV_SIZE)

/-- A round of a loop that wants more. -/
theorem restOfLoop_more {body : Option Nat} {c : Conn} {k : Kernel}
    (hok : c.BufOk) (hlt : c.used < recvTarget body) :
    restOfLoop lz body c k = match growBuf c k with
      | none => none
      | some (none, k) => some (.err .outOfMemory, c, k)
      | some (some c, k) => (RecvPc.again body).rest lz c k := by
  unfold restOfLoop
  rw [recvFill, if_pos hlt]
  unfold recvData
  rcases hgrow : growBuf c k with _ | ⟨_ | c₁, k₁⟩
  · rfl
  · rfl
  · have hok₁ := (growBuf_ok body hgrow hok).1
    have hle : k₁.script.length ≤ k.script.length := by
      rw [growBuf_eq, Option.map_eq_some_iff] at hgrow
      obtain ⟨⟨g, k₂⟩, hgrow, heq⟩ := hgrow
      have hspec := RecvBuf.grow_spec hgrow (bufOk_iff.mp hok)
      cases g with
      | none => cases heq
      | some b =>
          cases heq
          obtain ⟨used, hused⟩ := hspec.1.script
          rw [hused, List.length_append]
          omega
    dsimp only
    rw [RecvPc.rest]
    rcases hrecv : k₁.recv RECV_SIZE with _ | ⟨bs | _ | _, k₂⟩
    · rfl
    · obtain ⟨used, a, hscript, hdid⟩ := Kernel.recv_spec hrecv
      have hlt₂ : k₂.script.length < k₁.script.length := by
        rw [hscript, List.length_append, List.length_cons]
        omega
      dsimp only
      rw [recvFill_fuel (received_ok hok₁ hdid.2.2)
        (show k₂.script.length < k.script.length by omega)
        (Nat.lt_succ_self k₂.script.length)]
      rfl
    · rfl
    · rfl

/-- A loop that has what it wants. -/
theorem restOfLoop_done {body : Option Nat} {c : Conn} {k : Kernel}
    (hfull : ¬ c.used < recvTarget body) :
    restOfLoop lz body c k = afterLoop lz body c k := by
  unfold restOfLoop
  rw [recvFill, if_neg hfull]

/-- What a step leaves of a call that was to end as `out`. -/
def Leaves (lz : Lz4) (out : Option (RecvResult × Conn × Kernel))
    (pc : RecvPc) (c : Conn) (k : Kernel) : Option RecvResult → Prop
  | none => out = pc.rest lz c k
  | some r => out = some (r, c, k) ∧ pc = .idle

/-- What follows on a loop leaves the rest of that. -/
theorem recvFull_rest {pc' : RecvPc} {c c' : Conn} {k k' : Kernel}
    {body : Option Nat} {res : Option RecvResult}
    (h : recvFull lz body c k = some (pc', c', k', res)) :
    Leaves lz (afterLoop lz body c k) pc' c' k' res := by
  have hnone : afterLoop lz none c k = recvBody lz c k := rfl
  cases body with
  | none =>
      rw [recvFull] at h
      split at h
      next hhead =>
        cases h
        exact ⟨by rw [hnone, recvBody, hhead], rfl⟩
      next hhead =>
        cases h
        show afterLoop lz none c k = _
        rw [hnone, recvBody, hhead]
        rfl
  | some totalLen =>
      rw [recvFull] at h
      split at h
      next => cases h
      next hpacket =>
        cases h
        exact ⟨hpacket, rfl⟩

/-- A step leaves the rest of what was left. -/
theorem recvStep_rest {pc pc' : RecvPc} {c c' : Conn} {k k' : Kernel}
    {res : Option RecvResult}
    (h : recvStep lz pc c k = some (pc', c', k', res)) (hok : pc.Ok c) :
    Leaves lz (pc.rest lz c k) pc' c' k' res := by
  -- the rest is unfolded once the case is known
  cases pc with
  | idle =>
      have hrest : RecvPc.idle.rest lz c k = yrmcdsRecv lz c k := rfl
      rw [recvStep] at h
      split at h
      next hinv =>
        cases h
        exact ⟨by rw [hrest, yrmcdsRecv, if_pos hinv], rfl⟩
      next hinv =>
        cases h
        show RecvPc.idle.rest lz c k = _
        rw [hrest, yrmcdsRecv, if_neg hinv]
        rfl
  | loop body =>
      have hrest : (RecvPc.loop body).rest lz c k = restOfLoop lz body c k := rfl
      rw [recvStep] at h
      split at h
      next hlt =>
        split at h
        next => cases h
        next hgrow =>
          cases h
          exact ⟨by rw [hrest, restOfLoop_more hok hlt, hgrow], rfl⟩
        next hgrow =>
          cases h
          show (RecvPc.loop body).rest lz c k = _
          rw [hrest, restOfLoop_more hok hlt, hgrow]
      next hfull =>
        rw [hrest, restOfLoop_done hfull]
        exact recvFull_rest h
  | again body =>
      have hrest : (RecvPc.again body).rest lz c k
        = restOfRecv lz body c (k.recv RECV_SIZE) := rfl
      rw [recvStep] at h
      split at h
      next script hscript =>
        cases h
        obtain ⟨stream, _⟩ := k
        cases hscript
        rfl
      next =>
        split at h
        next => cases h
        next hrecv =>
          cases h
          exact ⟨by rw [hrest, hrecv, restOfRecv], rfl⟩
        next hrecv =>
          cases h
          exact ⟨by rw [hrest, hrecv, restOfRecv], rfl⟩
        next hrecv =>
          cases h
          show (RecvPc.again body).rest lz c k = _
          rw [hrest, hrecv]
          rfl

-- ===================================================== what senders write

/-- A connection with another serial, which is all a sender writes. -/
def Conn.withSerial (c : Conn) (serial : UInt32) : Conn := { c with serial }

section withSerial

variable (c : Conn) (k : Kernel) (serial : UInt32)

@[simp] theorem Conn.withSerial_recvbuf :
    (c.withSerial serial).recvbuf = c.recvbuf := rfl

@[simp] theorem Conn.withSerial_used :
    (c.withSerial serial).used = c.used := rfl

@[simp] theorem Conn.withSerial_compressSize :
    (c.withSerial serial).compressSize = c.compressSize := rfl

@[simp] theorem Conn.withSerial_invalid :
    (c.withSerial serial).invalid = c.invalid := rfl

theorem growBuf_withSerial :
    growBuf (c.withSerial serial) k = (growBuf c k).map fun (g, k) =>
      (g.map (·.withSerial serial), k) := by
  unfold growBuf
  by_cases hfree : c.capacity - c.used < RECV_SIZE
  · rw [if_pos hfree, if_pos (show (c.withSerial serial).capacity
      - (c.withSerial serial).used < _ from hfree)]
    rcases k.alloc with _ | ⟨_ | junk, k⟩ <;> rfl
  · rw [if_neg hfree, if_neg (show ¬ (c.withSerial serial).capacity
      - (c.withSerial serial).used < _ from hfree)]
    rfl

theorem shiftOut_withSerial :
    (c.withSerial serial).shiftOut = c.shiftOut.withSerial serial := by
  unfold Conn.shiftOut
  by_cases hpos : c.lastSize > 0
  · rw [if_pos hpos, if_pos (show (c.withSerial serial).lastSize > 0 from hpos)]
    rfl
  · rw [if_neg hpos,
      if_neg (show ¬ (c.withSerial serial).lastSize > 0 from hpos)]

theorem inflate_withSerial (r : Response) (off : Nat) (inputSize : Int)
    (size : Nat) :
    inflate lz (c.withSerial serial) k r off inputSize size
      = (inflate lz c k r off inputSize size).map fun (res, c, k) =>
        (res, c.withSerial serial, k) := by
  unfold inflate
  rcases k.alloc with _ | ⟨_ | junk, k⟩
  · rfl
  · rfl
  · simp only [Conn.withSerial_recvbuf]
    rcases lz.decompressSafe (fun i => c.recvbuf (off + i)) inputSize size
      with _ | data
    · rfl
    · by_cases hsize : data.length = size
      · simp only [if_neg (not_not_intro hsize)]
        rfl
      · simp only [if_pos hsize]
        rfl

theorem recvPacket_withSerial (totalLen : Nat) :
    recvPacket lz (c.withSerial serial) k totalLen
      = (recvPacket lz c k totalLen).map fun (res, c, k) =>
        (res, c.withSerial serial, k) := by
  unfold recvPacket
  simp only [Conn.withSerial_recvbuf, Conn.withSerial_compressSize]
  cases run c.recvbuf.answer (decodeBody c.compressSize totalLen) with
  | bad => rfl
  | packet r => rfl
  | inflate r off inputSize size => exact inflate_withSerial c k serial ..

theorem recvFull_withSerial (body : Option Nat) :
    recvFull lz body (c.withSerial serial) k
      = (recvFull lz body c k).map fun (pc, c, k, res) =>
        (pc, c.withSerial serial, k, res) := by
  cases body with
  | none =>
      rw [recvFull, recvFull, Conn.withSerial_recvbuf]
      cases run c.recvbuf.answer decodeHeader <;> rfl
  | some totalLen =>
      rw [recvFull, recvFull, recvPacket_withSerial]
      cases recvPacket lz c k totalLen <;> rfl

/-- A step of `yrmcds_recv` neither looks at the serial nor changes it. -/
theorem recvStep_withSerial (pc : RecvPc) :
    recvStep lz pc (c.withSerial serial) k
      = (recvStep lz pc c k).map fun (pc, c, k, res) =>
        (pc, c.withSerial serial, k, res) := by
  cases pc with
  | idle =>
      rw [recvStep, recvStep, shiftOut_withSerial, Conn.withSerial_invalid]
      split <;> rfl
  | loop body =>
      rw [recvStep, recvStep, growBuf_withSerial, recvFull_withSerial,
        Conn.withSerial_used]
      by_cases hlt : c.used < recvTarget body
      · rw [if_pos hlt, if_pos hlt]
        rcases growBuf c k with _ | ⟨_ | c, k⟩ <;> rfl
      · rw [if_neg hlt, if_neg hlt]
  | again body =>
      rw [recvStep, recvStep]
      split
      next => rfl
      next => rcases k.recv RECV_SIZE with _ | ⟨_ | _ | _, k⟩ <;> rfl

end withSerial

-- ============================================================ without them

/-- The steps of the receiver. -/
def ThreadAct.isRecv {T : Type} : ThreadAct T → Bool
  | .recv => true
  | _ => false

namespace Threads

open Run

variable {T : Type}

/-- Two states that the receiver cannot tell apart. -/
structure SameReceiver (w v : Threads T) : Prop where
  receiver : v.receiver = w.receiver
  kernel : v.kernel = w.kernel
  results : v.results = w.results
  conn : ∃ serial, v.conn = w.conn.withSerial serial

theorem SameReceiver.refl (w : Threads T) : SameReceiver w w :=
  ⟨rfl, rfl, rfl, w.conn.serial, rfl⟩

variable [DecidableEq T]

/-- A step of a sender changes at most the serial. -/
theorem step_other {w w' v : Threads T} {a : ThreadAct T}
    (hw : SameReceiver w v) (ha : a.isRecv = false)
    (h : step lz w a = .ok w') : SameReceiver w' v := by
  obtain ⟨hpc, hk, hres, serial, hc⟩ := hw
  have hsame : ∀ u : Threads T, u.receiver = w.receiver →
      u.kernel = w.kernel → u.results = w.results →
      (∃ serial, u.conn = w.conn.withSerial serial) → SameReceiver u v := by
    rintro u hpc' hk' hres' ⟨serial', hc'⟩
    refine ⟨by rw [hpc, hpc'], by rw [hk, hk'], by rw [hres, hres'], serial, ?_⟩
    rw [hc, hc']
    rfl
  cases step_does h with
  | recv => cases ha
  | _ => exact hsame _ rfl rfl rfl ⟨_, rfl⟩

/-- A step of the receiver does the same in both. -/
theorem step_recv {w w' v : Threads T} (hw : SameReceiver w v)
    (h : step lz w .recv = .ok w') :
    ∃ v', step lz v .recv = .ok v' ∧ SameReceiver w' v' := by
  obtain ⟨hpc, hk, hres, serial, hc⟩ := hw
  rw [step, recv] at h ⊢
  rw [hpc, hk, hc, recvStep_withSerial]
  rcases hstep : recvStep lz w.receiver w.conn w.kernel with _ | ⟨pc, c, k, res⟩
  · rw [hstep] at h
    cases h
  · rw [hstep] at h
    cases h
    exact ⟨_, rfl, rfl, rfl, by rw [hres], serial, rfl⟩

/-- The receiver's results are those of the run in which nothing is sent
and the same bytes arrive. -/
theorem recv_alone {w w' : Threads T} {acts : List (ThreadAct T)}
    (h : exec (step lz) w acts = .ok w') :
    ∃ v, exec (step lz) w (acts.filter ThreadAct.isRecv) = .ok v
      ∧ v.results = w'.results := by
  obtain ⟨v, hrun, hv⟩ := exec_filter (R := SameReceiver)
    (p := ThreadAct.isRecv)
    (fun w v a w' hwv ha hstep => by
      cases a with
      | recv => exact step_recv hwv hstep
      | call => cases ha
      | go => cases ha
      | writev => cases ha)
    (fun w v a w' hwv ha hstep => step_other hwv ha hstep)
    (SameReceiver.refl w) h
  exact ⟨v, hrun, hv.results⟩

-- ============================================================ call by call

/-- The results still to come: of the rest of this call, and of the calls
after it. -/
def remaining (lz : Lz4) : Nat → RecvPc → Conn → Kernel → List RecvResult
  | 0, _, _, _ => []
  | n + 1, pc, c, k =>
      match pc.rest lz c k with
      | none => []
      | some (res, c, k) => res :: (recvCalls lz n c k).map (·.result)

theorem remaining_idle (n : Nat) (c : Conn) (k : Kernel) :
    remaining lz n .idle c k = (recvCalls lz n c k).map (·.result) := by
  cases n with
  | zero => rfl
  | succ n =>
      rw [remaining, recvCalls, RecvPc.rest]
      rcases yrmcdsRecv lz c k with _ | ⟨res, c, k⟩ <;> rfl

/-- How far a run of the receiver alone has come in `recvCalls`. -/
def Following (lz : Lz4) (c : Conn) (k : Kernel) (w : Threads T) : Prop :=
  w.receiver.Ok w.conn ∧ ∀ n,
    (recvCalls lz (w.results.length + n) c k).map (·.result)
      = w.results ++ remaining lz n w.receiver w.conn w.kernel

theorem following_step {c : Conn} {k : Kernel} {w w' : Threads T}
    (hw : Following lz c k w) (h : step lz w .recv = .ok w') :
    Following lz c k w' := by
  obtain ⟨hok, hfollow⟩ := hw
  rw [step, recv] at h
  rcases hstep : recvStep lz w.receiver w.conn w.kernel
    with _ | ⟨pc, c₁, k₁, res⟩
  · rw [hstep] at h
    cases h
  · rw [hstep] at h
    cases h
    refine ⟨(recvStep_ok hstep hok).1, fun n => ?_⟩
    have hrest := recvStep_rest hstep hok
    cases res with
    | none =>
        show (recvCalls lz ((w.results ++ []).length + n) c k).map (·.result)
          = (w.results ++ []) ++ remaining lz n pc c₁ k₁
        rw [List.append_nil, hfollow]
        cases n with
        | zero => rfl
        | succ n => rw [remaining, remaining, hrest]
    | some r =>
        obtain ⟨hrest, rfl⟩ := hrest
        show (recvCalls lz ((w.results ++ [r]).length + n) c k).map (·.result)
          = (w.results ++ [r]) ++ remaining lz n .idle c₁ k₁
        have hnext := hfollow (n + 1)
        rw [remaining, hrest] at hnext
        rw [List.length_append, List.length_singleton, Nat.add_assoc,
          Nat.add_comm 1 n, hnext, List.append_assoc, remaining_idle]
        rfl

/-- The results of a run are those of as many calls of `yrmcds_recv`, each
in one piece. -/
theorem results_recvCalls {c : Conn} {k : Kernel} {w : Threads T}
    {acts : List (ThreadAct T)} (hok : c.BufOk)
    (h : exec (step lz) (start c k) acts = .ok w) :
    w.results = (recvCalls lz w.results.length c k).map (·.result) := by
  obtain ⟨v, hrun, hres⟩ := recv_alone h
  have hrecv : ∀ a ∈ acts.filter ThreadAct.isRecv, a = .recv := by
    intro a ha
    have hmine := (List.mem_filter.mp ha).2
    cases a with
    | recv => rfl
    | call => cases hmine
    | go => cases hmine
    | writev => cases hmine
  have hstart : Following lz c k (start c k : Threads T) := by
    refine ⟨hok, fun n => ?_⟩
    show (recvCalls lz (0 + n) c k).map (·.result)
      = [] ++ remaining lz n .idle c k
    rw [Nat.zero_add, List.nil_append, remaining_idle]
  have hv : Following lz c k v :=
    exec_inv (I := Following lz c k) (P := fun _ a => a = .recv)
      (fun w a w' hw ha hstep => following_step hw (by rw [← ha]; exact hstep))
      hstart (guarded_of_forall hrecv) hrun
  have hall := hv.2 0
  rw [remaining, List.append_nil, Nat.add_zero, hres] at hall
  exact hall.symm

end Threads

end Yrmcds
