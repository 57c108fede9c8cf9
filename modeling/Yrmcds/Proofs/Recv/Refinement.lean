/-
`yrmcds_recv` refines the abstract receiver of its response format.

One call (`yrmcdsRecv_spec`) takes over a further piece of the stream and
then returns the packet the reference cuts from the front, reports the
violation the reference sees there, or fails for a reason its last answer
gives; it keeps the buffer invariant. The three stages of the code are
three lemmas: filling the header, filling the body, decoding.

So every call is a move of the abstract receiver (`recvCall_receives`),
and the runs of such calls carry the rest.
-/
import Yrmcds.Proofs.Recv.Calls
import Yrmcds.Proofs.Recv.Decode

namespace Yrmcds

open Endian Query Framing

variable {lz : Lz4}

-- ========================================================= abstraction

/-- A connection and its kernel as an abstract receiver. -/
def Conn.rx (c : Conn) (k : Kernel) : Rx UInt8 :=
  ⟨c.pending, k.stream, c.invalid⟩

/-- What a call returns, as the abstract receiver sees it. -/
def RecvResult.abs : RecvResult → Result Response
  | .ok r => .ok r
  | .err .protocolError => .bad
  | .err _ => .failed

/-- What one call does, in abstract terms: a move of the receiver that
keeps the invariant and the compression setting, and whose failure, if it
is one, is named by the last answer. -/
structure Refines (lz : Lz4) (c : Conn) (k : Kernel) (res : RecvResult)
    (c' : Conn) (k' : Kernel) : Prop where
  call : Call (responseFormat lz c.compressSize) (c.rx k) res.abs (c'.rx k')
  ok : c'.BufOk
  compressSize : c'.compressSize = c.compressSize
  script : ∃ used, k.script = used ++ k'.script
  failure : ∀ e, res = .err e → e ≠ .protocolError →
    ∃ used a, k.script = used ++ a :: k'.script ∧ a.Fails e

/-- A result as the general runs see it. -/
def RecvResult.toExcept : RecvResult → Except Error Response
  | .ok r => .ok r
  | .err e => .error e

theorem absResult_toExcept (res : RecvResult) :
    absResult res.toExcept = res.abs := by
  cases res with
  | ok r => rfl
  | err e => cases e <;> rfl

theorem toExcept_eq_error {res : RecvResult} {e : Error} :
    res.toExcept = .error e ↔ res = .err e := by
  cases res with
  | ok r => exact ⟨fun h => (by cases h), fun h => (by cases h)⟩
  | err e' => exact ⟨fun h => (by cases h; rfl), fun h => (by cases h; rfl)⟩

/-- The errors an answer gives are none of the format's. -/
theorem Answer.Fails.abs {a : Answer} {e : Error} (h : a.Fails e) :
    (RecvResult.err e).abs = .failed := by
  rw [← absResult_toExcept]
  exact absResult_of_fails h

section Refines

variable {c c' : Conn} {k k' : Kernel} {res : RecvResult}

theorem Conn.rx_live (k : Kernel) (hinv : c.invalid = false) :
    c.rx k = ⟨c.pending, k.stream, false⟩ := by
  rw [Conn.rx, hinv]

/-- A call refines when it is a move and keeps the rest. -/
theorem Refines.of_moves (hok : c'.BufOk)
    (hcs : c'.compressSize = c.compressSize)
    (h : Moves (responseFormat lz c.compressSize) (c.rx k) k res.toExcept
      (c'.rx k') k') : Refines lz c k res c' k' where
  call := by
    rw [← absResult_toExcept]
    exact h.call
  ok := hok
  compressSize := hcs
  script := h.script
  failure e he := h.failure e (toExcept_eq_error.mpr he)

theorem Refines.moves (h : Refines lz c k res c' k') :
    Moves (responseFormat lz c.compressSize) (c.rx k) k res.toExcept
      (c'.rx k') k' where
  call := by
    rw [absResult_toExcept]
    exact h.call
  script := h.script
  failure e he := h.failure e (toExcept_eq_error.mp he)

/-- A piece taken over before counts as taken over by the call. -/
theorem Refines.of_took {c₁ c₂ c₃ : Conn} {k₁ k₂ k₃ : Kernel}
    (h : Took c₁ k₁ c₂ k₂) (hinv : c₁.invalid = false)
    (h' : Refines lz c₂ k₂ res c₃ k₃) : Refines lz c₁ k₁ res c₃ k₃ := by
  have hmoves := h'.moves
  rw [Conn.rx_live k₂ (h.invalid.trans hinv), h.compressSize] at hmoves
  refine .of_moves h'.ok (h'.compressSize.trans h.compressSize) ?_
  rw [Conn.rx_live k₁ hinv]
  exact .of_took h.buf hmoves

/-- A fill loop that fails is a failed move. -/
theorem FailedBy.refines {e : Error} (h : FailedBy c k e c' k')
    (hinv : c.invalid = false) : Refines lz c k (.err e) c' k' := by
  refine .of_moves h.took.ok h.took.compressSize ?_
  rw [Conn.rx_live k hinv, Conn.rx_live k' (h.took.invalid.trans hinv)]
  exact .of_failed h.buf

end Refines

-- ============================================== the front of the buffer

/-- Right after the shift the pending bytes start the buffer. -/
theorem pending_of_last {c : Conn} (hlast : c.lastSize = 0) :
    c.pending = c.recvbuf.slice 0 c.used := by
  rw [Conn.pending, hlast, Nat.sub_zero]

/-- The header checks of the code are those of the reference. -/
theorem run_decodeHeader {m : Mem} {n : Nat} (h : 24 ≤ n) :
    run m.answer decodeHeader = refHeader (m.slice 0 n) := by
  have hmagic : (m.slice 0 n).headD 0 = (m.slice 0 1).headD 0 := by
    rw [show n = 1 + (n - 1) by omega, Mem.slice_add,
      headD_append _ (by simp)]
  unfold decodeHeader byteAt ntoh32 refHeader
  rw [hmagic, field_slice m (by omega)]
  simp only [run_bind, run_query, run_pure, run_ite, answer_eq]

/-- The verdict of the reference on a buffer that holds the whole
packet. -/
theorem refCut_slice (lz : Lz4) (compressSize : Nat) {m : Mem}
    {n totalLen : Nat}
    (hhead : refHeader (m.slice 0 n) = some totalLen)
    (hn : 24 + totalLen ≤ n) :
    refCut lz compressSize (m.slice 0 n)
      = match refDecode lz compressSize (m.slice 0 (24 + totalLen)) with
        | some r => .frame (24 + totalLen) r
        | none => .bad := by
  rw [refCut, Mem.length_slice, if_neg (by omega), hhead]
  dsimp only
  rw [if_neg (by omega)]
  show (match refDecode lz compressSize ((m.slice 0 n).take _) with
    | some r => Cut.frame (24 + totalLen) r
    | none => .bad) = _
  rw [Mem.take_slice _ _ _ _ hn]

/-- An acceptable header announces at most the maximum. -/
theorem refHeader_le {s : List UInt8} {totalLen : Nat}
    (h : refHeader s = some totalLen) : totalLen ≤ MAX_CAPACITY := by
  rw [refHeader] at h
  split at h
  next => cases h
  next =>
    split at h
    next => cases h
    next => cases h; omega

-- ============================================================= decoding

section Decoding

variable {c : Conn} {k k' : Kernel} {d : Bool}

/-- Returning the packet at the front consumes it. -/
theorem refines_ok {r : Response} (used : List Answer) (hok : c.BufOk)
    (hlast : c.lastSize = 0) (hinv : c.invalid = false)
    (hlen : r.length ≤ c.used)
    (hcut : refCut lz c.compressSize c.pending = .frame r.length r)
    (hstream : k'.stream = k.stream) (hscript : k.script = used ++ k'.script) :
    Refines lz c k (.ok r)
      { c with decompressed := d, lastSize := r.length } k' := by
  refine .of_moves ⟨hlen, hok.used_le, hok.recv_le⟩ rfl ?_
  have hdrop : Conn.pending { c with decompressed := d, lastSize := r.length }
      = c.pending.drop r.length := by
    rw [pending_of_last hlast, Mem.drop_slice _ _ _ _ hlen, Nat.zero_add]
    rfl
  rw [Conn.rx_live k hinv, Conn.rx, hdrop]
  show Moves _ _ _ _ ⟨_, _, c.invalid⟩ _
  rw [hinv]
  exact .of_frame hcut hstream hscript

/-- Poisoning the connection in front of a violation reports it. -/
theorem refines_bad (used : List Answer) (hok : c.BufOk)
    (hinv : c.invalid = false)
    (hcut : refCut lz c.compressSize c.pending = .bad)
    (hstream : k'.stream = k.stream) (hscript : k.script = used ++ k'.script) :
    Refines lz c k (.err .protocolError)
      { c with decompressed := d, invalid := true } k' := by
  refine .of_moves ⟨hok.last_le, hok.used_le, hok.recv_le⟩ rfl ?_
  rw [Conn.rx_live k hinv]
  exact .of_bad hcut hstream hscript

/-- A failed `malloc` leaves the packet where it is. -/
theorem refines_oom {a : Answer} (hok : c.BufOk) (hinv : c.invalid = false)
    (hstream : k'.stream = k.stream) (hscript : k.script = a :: k'.script)
    (ha : a = .null) :
    Refines lz c k (.err .outOfMemory) { c with decompressed := d } k' := by
  refine .of_moves ⟨hok.last_le, hok.used_le, hok.recv_le⟩ rfl ?_
  have hfails : a.Fails .outOfMemory := by
    rw [ha]
    trivial
  rw [Conn.rx_live k hinv, Conn.rx]
  show Moves _ _ _ _ ⟨_, _, c.invalid⟩ _
  rw [hinv]
  exact .of_answer hfails hstream (show _ = [] ++ _ from hscript)

end Decoding

/-- A call that has the whole packet in the buffer. -/
theorem recvPacket_spec (hlz : lz.Lawful) {c c' : Conn} {k k' : Kernel}
    {totalLen : Nat} {res : RecvResult}
    (h : recvPacket lz c k totalLen = some (res, c', k'))
    (hok : c.BufOk) (hlast : c.lastSize = 0) (hinv : c.invalid = false)
    (hhead : refHeader c.pending = some totalLen)
    (hhave : 24 + totalLen ≤ c.used) : Refines lz c k res c' k' := by
  have hdec := finish_decodeBody hlz c.recvbuf c.compressSize
    (refHeader_le hhead)
  have hlen := lengthIs_decodeBody c.recvbuf c.compressSize totalLen
  have hcut := refCut_slice lz c.compressSize
    (pending_of_last hlast ▸ hhead) hhave
  rw [← pending_of_last hlast, ← hdec] at hcut
  unfold recvPacket at h
  split at h
  next hrun =>
    cases h
    rw [hrun] at hcut
    exact refines_bad [] hok hinv hcut rfl rfl
  next r hrun =>
    cases h
    rw [hrun] at hcut hlen
    have hlen : r.length = 24 + totalLen := hlen
    exact refines_ok [] hok hlast hinv (by omega) (by rw [hlen]; exact hcut)
      rfl rfl
  next r off inputSize size hrun =>
    rw [hrun] at hcut hlen
    have hlen : r.length = 24 + totalLen := hlen
    rw [Decoded.finish] at hcut
    unfold inflate at h
    split at h
    next => cases h
    next k₁ halloc =>
      cases h
      obtain ⟨hstream, a, hscript, hnull⟩ := Kernel.alloc_spec halloc
      exact refines_oom hok hinv hstream hscript (hnull rfl)
    next junk k₁ halloc =>
      obtain ⟨hstream, a, hscript, -⟩ := Kernel.alloc_spec halloc
      dsimp only at h
      split at h
      next hlz4 =>
        cases h
        rw [hlz4] at hcut
        exact refines_bad [a] hok hinv hcut hstream hscript
      next data hlz4 =>
        rw [hlz4] at hcut
        dsimp only at hcut
        by_cases hsize : data.length = size
        · rw [if_neg (not_not_intro hsize)] at h
          rw [if_pos hsize] at hcut
          cases h
          refine refines_ok [a] hok hlast hinv ?_ ?_ hstream hscript
          · show r.length ≤ c.used
            omega
          · rw [hcut, ← hlen]
        · rw [if_pos hsize] at h
          rw [if_neg hsize] at hcut
          cases h
          exact refines_bad [a] hok hinv hcut hstream hscript

-- ============================================================= one call

/-- A call that has the header in the buffer. -/
theorem recvBody_spec (hlz : lz.Lawful) {c c' : Conn} {k k' : Kernel}
    {res : RecvResult} (h : recvBody lz c k = some (res, c', k'))
    (hok : c.BufOk) (hlast : c.lastSize = 0) (hinv : c.invalid = false)
    (hhave : 24 ≤ c.used) : Refines lz c k res c' k' := by
  unfold recvBody at h
  rw [run_decodeHeader hhave, ← pending_of_last hlast] at h
  have hlong : 24 ≤ c.pending.length := by
    rw [pending_of_last hlast, Mem.length_slice]
    exact hhave
  split at h
  next hhead =>
    cases h
    refine refines_bad [] hok hinv ?_ rfl rfl
    rw [refCut, if_neg (by omega), hhead]
  next totalLen hhead =>
    split at h
    next => cases h
    next c₁ k₁ hfill =>
      obtain ⟨-, htook, hfull⟩ | ⟨hne, -⟩ := recvFill_spec hfill hok
      · obtain ⟨bs, -, hp⟩ := htook.got
        refine Refines.of_took htook hinv (recvPacket_spec hlz h htook.ok
          (htook.last.trans hlast) (htook.invalid.trans hinv) ?_ hfull)
        rw [hp, refHeader_append bs hlong]
        exact hhead
      · exact absurd rfl hne
    next e c₁ k₁ hnot hfill =>
      cases h
      obtain ⟨he, -⟩ | ⟨-, hfail⟩ := recvFill_spec hfill hok
      · exact absurd he hnot
      · exact hfail.refines hinv

/-- The previous packet shifted out is no part of the abstract state. -/
theorem Refines.of_shiftOut {c c' : Conn} {k k' : Kernel}
    {res : RecvResult} (hok : c.BufOk)
    (h : Refines lz c.shiftOut k res c' k') : Refines lz c k res c' k' := by
  obtain ⟨-, -, hpend, hcs, hinv⟩ := shiftOut_spec hok
  have hcall := h.call
  rw [Conn.rx, hpend, hinv, hcs] at hcall
  exact ⟨hcall, h.ok, h.compressSize.trans hcs, h.script, h.failure⟩

/-- One call of `yrmcds_recv`. -/
theorem yrmcdsRecv_spec (hlz : lz.Lawful) {c c' : Conn} {k k' : Kernel}
    {res : RecvResult} (h : yrmcdsRecv lz c k = some (res, c', k'))
    (hok : c.BufOk) : Refines lz c k res c' k' := by
  unfold yrmcdsRecv at h
  split at h
  next hinv =>
    cases h
    refine .of_moves hok rfl ?_
    rw [Conn.rx, hinv]
    exact .of_dead
  next hinv =>
    have hinv : c.invalid = false := by simpa using hinv
    obtain ⟨hok₀, hlast₀, -, -, hinv₀⟩ := shiftOut_spec hok
    apply Refines.of_shiftOut hok
    split at h
    next => cases h
    next c₁ k₁ hfill =>
      obtain ⟨-, htook, hfull⟩ | ⟨hne, -⟩ := recvFill_spec hfill hok₀
      · exact Refines.of_took htook (hinv₀.trans hinv)
          (recvBody_spec hlz h htook.ok (htook.last.trans hlast₀)
            (htook.invalid.trans (hinv₀.trans hinv)) hfull)
      · exact absurd rfl hne
    next e c₁ k₁ hnot hfill =>
      cases h
      obtain ⟨he, -⟩ | ⟨-, hfail⟩ := recvFill_spec hfill hok₀
      · exact absurd he hnot
      · exact hfail.refines (hinv₀.trans hinv)

-- ================================================================ a run

/-- The responses a run of calls returned, in order. -/
def responses : List RecvCall → List Response
  | [] => []
  | ⟨.ok r, _⟩ :: calls => r :: responses calls
  | ⟨.err _, _⟩ :: calls => responses calls

/-- A call the kernel or the allocator failed: it returned the error of
its last answer. -/
def RecvCall.Interrupted (call : RecvCall) : Prop :=
  ∃ a e, call.answers.getLast? = some a ∧ a.Fails e
    ∧ call.result = .err e

/-- A finished call as the general runs see it. -/
def RecvCall.finished (call : RecvCall) : Finished Response :=
  ⟨call.result.toExcept, call.answers⟩

theorem finished_interrupted {call : RecvCall} :
    call.finished.Interrupted ↔ call.Interrupted := by
  unfold Finished.Interrupted RecvCall.Interrupted RecvCall.finished
  simp only [toExcept_eq_error]

theorem oksOf_finished (calls : List RecvCall) :
    oksOf (calls.map RecvCall.finished) = responses calls := by
  induction calls with
  | nil => rfl
  | cons call calls ih =>
      obtain ⟨res, answers⟩ := call
      cases res with
      | ok r => exact congrArg (r :: ·) ih
      | err e => exact ih

/-- `yrmcds_recv` as the general runs see it. -/
def recvCall (lz : Lz4) (c : Conn) (k : Kernel) :
    Option (Except Error Response × Conn × Kernel) :=
  (yrmcdsRecv lz c k).map fun (res, c, k) => (res.toExcept, c, k)

theorem runCalls_recvCall (n : Nat) (c : Conn) (k : Kernel) :
    runCalls (recvCall lz) n c k
      = (recvCalls lz n c k).map RecvCall.finished := by
  induction n generalizing c k with
  | zero => rfl
  | succ n ih =>
      rw [runCalls, recvCalls, recvCall]
      cases yrmcdsRecv lz c k with
      | none => rfl
      | some out =>
          obtain ⟨res, c', k'⟩ := out
          exact congrArg (_ :: ·) (ih c' k')

/-- Every call is a move of the abstract receiver of the connection's
format. -/
theorem recvCall_receives (hlz : lz.Lawful) (compressSize : Nat) :
    Receives (responseFormat lz compressSize) (recvCall lz) Conn.rx
      (fun c => c.BufOk ∧ c.compressSize = compressSize) where
  moves {c c' k k' res} h hok := by
    rw [recvCall, Option.map_eq_some_iff] at h
    obtain ⟨⟨res, c₁, k₁⟩, hcall, heq⟩ := h
    cases heq
    have hspec := yrmcdsRecv_spec hlz hcall hok.1
    obtain ⟨hok, rfl⟩ := hok
    exact ⟨hspec.moves, hspec.ok, hspec.compressSize⟩

/-- The state `yrmcds_connect` leaves, with any compression setting. -/
theorem connected_spec {server : Except Error Int} {malloc : Option Mem}
    {c : Conn} (h : yrmcdsConnect server malloc = .ok c) (threshold : Nat)
    (k : Kernel) :
    (yrmcdsSetCompression c threshold).2.BufOk
      ∧ (yrmcdsSetCompression c threshold).2.rx k = ⟨[], k.stream, false⟩
      ∧ (yrmcdsSetCompression c threshold).2.compressSize = threshold := by
  unfold yrmcdsConnect at h
  split at h
  next => cases h
  next => cases h
  next fd buf =>
    cases h
    refine ⟨⟨Nat.le_refl _, Nat.zero_le _, ?_⟩, rfl, rfl⟩
    show RECV_SIZE ≤ 2 ^ 20
    decide

/-- `yrmcds_recv` reads a stream as the one-shot reference does, however
the kernel cuts it, interrupts calls or fails them: the responses are a
prefix of the reference's, in order; a call that is not interrupted
reports a protocol error exactly in front of a packet that violates the
format; and from then on every call does. -/
theorem recvCalls_parse (hlz : lz.Lawful) {server : Except Error Int}
    {malloc : Option Mem} {c₀ : Conn}
    (hconn : yrmcdsConnect server malloc = .ok c₀) (threshold n : Nat)
    (stream : List UInt8) (script : List Answer) :
    let F := responseFormat lz threshold
    let calls := recvCalls lz n (yrmcdsSetCompression c₀ threshold).2
      ⟨stream, script⟩
    responses calls <+: F.parse stream
    ∧ ∀ pre call post, calls = pre ++ call :: post →
        (call.result = .err .protocolError ↔
          F.cut (F.after (responses pre).length stream) = .bad
            ∧ ¬ call.Interrupted)
        ∧ ((∃ r, call.result = .ok r) ∨ call.result = .err .protocolError
          ∨ call.Interrupted)
        ∧ (call.result = .err .protocolError →
          ∀ later ∈ post, later.result = .err .protocolError) := by
  intro F calls
  obtain ⟨hok, hrx, hcs⟩ := connected_spec hconn threshold ⟨stream, script⟩
  obtain ⟨hread, hcalls⟩ :=
    (recvCall_receives hlz threshold).parse ⟨hok, hcs⟩ hrx n
  rw [runCalls_recvCall] at hread hcalls
  rw [oksOf_finished] at hread
  refine ⟨hread, fun pre call post hsplit => ?_⟩
  obtain ⟨hiff, hcases, hlater⟩ := hcalls (pre.map RecvCall.finished)
    call.finished (post.map RecvCall.finished)
    (by
      rw [show recvCalls lz n _ _ = _ from hsplit, List.map_append,
        List.map_cons])
  rw [oksOf_finished, finished_interrupted] at hiff
  rw [finished_interrupted] at hcases
  unfold RecvCall.finished at hiff hcases hlater
  simp only [toExcept_eq_error] at hiff hcases hlater
  refine ⟨hiff, ?_, fun hbad later hmem => ?_⟩
  · cases hres : call.result with
    | ok r => exact .inl ⟨r, rfl⟩
    | err e =>
        rw [hres] at hcases
        exact .inr (hcases.resolve_left fun ⟨r, hr⟩ => by cases hr)
  · exact toExcept_eq_error.mp (hlater hbad _ (List.mem_map_of_mem hmem))

/-- A noop response in two pieces, with an interrupted and a failed call
in between: the second call returns it. -/
theorem recvCalls_parse_noop :
    let stream : List UInt8 := [0x81, 0x0a, 0, 0, 0, 0, 0, 0, 0, 0, 0, 0,
      7, 0, 0, 0, 0, 0, 0, 0, 0, 0, 0, 0]
    let calls := recvCalls Lz4.literals 3
      (yrmcdsSetCompression (Conn.connected 3 fun _ => 0) 16384).2
      ⟨stream, [.eintr, .bytes 10, .error, .bytes 14, .eof]⟩
    responses calls <+: (responseFormat Lz4.literals 16384).parse stream
    ∧ responses calls = [⟨7, 24, 0, 0x0a, 0, 0, [], [], 0⟩] :=
  ⟨(recvCalls_parse Lz4.literals_lawful
    (show yrmcdsConnect (.ok 3) (some fun _ => 0) = .ok _ from rfl)
    16384 3 _ _).1, by decide +kernel⟩

end Yrmcds
