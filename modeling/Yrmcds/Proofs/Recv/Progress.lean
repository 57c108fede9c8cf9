/-
In front of a whole packet a call can finish.

The results of `Refinement` are about calls that return. Here is the
other half: if the unread stream starts with a packet, or with a
violation of the format, then there is a way for the kernel to hand over
the bytes and for the allocator to succeed, and with it the call returns
a verdict (`yrmcdsRecv_finishes`). The script that does it hands over one
byte at a time and lets every allocation succeed; what comes behind it is
left for later calls. So the function provides the responses of its stream
(`recvCall_provides`).
-/
import Yrmcds.Proofs.Recv.Refinement
import Yrmcds.Proofs.Recv.Source

namespace Yrmcds

open Endian Query Framing

variable {lz : Lz4}

-- ============================================================ delivering

/-- The fill loop reaches its target when the stream goes that far. -/
theorem recvFill_delivers (target : Nat) {c : Conn} {stream : List UInt8}
    (hok : c.BufOk) (h : target ≤ c.used + stream.length) :
    ∃ script c' stream', Serving script
      ∧ Took c ⟨stream, script⟩ c' ⟨stream', []⟩ ∧ target ≤ c'.used
      ∧ c'.used + stream'.length = c.used + stream.length
      ∧ ∀ tail, recvFill target ((script ++ tail).length + 1) c
          ⟨stream, script ++ tail⟩ = some (.ok, c', ⟨stream', tail⟩) := by
  obtain ⟨script, b', stream', hserve, htook, hfull, hadd, hfill⟩ :=
    RecvBuf.fill_delivers (by decide) target (bufOk_iff.mp hok) h
  refine ⟨script, c.withBuf b', stream', hserve, .of_buf htook, hfull, hadd,
    fun tail => ?_⟩
  rw [recvFill_eq, hfill]
  rfl

-- ============================================================== finishing

/-- With the packet in the buffer and memory to be had, decoding returns
a verdict. -/
theorem recvPacket_finishes (lz : Lz4) (c : Conn) (stream : List UInt8)
    (totalLen : Nat) :
    ∃ script res c', Serving script ∧ res.abs ≠ .failed ∧ ∀ tail,
      recvPacket lz c ⟨stream, script ++ tail⟩ totalLen
        = some (res, c', ⟨stream, tail⟩) := by
  unfold recvPacket
  split
  next =>
    exact ⟨[], _, _, serving_nil, fun h => (by cases h), fun _ => rfl⟩
  next r =>
    exact ⟨[], _, _, serving_nil, fun h => (by cases h), fun _ => rfl⟩
  next r off inputSize size =>
    have hserve : Serving [.block fun _ => 0] := serving_singleton trivial
    unfold inflate Kernel.alloc
    dsimp only [List.singleton_append]
    split
    next => exact ⟨_, _, _, hserve, fun h => (by cases h), fun _ => rfl⟩
    next data =>
      split
      next => exact ⟨_, _, _, hserve, fun h => (by cases h), fun _ => rfl⟩
      next => exact ⟨_, _, _, hserve, fun h => (by cases h), fun _ => rfl⟩

/-- A verdict of the reference needs the bytes it is about. -/
theorem refCut_length {compressSize : Nat} {s : List UInt8}
    (h : refCut lz compressSize s ≠ .more) :
    24 ≤ s.length
      ∧ ∀ n, refHeader s = some n → 24 + n ≤ s.length := by
  rw [refCut] at h
  by_cases hlen : s.length < 24
  · rw [if_pos hlen] at h
    exact absurd rfl h
  · rw [if_neg hlen] at h
    refine ⟨by omega, fun n hn => ?_⟩
    rw [hn] at h
    by_cases htot : s.length < 24 + n
    · dsimp only at h
      rw [if_pos htot] at h
      exact absurd rfl h
    · omega

/-- With the header in the buffer and the body to come, a call can return
a verdict. -/
theorem recvBody_finishes {c : Conn} {stream : List UInt8} (hok : c.BufOk)
    (hlast : c.lastSize = 0) (hhave : 24 ≤ c.used)
    (htot : ∀ n, refHeader c.pending = some n →
      24 + n ≤ c.used + stream.length) :
    ∃ script res c' stream', Serving script ∧ res.abs ≠ .failed ∧ ∀ tail,
      recvBody lz c ⟨stream, script ++ tail⟩
        = some (res, c', ⟨stream', tail⟩) := by
  unfold recvBody
  rw [run_decodeHeader hhave, ← pending_of_last hlast]
  cases hhead : refHeader c.pending with
  | none =>
      exact ⟨[], _, _, _, serving_nil, fun h => (by cases h), fun _ => rfl⟩
  | some n =>
      obtain ⟨script, c₁, stream₁, hserve, -, -, -, hfill⟩ :=
        recvFill_delivers (BINARY_HEADER_SIZE + n) hok (htot n hhead)
      obtain ⟨script', res, c', hserve', hres, hpacket⟩ :=
        recvPacket_finishes lz c₁ stream₁ n
      refine ⟨script ++ script', res, c', stream₁, hserve.append hserve',
        hres, fun tail => ?_⟩
      dsimp only
      rw [List.append_assoc, hfill]
      exact hpacket tail

/-- In front of a packet or a violation there is a way for a call to
return a verdict, with any answers left for later. -/
theorem yrmcdsRecv_finishes {c : Conn} {stream : List UInt8}
    (hok : c.BufOk) (hinv : c.invalid = false)
    (hcut : refCut lz c.compressSize (c.pending ++ stream) ≠ .more) :
    ∃ script res c' stream', Serving script ∧ res.abs ≠ .failed ∧ ∀ tail,
      yrmcdsRecv lz c ⟨stream, script ++ tail⟩
        = some (res, c', ⟨stream', tail⟩) := by
  obtain ⟨h24, htot⟩ := refCut_length hcut
  obtain ⟨hok₀, hlast₀, hpend, -, -⟩ := shiftOut_spec hok
  rw [← hpend] at h24 htot
  have hlen₀ : c.shiftOut.pending.length = c.shiftOut.used := by
    rw [pending_of_last hlast₀, Mem.length_slice]
  rw [List.length_append] at h24 htot
  have hgoal : BINARY_HEADER_SIZE ≤ c.shiftOut.used + stream.length := by
    show 24 ≤ _
    omega
  obtain ⟨script, c₁, stream₁, hserve, htook, hfull, hadd, hfill⟩ :=
    recvFill_delivers _ hok₀ hgoal
  have hlast₁ := htook.last.trans hlast₀
  obtain ⟨bs, hs, hp⟩ := htook.got
  have hs : stream = bs ++ stream₁ := hs
  have hbody₁ : ∀ n, refHeader c₁.pending = some n →
      24 + n ≤ c₁.used + stream₁.length := by
    intro n hn
    have hlen₁ : 24 ≤ c₁.pending.length := by
      rw [pending_of_last hlast₁, Mem.length_slice]
      exact hfull
    have hn' := htot n (by
      rw [hs, ← List.append_assoc, ← hp, refHeader_append _ hlen₁]
      exact hn)
    omega
  obtain ⟨script', res, c', stream', hserve', hres, hbody⟩ :=
    recvBody_finishes htook.ok hlast₁ hfull hbody₁
  refine ⟨script ++ script', res, c', stream', hserve.append hserve', hres,
    fun tail => ?_⟩
  rw [yrmcdsRecv, hinv, if_neg (by decide), List.append_assoc, hfill]
  exact hbody tail

theorem recvCall_finishes (lz : Lz4) (compressSize : Nat) :
    Finishes (responseFormat lz compressSize) (recvCall lz) Conn.rx
      (fun c => c.BufOk ∧ c.compressSize = compressSize) := by
  intro c stream n r hok hdead hcut
  obtain ⟨hok, rfl⟩ := hok
  have hcut : refCut lz c.compressSize (c.pending ++ stream) = .frame n r := hcut
  obtain ⟨script, res, c', stream', hserve, -, hcall⟩ :=
    yrmcdsRecv_finishes hok hdead (by rw [hcut]; intro h; cases h)
  refine ⟨script, res.toExcept, c', stream', hserve, fun tail => ?_⟩
  rw [recvCall, hcall]
  rfl

/-- `yrmcds_recv` provides the responses of its stream. -/
theorem recvCall_provides (hlz : lz.Lawful) (compressSize : Nat) :
    Source.Provides (fun x => recvCall lz x.1 x.2)
      (fun (x : Conn × List UInt8) script => (x.1, ⟨x.2, script⟩))
      Answer.Serves
      (fun x => (x.1.BufOk ∧ x.1.compressSize = compressSize)
        ∧ (x.1.rx ⟨x.2, []⟩).dead = false)
      (fun x => (responseFormat lz compressSize).parse
        (x.1.rx ⟨x.2, []⟩).unread) :=
  (recvCall_receives hlz compressSize).provides
    (recvCall_finishes lz compressSize) fun _ _ _ => rfl

-- ============================================================= verdicts

theorem rx_sound {c : Conn} (k : Kernel) (hinv : c.invalid = false) :
    (c.rx k).Sound (responseFormat lz c.compressSize) := by
  intro hd
  have hd : c.invalid = true := hd
  rw [hinv] at hd
  cases hd

/-- A finished call in front of a packet returns its response, unless the
kernel or the allocator failed it. -/
theorem yrmcdsRecv_frame (hlz : lz.Lawful) {c c' : Conn} {k k' : Kernel}
    {res : RecvResult} {n : Nat} {r : Response} (hok : c.BufOk)
    (hinv : c.invalid = false)
    (hcut : refCut lz c.compressSize (c.pending ++ k.stream) = .frame n r)
    (h : yrmcdsRecv lz c k = some (res, c', k')) :
    c'.invalid = false ∧ (res = .ok r
      ∨ ∃ e used a, res = .err e ∧ k.script = used ++ a :: k'.script
        ∧ a.Fails e) := by
  have hspec := yrmcdsRecv_spec hlz h hok
  have hunread := (hspec.call.unread (rx_sound k hinv)).2
  cases res with
  | ok r' =>
      obtain ⟨hdead, n', hcut', -⟩ := hunread
      injection hcut'.symm.trans hcut with _ hr
      exact ⟨hdead, Or.inl (by rw [hr])⟩
  | err e =>
      by_cases he : e = .protocolError
      · subst he
        cases hunread.1.symm.trans hcut
      · have habs : (RecvResult.err e).abs = .failed := by
          cases e <;> first | rfl | exact absurd rfl he
        rw [habs] at hunread
        obtain ⟨used, a, hs, ha⟩ := hspec.failure e rfl he
        exact ⟨hunread.1, Or.inr ⟨e, used, a, rfl, hs, ha⟩⟩

/-- A call that returns a verdict in front of a violation poisons the
connection. -/
theorem yrmcdsRecv_bad (hlz : lz.Lawful) {c c' : Conn} {k k' : Kernel}
    {res : RecvResult} (hok : c.BufOk) (hinv : c.invalid = false)
    (hcut : refCut lz c.compressSize (c.pending ++ k.stream) = .bad)
    (h : yrmcdsRecv lz c k = some (res, c', k'))
    (hres : res.abs ≠ .failed) : c'.invalid = true := by
  have hspec := yrmcdsRecv_spec hlz h hok
  have hunread := (hspec.call.unread (rx_sound k hinv)).2
  cases habs : res.abs with
  | ok r =>
      rw [habs] at hunread
      obtain ⟨-, n, hcut', -⟩ := hunread
      cases hcut'.symm.trans hcut
  | bad =>
      rw [habs] at hunread
      exact hunread.2.1
  | failed => exact absurd habs hres

end Yrmcds
