/-
In front of a whole packet a call of `yrmcds_cnt_recv` can finish.

The results of `Refinement` are about calls that return. If the unread
stream starts with a packet the reference accepts, then there is a way for
the kernel to hand it over, one byte at a time, and with it the call
returns (`yrmcdsCntRecv_finishes`). So the function provides the responses
of its stream (`yrmcdsCntRecv_provides`).
-/
import Yrmcds.Proofs.Counter.Refinement
import Yrmcds.Proofs.Recv.Source

namespace Yrmcds

open Endian Query Framing

variable {realloc : StatsRealloc}

/-- With the packet in the buffer a call returns, whatever comes. -/
theorem cntRecvPacket_finishes (realloc : StatsRealloc) (c : CntReceiver)
    (n : Nat) (r : CntResponse) :
    ∃ res c', ∀ k, cntRecvPacket realloc c k n r = some (res, c', k) := by
  unfold cntRecvPacket
  dsimp only
  rcases run c.buf.mem.answer (cntDecodeBody realloc c.stats n r) with
    ⟨_ | r', stats⟩
  · exact ⟨_, _, fun _ => rfl⟩
  · exact ⟨_, _, fun _ => rfl⟩

/-- With the header in the buffer and the body to come, a call can
return. -/
theorem cntRecvBody_finishes (realloc : StatsRealloc) {c : CntReceiver}
    {stream : List UInt8} {n : Nat} (hok : c.Ok) (hlast : c.buf.lastSize = 0)
    (hhave : 12 ≤ c.buf.used)
    (hhead : cntHeaded.bodyLen (c.buf.pending.take 12) = some n)
    (htot : 12 + n ≤ c.buf.used + stream.length) :
    ∃ script res c' stream', Serving script ∧ ∀ tail,
      cntRecvBody realloc c ⟨stream, script ++ tail⟩
        = some (res, c', ⟨stream', tail⟩) := by
  unfold cntRecvBody
  rw [run_cntDecodeHeader hhave, ← RecvBuf.pending_of_last hlast, hhead,
    Option.map_some]
  dsimp only
  by_cases hpos : n > 0
  · obtain ⟨script, buf, stream', hserve, -, -, -, hfill⟩ :=
      RecvBuf.fill_delivers (show 0 < CNT_RECV_SIZE by decide)
        (CNT_HEADER_SIZE + n) hok htot
    obtain ⟨res, c', hpacket⟩ := cntRecvPacket_finishes realloc { c with buf }
      n (cntHead c.buf.pending)
    refine ⟨script, res, c', stream', hserve, fun tail => ?_⟩
    rw [if_pos hpos, hfill]
    exact hpacket _
  · obtain ⟨res, c', hpacket⟩ := cntRecvPacket_finishes realloc c n
      (cntHead c.buf.pending)
    refine ⟨[], res, c', stream, serving_nil, fun tail => ?_⟩
    rw [if_neg hpos]
    exact hpacket _

/-- In front of a packet there is a way for a call to return, with any
answers left for later. -/
theorem yrmcdsCntRecv_finishes (realloc : StatsRealloc) :
    Finishes cntFormat (yrmcdsCntRecv realloc) CntReceiver.rx
      CntReceiver.Ok := by
  intro c stream size r hok hdead hcut
  have hinv : c.invalid = false := hdead
  obtain ⟨hok₀, hlast₀, hpend⟩ := RecvBuf.shiftOut_spec hok
  have hunread : (c.rx ⟨stream, []⟩).unread
      = c.buf.shiftOut.pending ++ stream := by
    rw [CntReceiver.rx_of_valid hinv, hpend]
    rfl
  rw [hunread, cntFormat, Headed.format_cut] at hcut
  obtain ⟨n, rfl, htot, hhead, -⟩ := Headed.of_cut_frame hcut
  have hlen₀ : c.buf.shiftOut.pending.length = c.buf.shiftOut.used := by
    rw [RecvBuf.pending_of_last hlast₀, Mem.length_slice]
  rw [show cntHeaded.head = 12 from rfl, List.length_append, hlen₀] at htot
  have hgoal : CNT_HEADER_SIZE ≤ c.buf.shiftOut.used + stream.length := by
    show 12 ≤ _
    omega
  obtain ⟨script, buf, stream₁, hserve, htook, hfull, hadd, hfill⟩ :=
    RecvBuf.fill_delivers (show 0 < CNT_RECV_SIZE by decide) CNT_HEADER_SIZE
      hok₀ hgoal
  have hlast₁ := htook.last.trans hlast₀
  have hhave : 12 ≤ buf.used := hfull
  -- the header is the one of the whole stream
  obtain ⟨bs, hs, hp⟩ := htook.got
  have hs : stream = bs ++ stream₁ := hs
  have hlong : 12 ≤ buf.pending.length := by
    rw [RecvBuf.pending_of_last hlast₁, Mem.length_slice]
    exact hhave
  have hhead₁ : cntHeaded.bodyLen (buf.pending.take 12) = some n := by
    rw [hs, ← List.append_assoc, ← hp, show cntHeaded.head = 12 from rfl,
      List.take_append_of_le_length hlong] at hhead
    exact hhead
  obtain ⟨script', res, c', stream', hserve', hbody⟩ :=
    cntRecvBody_finishes realloc (c := { c with buf }) htook.ok hlast₁ hhave
      hhead₁ (show _ ≤ buf.used + stream₁.length by omega)
  refine ⟨script ++ script', res, c', stream', hserve.append hserve',
    fun tail => ?_⟩
  rw [yrmcdsCntRecv, if_neg (by rw [hinv]; decide), List.append_assoc, hfill]
  exact hbody tail

/-- `yrmcds_cnt_recv` provides the responses of its stream. -/
theorem yrmcdsCntRecv_provides (hmem : ∀ n, (realloc n).isSome) :
    Source.Provides (fun x => yrmcdsCntRecv realloc x.1 x.2)
      (fun (x : CntReceiver × List UInt8) script => (x.1, ⟨x.2, script⟩))
      Answer.Serves
      (fun x => x.1.Ok ∧ (x.1.rx ⟨x.2, []⟩).dead = false)
      (fun x => cntFormat.parse (x.1.rx ⟨x.2, []⟩).unread) :=
  (yrmcdsCntRecv_moves hmem).provides (yrmcdsCntRecv_finishes realloc)
    fun _ _ _ => rfl

end Yrmcds
