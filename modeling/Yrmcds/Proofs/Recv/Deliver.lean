/-
A kernel that hands everything over.

The specs of `Queue` are about what a receive buffer does when the kernel
has answered. Here is a way for the kernel to answer: one byte for each
`recv()`, and a block for each allocation. With it the fill loop reaches
its target if the stream goes that far (`RecvBuf.fill_deliver`), and what
is behind these answers is left for later.
-/
import Yrmcds.Proofs.Recv.Queue

namespace Yrmcds

-- =============================================================== answers

theorem Answer.Serves.not_fails {a : Answer} (h : a.Serves) (e : Error) :
    ¬ a.Fails e := by
  cases a <;> first | exact False.elim h | exact fun hf => hf

theorem serving_nil : Serving [] := fun a ha => by cases ha

theorem Serving.append {s t : List Answer} (hs : Serving s)
    (ht : Serving t) : Serving (s ++ t) := by
  intro a ha
  rcases List.mem_append.mp ha with ha | ha
  · exact hs a ha
  · exact ht a ha

theorem serving_singleton {a : Answer} (h : a.Serves) : Serving [a] :=
  List.forall_mem_singleton.mpr h

theorem Kernel.recv_deliver {len : Nat} (h : 0 < len) (b : UInt8)
    (stream : List UInt8) (tail : List Answer) :
    Kernel.recv ⟨b :: stream, .bytes 1 :: tail⟩ len
      = some (.got [b], ⟨stream, tail⟩) := by
  rw [Kernel.recv, recvAgain, if_pos ⟨by decide, h, by simp⟩]
  rfl

-- ============================================================ the buffer

namespace RecvBuf

variable {recvSize : Nat}

theorem grow_deliver (recvSize : Nat) (b : RecvBuf) (stream : List UInt8) :
    ∃ script b', Serving script ∧ ∀ tail,
      b.grow recvSize ⟨stream, script ++ tail⟩
        = some (some b', ⟨stream, tail⟩) := by
  by_cases hfree : b.capacity - b.used < recvSize
  · refine ⟨[.block fun _ => 0], { b with
      mem := fun i => if i < b.capacity then b.mem i else 0
      capacity := b.capacity * 2 }, serving_singleton trivial,
      fun tail => ?_⟩
    rw [grow, if_pos hfree]
    rfl
  · refine ⟨[], b, serving_nil, fun tail => ?_⟩
    rw [grow, if_neg hfree]
    rfl

/-- One round of the fill loop with a byte to come. -/
theorem recvData_deliver (hsize : 0 < recvSize) (b : RecvBuf) (byte : UInt8)
    (stream : List UInt8) :
    ∃ script b', Serving script ∧ ∀ tail,
      b.recvData recvSize ⟨byte :: stream, script ++ tail⟩
        = some (.ok, b', ⟨stream, tail⟩) := by
  obtain ⟨script, b', hserve, hgrow⟩ :=
    grow_deliver recvSize b (byte :: stream)
  have hbyte : Serving [.bytes 1] := serving_singleton trivial
  refine ⟨script ++ [.bytes 1], { b' with
    mem := b'.mem.write b'.used [byte]
    used := b'.used + 1 }, hserve.append hbyte, fun tail => ?_⟩
  have htail : script ++ [.bytes 1] ++ tail = script ++ (.bytes 1 :: tail) := by
    rw [List.append_assoc]
    rfl
  rw [recvData, htail, hgrow]
  dsimp only
  rw [Kernel.recv_deliver hsize]
  rfl

/-- Bytes taken over move from the stream to the buffer. -/
theorem Took.used_add {b b' : RecvBuf} {k k' : Kernel}
    (h : b.Took recvSize k b' k') (hok : b.Ok recvSize) :
    b'.used + k'.stream.length = b.used + k.stream.length := by
  obtain ⟨bs, hs, hp⟩ := h.got
  have hlen := congrArg List.length hp
  rw [List.length_append, pending, pending, Mem.length_slice,
    Mem.length_slice, h.last] at hlen
  have hlast := hok.last_le
  have hlast' := h.ok.last_le
  rw [h.last] at hlast'
  rw [hs, List.length_append]
  omega

theorem fill_full {target fuel : Nat} {b : RecvBuf} {k : Kernel}
    (h : target ≤ b.used) (hfuel : 0 < fuel) :
    b.fill recvSize target fuel k = some (.ok, b, k) := by
  obtain ⟨fuel, rfl⟩ : ∃ f, fuel = f + 1 := ⟨fuel - 1, by omega⟩
  rw [fill, if_neg (by omega)]

/-- The fill loop reaches its target when the stream goes that far. -/
theorem fill_deliver (hsize : 0 < recvSize) (target : Nat) {b : RecvBuf}
    {stream : List UInt8} (hok : b.Ok recvSize)
    (h : target ≤ b.used + stream.length) :
    ∃ script b' stream', Serving script ∧ ∀ tail fuel,
      script.length < fuel →
        b.fill recvSize target fuel ⟨stream, script ++ tail⟩
          = some (.ok, b', ⟨stream', tail⟩) := by
  induction stream generalizing b with
  | nil =>
      exact ⟨[], b, [], serving_nil, fun tail fuel hfuel =>
        fill_full h (by omega)⟩
  | cons byte stream ih =>
      by_cases hfull : target ≤ b.used
      · exact ⟨[], b, byte :: stream, serving_nil, fun tail fuel hfuel =>
          fill_full hfull (by omega)⟩
      · obtain ⟨script, b₁, hserve, hdata⟩ :=
          recvData_deliver hsize b byte stream
        obtain ⟨-, htook, hscript, -⟩ | ⟨hne, -⟩ :=
          recvData_spec (hdata []) hok
        · have hadd := htook.used_add hok
          simp only [List.length_cons, List.append_nil, List.length_nil]
            at h hadd hscript
          obtain ⟨script', b₂, stream', hserve', hfill⟩ :=
            ih htook.ok (by omega)
          refine ⟨script ++ script', b₂, stream', hserve.append hserve',
            fun tail fuel hfuel => ?_⟩
          obtain ⟨fuel, rfl⟩ : ∃ f, fuel = f + 1 := ⟨fuel - 1, by omega⟩
          rw [List.length_append] at hfuel
          rw [fill, if_pos (by omega), List.append_assoc, hdata]
          exact hfill tail fuel (by omega)
        · exact absurd rfl hne

/-- The fill loop with the rounds a script gives it: filled, with the bytes
that were to come in the buffer or still to come. -/
theorem fill_delivers (hsize : 0 < recvSize) (target : Nat) {b : RecvBuf}
    {stream : List UInt8} (hok : b.Ok recvSize)
    (h : target ≤ b.used + stream.length) :
    ∃ script b' stream', Serving script
      ∧ b.Took recvSize ⟨stream, script⟩ b' ⟨stream', []⟩
      ∧ target ≤ b'.used
      ∧ b'.used + stream'.length = b.used + stream.length
      ∧ ∀ tail, b.fill recvSize target ((script ++ tail).length + 1)
          ⟨stream, script ++ tail⟩ = some (.ok, b', ⟨stream', tail⟩) := by
  obtain ⟨script, b', stream', hserve, hfill⟩ := fill_deliver hsize target hok h
  have hnil := hfill [] (script.length + 1) (Nat.lt_succ_self _)
  rw [List.append_nil] at hnil
  obtain ⟨-, htook, hfull⟩ | ⟨hne, -⟩ := fill_spec hnil hok
  · refine ⟨script, b', stream', hserve, htook, hfull, htook.used_add hok,
      fun tail => hfill tail _ ?_⟩
    rw [List.length_append]
    omega
  · exact absurd rfl hne

end RecvBuf

end Yrmcds
