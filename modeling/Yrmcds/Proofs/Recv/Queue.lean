/-
The receive buffer as a queue of bytes.

Whatever `recv_data` and the loops around it do to the buffer, in terms of
the bytes it holds they only append a further piece of the stream:
`RecvBuf.Took` is that relation, and `RecvBuf.fill_spec` the one spec the
callers use. Shifting out the previous packet drops it from the front
(`RecvBuf.shiftOut_spec`). The buffer invariant `RecvBuf.Ok` is what makes
both true: a `realloc` keeps the bytes below the old capacity, so the bytes
in use must lie there.
-/
import Yrmcds.Model.RecvBuf

namespace Yrmcds

-- ===================================================== memory, by slices

@[simp] theorem Mem.length_slice (m : Mem) (off len : Nat) :
    (m.slice off len).length = len := by
  simp [Mem.slice]

theorem Mem.getElem_slice (m : Mem) (off len i : Nat)
    (h : i < (m.slice off len).length) : (m.slice off len)[i] = m (off + i) := by
  simp [Mem.slice]

/-- Memories that agree on a range have the same slice there. -/
theorem Mem.slice_congr {m m' : Mem} {off off' len : Nat}
    (h : ∀ i < len, m (off + i) = m' (off' + i)) :
    m.slice off len = m'.slice off' len := by
  apply List.map_congr_left
  intro i hi
  exact h i (List.mem_range.mp hi)

/-- A slice is cut in two at any point. -/
theorem Mem.slice_add (m : Mem) (off a b : Nat) :
    m.slice off (a + b) = m.slice off a ++ m.slice (off + a) b := by
  unfold Mem.slice
  rw [List.range_add, List.map_append, List.map_map]
  congr 1
  apply List.map_congr_left
  intro i _
  rw [Function.comp_apply, Nat.add_assoc]

theorem Mem.drop_slice (m : Mem) (off len n : Nat) (h : n ≤ len) :
    (m.slice off len).drop n = m.slice (off + n) (len - n) := by
  have hsplit := m.slice_add off n (len - n)
  rw [show n + (len - n) = len by omega] at hsplit
  have hlen : (m.slice off n).length = n := m.length_slice off n
  rw [hsplit, List.drop_append_of_le_length (by omega),
    List.drop_eq_nil_of_le (by omega), List.nil_append]

theorem Mem.take_slice (m : Mem) (off len n : Nat) (h : n ≤ len) :
    (m.slice off len).take n = m.slice off n := by
  have hsplit := m.slice_add off n (len - n)
  rw [show n + (len - n) = len by omega] at hsplit
  rw [hsplit, List.take_append_of_le_length (by simp),
    List.take_of_length_le (by simp)]

/-- Bytes written are there. -/
theorem Mem.slice_write_self (m : Mem) (off : Nat) (bs : List UInt8) :
    (m.write off bs).slice off bs.length = bs := by
  apply List.ext_getElem (by simp)
  intro i hi hi'
  rw [Mem.getElem_slice, Mem.write, if_pos (by omega),
    Nat.add_sub_cancel_left]
  simp [List.getD, hi']

-- ======================================================== the invariant

/-- The answer that makes a call fail with `e`. -/
def Answer.Fails : Answer → Error → Prop
  | .error, .systemError => True
  | .eof, .disconnected => True
  | .null, .outOfMemory => True
  | _, _ => False

namespace RecvBuf

variable {recvSize : Nat}

/-- The buffer invariant: the last packet lies in the bytes in use,
these in the buffer, and the buffer is at least one `recv()` large. -/
structure Ok (recvSize : Nat) (b : RecvBuf) : Prop where
  last_le : b.lastSize ≤ b.used
  used_le : b.used ≤ b.capacity
  recv_le : recvSize ≤ b.capacity

/-- The bytes received and not yet returned. -/
def pending (b : RecvBuf) : List UInt8 :=
  b.mem.slice b.lastSize (b.used - b.lastSize)

/-- `b` became `b'` and `k` became `k'` by taking over a further piece of
the stream, and by nothing else. -/
structure Took (recvSize : Nat) (b : RecvBuf) (k : Kernel) (b' : RecvBuf)
    (k' : Kernel) : Prop where
  ok : b'.Ok recvSize
  last : b'.lastSize = b.lastSize
  got : ∃ bs, k.stream = bs ++ k'.stream ∧ b'.pending = b.pending ++ bs
  script : ∃ used, k.script = used ++ k'.script

theorem Took.refl {b : RecvBuf} (k : Kernel) (h : b.Ok recvSize) :
    Took recvSize b k b k :=
  ⟨h, rfl, ⟨[], rfl, (List.append_nil _).symm⟩, ⟨[], rfl⟩⟩

theorem Took.trans {b₁ b₂ b₃ : RecvBuf} {k₁ k₂ k₃ : Kernel}
    (h : Took recvSize b₁ k₁ b₂ k₂) (h' : Took recvSize b₂ k₂ b₃ k₃) :
    Took recvSize b₁ k₁ b₃ k₃ := by
  obtain ⟨bs, hs, hp⟩ := h.got
  obtain ⟨bs', hs', hp'⟩ := h'.got
  obtain ⟨used, hu⟩ := h.script
  obtain ⟨used', hu'⟩ := h'.script
  refine ⟨h'.ok, h'.last.trans h.last, ⟨bs ++ bs', ?_, ?_⟩,
    ⟨used ++ used', ?_⟩⟩
  · rw [hs, hs', List.append_assoc]
  · rw [hp', hp, List.append_assoc]
  · rw [hu, hu', List.append_assoc]

/-- `b` became `b'` as in `Took`, and the last answer used made the call
fail with `e`. -/
structure FailedBy (recvSize : Nat) (b : RecvBuf) (k : Kernel) (e : Error)
    (b' : RecvBuf) (k' : Kernel) : Prop where
  took : Took recvSize b k b' k'
  answer : ∃ used a, k.script = used ++ a :: k'.script ∧ a.Fails e

theorem FailedBy.of_took {b₁ b₂ b₃ : RecvBuf} {k₁ k₂ k₃ : Kernel} {e : Error}
    (h : Took recvSize b₁ k₁ b₂ k₂) (h' : FailedBy recvSize b₂ k₂ e b₃ k₃) :
    FailedBy recvSize b₁ k₁ e b₃ k₃ := by
  obtain ⟨used, hu⟩ := h.script
  obtain ⟨used', a, hu', ha⟩ := h'.answer
  exact ⟨h.trans h'.took,
    ⟨used ++ used', a, by rw [hu, hu', List.append_assoc], ha⟩⟩

/-- A failure that took nothing over. -/
theorem FailedBy.of_answer {b : RecvBuf} {k k' : Kernel} {e : Error}
    {used : List Answer} {a : Answer} (hok : b.Ok recvSize)
    (hstream : k'.stream = k.stream) (hscript : k.script = used ++ a :: k'.script)
    (ha : a.Fails e) : FailedBy recvSize b k e b k' :=
  ⟨⟨hok, rfl, ⟨[], hstream.symm, (List.append_nil _).symm⟩,
    ⟨used ++ [a], by rw [hscript, List.append_assoc]; rfl⟩⟩, used, a, hscript, ha⟩

-- ========================================================== growing

/-- Growing keeps the bytes in use and leaves `recvSize` free. -/
theorem grow_spec {b : RecvBuf} {k k' : Kernel} {g : Option RecvBuf}
    (h : b.grow recvSize k = some (g, k')) (hok : b.Ok recvSize) :
    match g with
    | some b' => Took recvSize b k b' k' ∧ recvSize ≤ b'.capacity - b'.used
        ∧ b'.used = b.used
    | none => FailedBy recvSize b k .outOfMemory b k' := by
  unfold grow at h
  split at h
  next hfree =>
    split at h
    next => cases h
    next k₁ halloc =>
      simp only [Option.some.injEq, Prod.mk.injEq] at h
      obtain ⟨rfl, rfl⟩ := h
      obtain ⟨hstream, a, hscript, hnull⟩ := Kernel.alloc_spec halloc
      refine FailedBy.of_answer hok hstream (show k.script = [] ++ _ from hscript)
        ?_
      rw [hnull rfl]
      trivial
    next junk k₁ halloc =>
      simp only [Option.some.injEq, Prod.mk.injEq] at h
      obtain ⟨rfl, rfl⟩ := h
      obtain ⟨hstream, a, hscript, -⟩ := Kernel.alloc_spec halloc
      have hlast := hok.last_le
      have hused := hok.used_le
      have hrecv := hok.recv_le
      refine ⟨⟨⟨hlast, ?_, ?_⟩, rfl, ⟨[], hstream.symm, ?_⟩, ⟨[a], hscript⟩⟩,
        ?_, rfl⟩
      · show b.used ≤ b.capacity * 2
        omega
      · show recvSize ≤ b.capacity * 2
        omega
      · rw [List.append_nil]
        apply Mem.slice_congr
        intro i hi
        have hi' : i < b.used - b.lastSize := hi
        exact if_pos (show b.lastSize + i < b.capacity by omega)
      · show recvSize ≤ b.capacity * 2 - b.used
        omega
  next hfree =>
    simp only [Option.some.injEq, Prod.mk.injEq] at h
    obtain ⟨rfl, rfl⟩ := h
    exact ⟨Took.refl k hok, by omega, rfl⟩

-- ========================================================= recv_data

/-- Bytes received behind the bytes in use are appended. -/
theorem took_write {b : RecvBuf} {k k' : Kernel} {bs used : List _}
    (hok : b.Ok recvSize) (hfree : bs.length ≤ b.capacity - b.used)
    (hstream : k.stream = bs ++ k'.stream)
    (hscript : k.script = used ++ k'.script) :
    Took recvSize b k { b with
      mem := b.mem.write b.used bs
      used := b.used + bs.length } k' := by
  have hlast := hok.last_le
  have hused := hok.used_le
  refine ⟨⟨?_, ?_, hok.recv_le⟩, rfl, ⟨bs, hstream, ?_⟩, ⟨used, hscript⟩⟩
  · show b.lastSize ≤ b.used + bs.length
    omega
  · show b.used + bs.length ≤ b.capacity
    omega
  · show (b.mem.write b.used bs).slice b.lastSize
        (b.used + bs.length - b.lastSize) = b.pending ++ bs
    rw [show b.used + bs.length - b.lastSize
        = (b.used - b.lastSize) + bs.length by omega, Mem.slice_add,
      show b.lastSize + (b.used - b.lastSize) = b.used by omega,
      Mem.slice_write_self]
    congr 1
    apply Mem.slice_congr
    intro i hi
    unfold Mem.write
    rw [if_neg (by omega)]

/-- `recv_data` takes over a further piece of the stream, or fails for
the reason the kernel gave. -/
theorem recvData_spec {b b' : RecvBuf} {k k' : Kernel} {e : Error}
    (h : b.recvData recvSize k = some (e, b', k')) (hok : b.Ok recvSize) :
    (e = .ok ∧ Took recvSize b k b' k' ∧ k'.script.length < k.script.length
      ∧ b.used < b'.used)
    ∨ (e ≠ .ok ∧ FailedBy recvSize b k e b' k') := by
  unfold recvData at h
  split at h
  next => cases h
  next k₁ hgrow =>
    simp only [Option.some.injEq, Prod.mk.injEq] at h
    obtain ⟨rfl, rfl, rfl⟩ := h
    exact Or.inr ⟨by decide, grow_spec hgrow hok⟩
  next b₁ k₁ hgrow =>
    obtain ⟨htook, hfree, hused₁⟩ := grow_spec hgrow hok
    obtain ⟨pre, hpre⟩ := htook.script
    split at h
    next => cases h
    next k₂ hrecv =>
      simp only [Option.some.injEq, Prod.mk.injEq] at h
      obtain ⟨rfl, rfl, rfl⟩ := h
      obtain ⟨used, a, hs, hst, rfl⟩ := Kernel.recv_spec hrecv
      exact Or.inr ⟨by decide, FailedBy.of_took htook
        (FailedBy.of_answer htook.ok hst hs trivial)⟩
    next k₂ hrecv =>
      simp only [Option.some.injEq, Prod.mk.injEq] at h
      obtain ⟨rfl, rfl, rfl⟩ := h
      obtain ⟨used, a, hs, hst, rfl⟩ := Kernel.recv_spec hrecv
      exact Or.inr ⟨by decide, FailedBy.of_took htook
        (FailedBy.of_answer htook.ok hst hs trivial)⟩
    next bs k₂ hrecv =>
      simp only [Option.some.injEq, Prod.mk.injEq] at h
      obtain ⟨rfl, rfl, rfl⟩ := h
      obtain ⟨used, a, hs, hst, hpos, hlen⟩ := Kernel.recv_spec hrecv
      have hscript : k₁.script = (used ++ [a]) ++ k₂.script := by
        rw [hs, List.append_assoc]
        rfl
      refine Or.inl ⟨rfl, htook.trans
        (took_write htook.ok (by omega) hst hscript), ?_, ?_⟩
      · rw [hpre, hscript]
        simp only [List.length_append, List.length_cons, List.length_nil]
        omega
      · show b.used < b₁.used + bs.length
        omega

-- ===================================================== the fill loops

/-- The fill loop takes over a further piece of the stream until the
target is in the buffer, or fails for the reason the kernel gave. -/
theorem fill_spec {target fuel : Nat} {b b' : RecvBuf} {k k' : Kernel}
    {e : Error} (h : b.fill recvSize target fuel k = some (e, b', k'))
    (hok : b.Ok recvSize) :
    (e = .ok ∧ Took recvSize b k b' k' ∧ target ≤ b'.used)
    ∨ (e ≠ .ok ∧ FailedBy recvSize b k e b' k') := by
  induction fuel generalizing b k with
  | zero => cases h
  | succ fuel ih =>
      rw [fill] at h
      split at h
      next hlt =>
        split at h
        next b₁ k₁ hdata =>
          obtain ⟨-, htook, -⟩ | ⟨hne, -⟩ := recvData_spec hdata hok
          · obtain ⟨he, htook', hfull⟩ | ⟨hne, hfail⟩ := ih h htook.ok
            · exact Or.inl ⟨he, htook.trans htook', hfull⟩
            · exact Or.inr ⟨hne, FailedBy.of_took htook hfail⟩
          · exact absurd rfl hne
        next hnot =>
          obtain ⟨he, -⟩ | ⟨hne, hfail⟩ := recvData_spec h hok
          · exact absurd (he ▸ h) (hnot _ _)
          · exact Or.inr ⟨hne, hfail⟩
      next hge =>
        simp only [Option.some.injEq, Prod.mk.injEq] at h
        obtain ⟨rfl, rfl, rfl⟩ := h
        exact Or.inl ⟨rfl, Took.refl k hok, by omega⟩

/-- The length of the script bounds the rounds of the loop: more fuel
changes nothing, so a loop without a result is one that is blocked. -/
theorem fill_fuel {target fuel fuel' : Nat} {b : RecvBuf} {k : Kernel}
    (hok : b.Ok recvSize) (h : k.script.length < fuel)
    (h' : k.script.length < fuel') :
    b.fill recvSize target fuel k = b.fill recvSize target fuel' k := by
  induction fuel generalizing fuel' b k with
  | zero => omega
  | succ fuel ih =>
      cases fuel' with
      | zero => omega
      | succ fuel' =>
          rw [fill, fill]
          split
          next hlt =>
            split
            next b₁ k₁ hdata =>
              obtain ⟨-, htook, hlen, -⟩ | ⟨hne, -⟩ := recvData_spec hdata hok
              · exact ih htook.ok (by omega) (by omega)
              · exact absurd rfl hne
            next => rfl
          next => rfl

-- ======================================================== shifting out

/-- Shifting out keeps the invariant and the pending bytes, which now
start the buffer. -/
theorem shiftOut_spec {b : RecvBuf} (hok : b.Ok recvSize) :
    b.shiftOut.Ok recvSize ∧ b.shiftOut.lastSize = 0
      ∧ b.shiftOut.pending = b.pending := by
  have hlast := hok.last_le
  have hused := hok.used_le
  unfold shiftOut
  split
  next hpos =>
    refine ⟨⟨Nat.zero_le _, ?_, hok.recv_le⟩, rfl, ?_⟩
    · show b.used - b.lastSize ≤ b.capacity
      omega
    · apply Mem.slice_congr
      intro i hi
      have hi' : i < b.used - b.lastSize := hi
      show (if 0 + i < b.used - b.lastSize then b.mem (b.lastSize + (0 + i))
        else b.mem (0 + i)) = b.mem (b.lastSize + i)
      rw [Nat.zero_add, if_pos hi']
  next hzero => exact ⟨hok, by omega, rfl⟩

/-- Right after the shift the pending bytes start the buffer. -/
theorem pending_of_last {b : RecvBuf} (hlast : b.lastSize = 0) :
    b.pending = b.mem.slice 0 b.used := by
  rw [pending, hlast, Nat.sub_zero]

end RecvBuf

end Yrmcds
