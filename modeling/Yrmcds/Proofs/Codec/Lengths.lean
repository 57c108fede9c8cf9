/-
The two length loops of the decoder against the length code.

Forwards, a loop reads back what `extra` writes (`literalLength_eq`,
`matchLength_eq`). Backwards, the bytes it consumed are what `extra`
writes for the length it returns (`literalLength_spec`,
`matchLength_spec`), with one exception: the loop for literals also stops
near the end of the input, after a byte 255, and then the length it
returns reaches behind the input.
-/
import Yrmcds.Lib.Lengths
import Yrmcds.Model.Codec.Decompress
import Yrmcds.Proofs.Codec.Memory

namespace Yrmcds

open Checked Region Lengths

variable {source : Region} {iend : Int} {ip length : Nat} {E : Int → Prop}

/-- A slice, its first byte in front. -/
theorem Mem.slice_cons (m : Mem) (off n : Nat) :
    m.slice off (n + 1) = m off :: m.slice (off + 1) n := by
  rw [Nat.add_comm, m.slice_add off 1 n]
  rfl

@[simp] theorem Mem.slice_zero (m : Mem) (off : Nat) : m.slice off 0 = [] := rfl

/-- The bytes of a shorter length code are those in front. -/
theorem Mem.slice_head {m : Mem} {off n : Nat} {b : UInt8} {bs : List UInt8}
    (h : m.slice off n = b :: bs) :
    m off = b ∧ m.slice (off + 1) bs.length = bs := by
  have hn : n = bs.length + 1 := by
    have := congrArg List.length h
    simpa using this
  rw [hn, Mem.slice_cons] at h
  injection h with hb hbs
  exact ⟨hb, hbs⟩

/-- An error exit returns a negative value. -/
theorem ends_outputError {α : Type} {P : α → Prop} (ip : Nat) :
    Ends P (· < 0) (outputError ip) := by
  apply Ends.error
  omega

theorem toNat_lt_255 {s : UInt8} (h : s ≠ 255) : s.toNat < 255 := by
  have hne : s.toNat ≠ 255 := by
    intro heq
    exact h (UInt8.toNat_inj.mp heq)
  have := s.toNat_lt
  omega

-- ============================================================= forwards

/-- The literal loop reads a length, if the literals are there as well. -/
theorem literalRun_eq {k : Nat}
    (hbytes : source.bytes.slice ip (excess k).length = excess k)
    (hroom : (ip + (excess k).length + length + k : Int) ≤ iend)
    (hlen : 15 ≤ length) (hsize : iend ≤ source.size) :
    literalRun source iend ip length
      = .ok (ip + (excess k).length, length + k) := by
  have hrun : RUN_MASK = 15 := rfl
  induction k using Nat.strongRecOn generalizing ip length with
  | ind k ih =>
      by_cases hk : k < 255
      · rw [excess_of_lt hk] at hbytes hroom ⊢
        obtain ⟨hb, -⟩ := Mem.slice_head hbytes
        have hval : (UInt8.ofNat k).toNat = k := by
          rw [UInt8.toNat_ofNat', Nat.mod_eq_of_lt (by omega)]
        have hne : UInt8.ofNat k ≠ 255 := by
          intro h
          have := congrArg UInt8.toNat h
          rw [hval] at this
          change k = 255 at this
          omega
        simp only [List.length_singleton] at hroom
        rw [literalRun, byte_ok (by omega), ok_bind, hb,
          if_neg (fun h => hne h.2), hval]
        rfl
      · have hge : 255 ≤ k := by omega
        rw [excess_of_ge hge] at hbytes hroom ⊢
        obtain ⟨hb, hrest⟩ := Mem.slice_head hbytes
        simp only [List.length_cons, Nat.cast_add, Nat.cast_one] at hroom
        rw [literalRun, byte_ok (by omega), ok_bind, hb,
          if_pos ⟨by omega, rfl⟩,
          ih (k - 255) (by omega) hrest
            (by push_cast; have : (255 : UInt8).toNat = 255 := rfl; omega)
            (by omega)]
        have h255 : (255 : UInt8).toNat = 255 := rfl
        rw [h255, List.length_cons]
        simp only [Except.ok.injEq, Prod.mk.injEq]
        omega

/-- The loop of the match length reads a length that stands far enough
from the end. -/
theorem matchRun_eq {k : Nat}
    (hbytes : source.bytes.slice ip (excess k).length = excess k)
    (hroom : (ip + (excess k).length + 4 : Int) ≤ iend)
    (hsize : iend ≤ source.size) :
    matchRun source iend ip length
      = .ok (ip + (excess k).length, length + k) := by
  have hlast : LASTLITERALS = 5 := rfl
  induction k using Nat.strongRecOn generalizing ip length with
  | ind k ih =>
      have hpos : 1 ≤ (excess k).length := by
        rw [length_excess]
        omega
      rw [matchRun, if_neg (by omega), byte_ok (by omega), ok_bind]
      by_cases hk : k < 255
      · rw [excess_of_lt hk] at hbytes hroom ⊢
        obtain ⟨hb, -⟩ := Mem.slice_head hbytes
        have hval : (UInt8.ofNat k).toNat = k := by
          rw [UInt8.toNat_ofNat', Nat.mod_eq_of_lt (by omega)]
        have hne : UInt8.ofNat k ≠ 255 := by
          intro h
          have := congrArg UInt8.toNat h
          rw [hval] at this
          change k = 255 at this
          omega
        rw [hb, if_neg hne, hval]
        rfl
      · have hge : 255 ≤ k := by omega
        rw [excess_of_ge hge] at hbytes hroom ⊢
        obtain ⟨hb, hrest⟩ := Mem.slice_head hbytes
        simp only [List.length_cons, Nat.cast_add, Nat.cast_one] at hroom
        rw [hb, if_pos rfl, ih (k - 255) (by omega) hrest (by push_cast; omega)]
        have h255 : (255 : UInt8).toNat = 255 := rfl
        rw [h255, List.length_cons]
        simp only [Except.ok.injEq, Prod.mk.injEq]
        omega

/-- The length of literals, read back. -/
theorem literalLength_eq {n : Nat} {token : UInt8}
    (htoken : token.toNat / 16 = nibble n)
    (hbytes : source.bytes.slice ip (extra n).length = extra n)
    (hroom : (ip + (extra n).length + n : Int) ≤ iend)
    (hsize : iend ≤ source.size) :
    literalLength source iend token ip = .ok (ip + (extra n).length, n) := by
  unfold literalLength
  rw [htoken]
  dsimp only
  by_cases hn : n < 15
  · rw [nibble_of_lt hn, extra_of_lt hn, if_neg (by show ¬ n = 15; omega)]
    rfl
  · have hge : 15 ≤ n := by omega
    rw [extra_of_ge hge] at hbytes hroom ⊢
    have hsum : 15 + (n - 15) = n := by omega
    rw [nibble_of_ge hge, if_pos (show 15 = RUN_MASK from rfl),
      literalRun_eq hbytes (by omega) (Nat.le_refl _) hsize, hsum]

/-- The length of a match, read back. -/
theorem matchLength_eq {surplus : Nat} {token : UInt8}
    (htoken : token.toNat % 16 = nibble surplus)
    (hbytes : source.bytes.slice ip (extra surplus).length = extra surplus)
    (hroom : 15 ≤ surplus → (ip + (extra surplus).length + 4 : Int) ≤ iend)
    (hsize : iend ≤ source.size) :
    matchLength source iend token ip
      = .ok (ip + (extra surplus).length, surplus + MINMATCH) := by
  unfold matchLength
  rw [htoken]
  dsimp only
  by_cases hn : surplus < 15
  · rw [nibble_of_lt hn, extra_of_lt hn, if_neg (by show ¬ surplus = 15; omega)]
    rfl
  · have hge : 15 ≤ surplus := by omega
    have hroom := hroom hge
    rw [extra_of_ge hge] at hbytes hroom ⊢
    have hsum : 15 + (surplus - 15) = surplus := by omega
    rw [nibble_of_ge hge, if_pos (show 15 = ML_MASK from rfl),
      matchRun_eq hbytes hroom hsize, ok_bind, hsum]
    rfl

-- ============================================================ backwards

/-- What the literal loop returns. -/
theorem literalRun_spec (hsize : iend ≤ source.size) (hip : ip < source.size)
    (hlen : 15 ≤ length) :
    Ends (fun r : Nat × Nat => ip < r.1 ∧ length ≤ r.2
      ∧ (source.bytes.slice ip (r.1 - ip) = excess (r.2 - length)
        ∨ iend < r.1 + r.2)) E
      (literalRun source iend ip length) := by
  have hrun : RUN_MASK = 15 := rfl
  induction hn : (iend - ip).toNat using Nat.strongRecOn generalizing ip length with
  | ind n ih =>
      rw [literalRun, byte_ok hip, ok_bind]
      split
      next hmore =>
        obtain ⟨hguard, hs⟩ := hmore
        have hs' : (source.bytes ip).toNat = 255 := by rw [hs]; rfl
        rw [hs']
        refine (ih _ (by omega)
          (by omega) (by omega) rfl).mono ?_ (fun _ h => h)
        intro r h
        obtain ⟨hlt, hle, hbytes⟩ := h
        refine ⟨by omega, by omega, hbytes.imp_left ?_⟩
        intro heq
        have hsucc : r.1 - ip = r.1 - (ip + 1) + 1 := by omega
        have hless : r.2 - (length + 255) = r.2 - length - 255 := by omega
        rw [hsucc, Mem.slice_cons, heq, hs, hless,
          ← excess_of_ge (n := r.2 - length) (by omega)]
      next hstop =>
        rw [ends_pure]
        refine ⟨Nat.lt_succ_self ip, Nat.le_add_right _ _, ?_⟩
        by_cases hs : source.bytes ip = 255
        · right
          have hs' : (source.bytes ip).toNat = 255 := by rw [hs]; rfl
          have : ¬ ((ip + 1 : Int) < iend - RUN_MASK) := fun h => hstop ⟨h, hs⟩
          dsimp only
          omega
        · left
          dsimp only
          rw [Nat.add_sub_cancel_left, Nat.add_sub_cancel_left,
            excess_of_lt (toNat_lt_255 hs), UInt8.ofNat_toNat, Mem.slice_cons,
            Mem.slice_zero]

/-- What the loop of the match length returns. -/
theorem matchRun_spec (hsize : iend ≤ source.size) :
    Ends (fun r : Nat × Nat => ip < r.1 ∧ length ≤ r.2 ∧ (r.1 + 4 : Int) ≤ iend
      ∧ source.bytes.slice ip (r.1 - ip) = excess (r.2 - length))
      (· < 0) (matchRun source iend ip length) := by
  have hlast : LASTLITERALS = 5 := rfl
  induction hn : (iend - ip).toNat using Nat.strongRecOn generalizing ip length with
  | ind n ih =>
      rw [matchRun]
      split
      next => exact ends_outputError ip
      next hroom =>
        rw [byte_ok (by omega), ok_bind]
        split
        next hs =>
          have hs' : (source.bytes ip).toNat = 255 := by rw [hs]; rfl
          rw [hs']
          refine (ih _ (by omega)
            rfl).mono ?_ (fun _ h => h)
          intro r h
          obtain ⟨hlt, hle, hend, heq⟩ := h
          refine ⟨by omega, by omega, hend, ?_⟩
          have hsucc : r.1 - ip = r.1 - (ip + 1) + 1 := by omega
          have hless : r.2 - (length + 255) = r.2 - length - 255 := by omega
          rw [hsucc, Mem.slice_cons, heq, hs, hless,
            ← excess_of_ge (n := r.2 - length) (by omega)]
        next hs =>
          rw [ends_pure]
          refine ⟨Nat.lt_succ_self ip, Nat.le_add_right _ _, by push_cast; omega, ?_⟩
          rw [Nat.add_sub_cancel_left, Nat.add_sub_cancel_left,
            excess_of_lt (toNat_lt_255 hs), UInt8.ofNat_toNat, Mem.slice_cons,
            Mem.slice_zero]

/-- The length of literals is written in front of them, or reaches behind
the input. -/
theorem literalLength_spec {token : UInt8} (hsize : iend ≤ source.size)
    (hip : ip < source.size) :
    Ends (fun r : Nat × Nat => ip ≤ r.1
      ∧ ((token.toNat / 16 = nibble r.2
          ∧ source.bytes.slice ip (r.1 - ip) = extra r.2)
        ∨ iend < r.1 + r.2)) E
      (literalLength source iend token ip) := by
  unfold literalLength
  have hhalf : token.toNat / 16 < 16 := by
    have := token.toNat_lt
    omega
  dsimp only
  split
  next hmore =>
    have h15 : token.toNat / 16 = 15 := hmore
    refine (literalRun_spec hsize hip (by omega)).mono ?_ (fun _ h => h)
    intro r h
    obtain ⟨hlt, hle, hbytes⟩ := h
    refine ⟨by omega, hbytes.imp_left ?_⟩
    intro heq
    rw [h15] at heq hle
    exact ⟨by rw [nibble_of_ge hle, h15], by rw [extra_of_ge hle, heq]⟩
  next hfew =>
    have hlt : token.toNat / 16 < 15 := by
      have : token.toNat / 16 ≠ 15 := hfew
      omega
    rw [ends_pure]
    refine ⟨Nat.le_refl ip, .inl ?_⟩
    dsimp only
    rw [nibble_of_lt hlt, extra_of_lt hlt, Nat.sub_self]
    exact ⟨rfl, Mem.slice_zero _ _⟩

/-- The length of a match is written behind its offset. -/
theorem matchLength_spec {token : UInt8} (hsize : iend ≤ source.size) :
    Ends (fun r : Nat × Nat => ip ≤ r.1 ∧ ∃ surplus, r.2 = surplus + MINMATCH
      ∧ token.toNat % 16 = nibble surplus
      ∧ source.bytes.slice ip (r.1 - ip) = extra surplus
      ∧ (15 ≤ surplus → (r.1 + 4 : Int) ≤ iend)) (· < 0)
      (matchLength source iend token ip) := by
  unfold matchLength
  have hhalf : token.toNat % 16 < 16 := by omega
  dsimp only
  split
  next hmore =>
    have h15 : token.toNat % 16 = 15 := hmore
    refine (matchRun_spec hsize).bind ?_
    intro r h
    obtain ⟨hlt, hle, hend, heq⟩ := h
    rw [h15] at heq hle
    rw [ends_pure]
    refine ⟨by show ip ≤ r.1; omega, r.2, rfl, ?_, ?_, fun _ => hend⟩
    · rw [nibble_of_ge hle, h15]
    · rw [extra_of_ge hle, heq]
  next hfew =>
    have hlt : token.toNat % 16 < 15 := by
      have : token.toNat % 16 ≠ 15 := hfew
      omega
    rw [pure_bind, ends_pure]
    refine ⟨Nat.le_refl ip, token.toNat % 16, rfl, ?_, ?_, fun h => ?_⟩
    · rw [nibble_of_lt hlt]
    · rw [extra_of_lt hlt]
      exact congrArg (source.bytes.slice ip) (Nat.sub_self ip)
    · omega

end Yrmcds
