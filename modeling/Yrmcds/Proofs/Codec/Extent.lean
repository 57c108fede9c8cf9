/-
The decoder in more memory.

`Region.Part` says that an input is the front of a larger piece of memory.
Every routine of the decoder goes the same way in both for as long as it
does not fault in the smaller one (`lz4DecompressSafe_extends`). So it may
be looked at with its input alone and nothing behind it, although its
callers hand it a pointer into a buffer.
-/
import Yrmcds.Model.Codec.Decompress

namespace Yrmcds

open Checked

/-- `a` is the front of `b`. -/
structure Region.Part (a b : Region) : Prop where
  size : a.size ≤ b.size
  bytes : ∀ i < a.size, a.bytes i = b.bytes i

variable {a b : Region} {ε : Type}

namespace Region.Part

theorem byte (h : a.Part b) (i : Nat) :
    Extends (a.byte i : Checked ε UInt8) (b.byte i) := by
  unfold Region.byte
  by_cases hi : i < a.size
  · have hsize := h.size
    rw [if_pos hi, if_pos (by omega), h.bytes i hi]
    exact .same _
  · rw [if_neg hi]
    exact .fault _

theorem load (h : a.Part b) (i n : Nat) :
    Extends (a.load i n : Checked ε (List UInt8)) (b.load i n) := by
  unfold Region.load
  by_cases hi : i + n ≤ a.size
  · have hsize := h.size
    have hslice : a.bytes.slice i n = b.bytes.slice i n := by
      apply List.map_congr_left
      intro j hj
      have hlt := List.mem_range.mp hj
      exact h.bytes (i + j) (by omega)
    rw [if_pos hi, if_pos (by omega), hslice]
    exact .same _
  · rw [if_neg hi]
    exact .fault _

end Region.Part

theorem lz4Read16_extends (h : a.Part b) (i : Nat) :
    Extends (lz4Read16 a i : Checked ε Nat) (lz4Read16 b i) := by
  unfold lz4Read16
  refine (h.load i 2).bind ?_
  intro bs
  exact .same _

theorem lz4WildCopy_extends (h : a.Part b) (dest : Region) (d s e : Nat) :
    Extends (lz4WildCopy (fun _ => a) dest d s e : Checked ε Region)
      (lz4WildCopy (fun _ => b) dest d s e) := by
  induction hk : e - d using Nat.strongRecOn generalizing dest d s with
  | ind k ih =>
      rw [lz4WildCopy, lz4WildCopy]
      refine (h.load s 8).bind ?_
      intro bytes
      refine (Extends.same _).bind ?_
      intro dest'
      split
      next => exact ih (e - (d + 8)) (by omega) dest' (d + 8) (s + 8) rfl
      next => exact .same _

-- ============================================================== lengths

variable {iend oend : Int}

theorem literalRun_extends (h : a.Part b) (ip length : Nat) :
    Extends (literalRun a iend ip length) (literalRun b iend ip length) := by
  induction hk : (iend - ip).toNat using Nat.strongRecOn
    generalizing ip length with
  | ind k ih =>
      rw [literalRun, literalRun]
      refine (h.byte ip).bind ?_
      intro s
      split
      next hmore =>
        exact ih (iend - (ip + 1 : Nat)).toNat (by omega) (ip + 1) _ rfl
      next => exact .same _

theorem literalLength_extends (h : a.Part b) (token : UInt8) (ip : Nat) :
    Extends (literalLength a iend token ip) (literalLength b iend token ip) := by
  unfold literalLength
  dsimp only
  split
  next => exact literalRun_extends h ip _
  next => exact .same _

theorem matchRun_extends (h : a.Part b) (ip length : Nat) :
    Extends (matchRun a iend ip length) (matchRun b iend ip length) := by
  have hll : LASTLITERALS = 5 := rfl
  induction hk : (iend - ip).toNat using Nat.strongRecOn
    generalizing ip length with
  | ind k ih =>
      rw [matchRun, matchRun]
      split
      next => exact .same _
      next hmore =>
        refine (h.byte ip).bind ?_
        intro s
        split
        next => exact ih (iend - (ip + 1 : Nat)).toNat (by omega) (ip + 1) _ rfl
        next => exact .same _

theorem matchLength_extends (h : a.Part b) (token : UInt8) (ip : Nat) :
    Extends (matchLength a iend token ip) (matchLength b iend token ip) := by
  unfold matchLength
  dsimp only
  split
  next =>
    refine (matchRun_extends h ip _).bind ?_
    intro r
    exact .same _
  next => exact .same _

-- ============================================================= the loop

theorem decodeSequence_extends (h : a.Part b) (c : Cursor) :
    Extends (decodeSequence a iend oend c) (decodeSequence b iend oend c) := by
  unfold decodeSequence
  refine (h.byte c.ip).bind ?_
  intro token
  refine (literalLength_extends h token (c.ip + 1)).bind ?_
  intro r
  dsimp only
  split
  next =>
    split
    next => exact .same _
    next =>
      refine (h.load r.1 r.2).bind ?_
      intro bytes
      exact .same _
  next =>
    refine (lz4WildCopy_extends h c.dest c.op r.1 (c.op + r.2)).bind ?_
    intro dest
    refine (lz4Read16_extends h (r.1 + r.2)).bind ?_
    intro offset
    split
    next => exact .same _
    next =>
      refine (matchLength_extends h token (r.1 + r.2 + 2)).bind ?_
      intro r'
      exact .same _

theorem decodeLoop_extends (h : a.Part b) (fuel : Nat) (c : Cursor) :
    Extends (decodeLoop a iend oend fuel c) (decodeLoop b iend oend fuel c) := by
  induction fuel generalizing c with
  | zero => exact .same _
  | succ fuel ih =>
      rw [decodeLoop, decodeLoop]
      refine (decodeSequence_extends h c).bind ?_
      intro round
      cases round with
      | more c' => exact ih c'
      | done c' => exact .same _

/-- The decoder does the same in more memory, if it does not fault. -/
theorem lz4DecompressSafe_extends (h : a.Part b) (dest : Region) (n max : Int) :
    Extends (lz4DecompressSafe a dest n max) (lz4DecompressSafe b dest n max) := by
  unfold lz4DecompressSafe
  split
  next =>
    split
    next =>
      refine (h.byte 0).bind ?_
      intro token
      exact .same _
    next => exact .same _
  next =>
    refine (decodeLoop_extends h (n.toNat + 1) ⟨0, 0, dest⟩).bind ?_
    intro c
    exact .same _

end Yrmcds
