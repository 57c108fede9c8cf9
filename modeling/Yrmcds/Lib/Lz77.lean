/-
Sequences of literals and references into what came before.

A `Sequence` appends its literals, then `matchLength` elements that each
repeat the one `offset` places back; the copy may run into its own
output, which is how a short period is spread over a long run. `expand`
is the meaning of a list of sequences.

An implementation works on memory, where the same copy is the predicate
`Repeats`: each element of a range equals the one `offset` before it.
`apply_eq_of_repeats` is the bridge, in both directions an implementation
needs: the memory a decoder has filled holds the expansion, and a stretch
of input a compressor has compared with an earlier one is a reference.

Copying in wide steps is sound from a distance that is at least the width
of a step. `Repeats.multiple` is why a decoder may turn to a multiple of
the offset for that: over a start that repeats at the offset already, the
copy at the multiple is a copy at the offset.
-/
import Mathlib.Data.List.Basic
import Mathlib.Tactic.Ring

namespace Lz77

variable {α : Type}

-- ================================================ repetition in memory

/-- Each element at `a ≤ i < b` is the one `d` places before. -/
def Repeats (m : Nat → α) (d a b : Nat) : Prop :=
  ∀ i, a ≤ i → i < b → m i = m (i - d)

variable {m m' : Nat → α} {d a b c : Nat}

theorem Repeats.empty (m : Nat → α) (d a : Nat) : Repeats m d a a := by
  intro i ha hb
  omega

/-- Two stretches in a row. -/
theorem Repeats.append (h : Repeats m d a b) (h' : Repeats m d b c) :
    Repeats m d a c := by
  intro i ha hc
  by_cases hb : i < b
  · exact h i ha hb
  · exact h' i (by omega) hc

theorem Repeats.mono {a' b' : Nat} (h : Repeats m d a b) (ha : a ≤ a')
    (hb : b' ≤ b) : Repeats m d a' b' := by
  intro i hi hi'
  exact h i (by omega) (by omega)

/-- Memories that agree below `b` have the same repetitions there. -/
theorem Repeats.congr (h : Repeats m d a b) (heq : ∀ i < b, m' i = m i) :
    Repeats m' d a b := by
  intro i hi hi'
  rw [heq i hi', heq (i - d) (by omega)]
  exact h i hi hi'

/-- Going back by `d` again and again inside a repetition. -/
theorem Repeats.back {i : Nat} (h : Repeats m d a b) (j : Nat) (hib : i < b)
    (hia : ∀ k < j, a + k * d ≤ i) : m i = m (i - j * d) := by
  induction j with
  | zero => rw [Nat.zero_mul, Nat.sub_zero]
  | succ j ih =>
      have hj : a + j * d ≤ i := hia j (by omega)
      rw [ih fun k hk => hia k (by omega), h (i - j * d) (by omega) (by omega)]
      congr 1
      rw [Nat.add_mul]
      omega

/-- A repetition at `d`, continued by a copy from `(k + 1) * d` places
back, is continued at `d`, if it was long enough to reach back over. -/
theorem Repeats.multiple {k : Nat} (h : Repeats m d a b)
    (hk : Repeats m ((k + 1) * d) b c) (hlong : a + k * d ≤ b) :
    Repeats m d a c := by
  -- strong induction: `[a, i)` repeats at `d` when `i` is looked at
  have hup : ∀ n, b + n ≤ c → Repeats m d a (b + n) := by
    intro n
    induction n with
    | zero =>
        intro _
        exact h
    | succ n ih =>
        intro hn
        have ih := ih (by omega)
        apply ih.append
        intro i hi hi'
        have heq : i = b + n := by omega
        subst heq
        by_cases hd : b + n - d = b + n
        · rw [hd]
        · have hcopy := hk (b + n) (by omega) (by omega)
          have hback := ih.back (i := b + n - d) k (by omega) (by
            intro j hj
            have := Nat.mul_le_mul_right d (show j + 1 ≤ k by omega)
            rw [Nat.add_mul, Nat.one_mul] at this
            omega)
          rw [hcopy, hback]
          congr 1
          rw [Nat.add_mul, Nat.one_mul]
          omega
  by_cases hbc : b ≤ c
  · have := hup (c - b) (by omega)
    rwa [Nat.add_sub_cancel' hbc] at this
  · exact h.mono (Nat.le_refl a) (by omega)

-- ======================================================= the sequences

/-- Literals and a reference. -/
structure Sequence (α : Type) where
  literals : List α
  offset : Nat
  matchLength : Nat
  deriving DecidableEq, Repr

/-- `n` elements more, each the one `d` places back. -/
def extend (out : List α) (d : Nat) : Nat → List α
  | 0 => out
  | n + 1 => extend (out ++ (out[out.length - d]?).toList) d n

/-- What a sequence appends. -/
def Sequence.apply (out : List α) (s : Sequence α) : List α :=
  extend (out ++ s.literals) s.offset s.matchLength

/-- How much a sequence appends. -/
def Sequence.size (s : Sequence α) : Nat := s.literals.length + s.matchLength

/-- The meaning of a list of sequences, behind `out`. -/
def expand (out : List α) (seqs : List (Sequence α)) : List α :=
  seqs.foldl Sequence.apply out

/-- References reach back to what is there: `p` elements before the first
sequence. -/
def Valid : Nat → List (Sequence α) → Prop
  | _, [] => True
  | p, s :: seqs =>
      (1 ≤ s.offset ∧ s.offset ≤ p + s.literals.length)
        ∧ Valid (p + s.size) seqs

@[simp] theorem expand_nil (out : List α) : expand out [] = out := rfl

@[simp] theorem expand_cons (out : List α) (s : Sequence α)
    (seqs : List (Sequence α)) :
    expand out (s :: seqs) = expand (s.apply out) seqs := rfl

theorem expand_snoc (out : List α) (seqs : List (Sequence α))
    (s : Sequence α) :
    expand out (seqs ++ [s]) = s.apply (expand out seqs) := by
  unfold expand
  rw [List.foldl_append]
  rfl

/-- The elements in front of `p` are kept. -/
theorem length_extend (out : List α) {d : Nat} (hpos : 1 ≤ d)
    (hle : d ≤ out.length) (n : Nat) :
    (extend out d n).length = out.length + n := by
  induction n generalizing out with
  | zero => rfl
  | succ n ih =>
      have hget : out[out.length - d]? = some (out.get ⟨out.length - d, by omega⟩) :=
        List.getElem?_eq_getElem (by omega)
      rw [extend, hget, ih _ (by simp; omega)]
      simp
      omega

theorem Sequence.length_apply (out : List α) (s : Sequence α)
    (hpos : 1 ≤ s.offset) (hle : s.offset ≤ out.length + s.literals.length) :
    (s.apply out).length = out.length + s.size := by
  unfold Sequence.apply Sequence.size
  rw [length_extend _ hpos (by rw [List.length_append]; exact hle),
    List.length_append]
  omega

/-- The sizes add up. -/
theorem length_expand (out : List α) (seqs : List (Sequence α))
    (h : Valid out.length seqs) :
    (expand out seqs).length = out.length + (seqs.map Sequence.size).sum := by
  induction seqs generalizing out with
  | nil => rfl
  | cons s seqs ih =>
      obtain ⟨⟨hpos, hle⟩, hrest⟩ := h
      have hlen := s.length_apply out hpos hle
      rw [expand_cons, ih _ (by rw [hlen]; exact hrest), hlen, List.map_cons,
        List.sum_cons]
      omega

theorem Valid.snoc {p : Nat} {seqs : List (Sequence α)} {s : Sequence α}
    (h : Valid p seqs) (hpos : 1 ≤ s.offset)
    (hle : s.offset ≤ p + (seqs.map Sequence.size).sum + s.literals.length) :
    Valid p (seqs ++ [s]) := by
  induction seqs generalizing p with
  | nil => exact ⟨⟨hpos, by simpa using hle⟩, trivial⟩
  | cons s' seqs ih =>
      refine ⟨h.1, ih h.2 ?_⟩
      rw [List.map_cons, List.sum_cons] at hle
      omega

-- ========================================================== the bridge

/-- The first `n` elements of a memory. -/
def front (m : Nat → α) (n : Nat) : List α := (List.range n).map m

@[simp] theorem length_front (m : Nat → α) (n : Nat) :
    (front m n).length = n := by
  simp [front]

theorem front_succ (m : Nat → α) (n : Nat) :
    front m (n + 1) = front m n ++ [m n] := by
  simp [front, List.range_succ]

/-- A memory that repeats holds the copy. -/
theorem extend_front {p : Nat} (hpos : 1 ≤ d) (hle : d ≤ p) (n : Nat)
    (h : Repeats m d p (p + n)) : extend (front m p) d n = front m (p + n) := by
  induction n generalizing p with
  | zero => rfl
  | succ n ih =>
      have hget : (front m p)[p - d]? = some (m (p - d)) := by
        simp [front, show p - d < p by omega]
      have hnext : front m p ++ [m (p - d)] = front m (p + 1) := by
        rw [front_succ, h p (Nat.le_refl p) (by omega)]
      rw [extend, length_front, hget, Option.toList_some, hnext,
        ih (by omega) (h.mono (by omega) (by omega))]
      congr 1
      omega

/-- A memory that holds what is there, the literals and the repetition
holds what the sequence makes of it. -/
theorem Sequence.apply_eq_of_repeats {p : Nat} {s : Sequence α}
    (hlit : front m p ++ s.literals = front m (p + s.literals.length))
    (hpos : 1 ≤ s.offset) (hle : s.offset ≤ p + s.literals.length)
    (h : Repeats m s.offset (p + s.literals.length) (p + s.size)) :
    s.apply (front m p) = front m (p + s.size) := by
  unfold Sequence.size at h ⊢
  rw [← Nat.add_assoc] at h ⊢
  rw [Sequence.apply, hlit]
  exact extend_front hpos hle _ h

end Lz77
