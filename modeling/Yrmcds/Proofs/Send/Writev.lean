/-
The two `writev` loops are `pour`.

`send.c` keeps what is left in front of its array by shifting the array,
`counter.c` by stepping an index. In both the entries in use are a list
of non-empty segments that `advance` takes `n` bytes further
(`advance_spec`, `cntAdvance_spec`: `Gather.consume`), no index leaves
the array, and the loop writes what `Gather.pour` writes of the
concatenation (`sendLoop_spec`, `cntSendLoop_spec`).
-/
import Yrmcds.Model.Counter

namespace Yrmcds

open Gather

/-- Non-empty segments that are left make a non-empty concatenation. -/
theorem flatten_cons_of_ne {s : List UInt8} (ss : List (List UInt8))
    (h : s ≠ []) : ∃ b bs, (s :: ss).flatten = b :: bs := by
  cases s with
  | nil => exact absurd rfl h
  | cons b s => exact ⟨b, s ++ ss.flatten, rfl⟩

-- =============================================================== send.c

/-- The shift loop moves the entries behind `x` one place down; the last
one stays where it was, too. -/
theorem shiftIov_spec (pre : List (List UInt8)) (x : List UInt8)
    (ys junk : List (List UInt8)) :
    ∃ last, shiftIov ys.length pre.length (pre ++ x :: (ys ++ junk))
      = some (pre ++ (ys ++ last :: junk)) := by
  induction ys generalizing pre x with
  | nil => exact ⟨x, rfl⟩
  | cons y ys ih =>
      obtain ⟨last, hlast⟩ := ih (pre ++ [y]) y
      refine ⟨last, ?_⟩
      have hread : (pre ++ x :: (y :: ys ++ junk))[pre.length + 1]? = some y := by
        rw [List.getElem?_append_right (by omega), Nat.add_sub_cancel_left]
        rfl
      have hset : (pre ++ x :: (y :: ys ++ junk)).set pre.length y
          = (pre ++ [y]) ++ y :: (ys ++ junk) := by
        rw [List.set_append_right _ _ (Nat.le_refl _), Nat.sub_self,
          List.append_assoc]
        rfl
      rw [List.length_append, List.length_singleton] at hlast
      rw [List.length_cons, shiftIov, hread]
      dsimp only
      rw [hset, hlast, List.append_assoc]
      rfl

/-- The inner loop of `send.c` takes the entries `n` bytes further. -/
theorem advance_spec (segs junk : List (List UInt8)) (n : Nat)
    (hne : ∀ s ∈ segs, s ≠ []) :
    ∃ junk', advance (segs ++ junk) segs.length n
      = some (consume segs n ++ junk', (consume segs n).length) := by
  induction segs generalizing junk n with
  | nil => exact ⟨junk, rfl⟩
  | cons s ss ih =>
      have hs : 0 < s.length :=
        List.length_pos_iff.mpr (hne s (List.mem_cons_self ..))
      have hss : ∀ t ∈ ss, t ≠ [] := fun t ht =>
        hne t (List.mem_cons_of_mem _ ht)
      rw [List.length_cons, advance, consume]
      split
      next hpos =>
        rw [List.cons_append, List.getElem?_cons_zero]
        dsimp only
        by_cases hlt : n < s.length
        · rw [if_pos hlt, if_pos hlt]
          exact ⟨junk, rfl⟩
        · rw [if_neg hlt, if_neg hlt]
          by_cases hlast : ss.length = 0
          · rw [if_pos hlast, List.length_eq_zero_iff.mp hlast]
            exact ⟨s :: junk, rfl⟩
          · obtain ⟨last, hshift⟩ := shiftIov_spec [] s ss junk
            rw [List.nil_append, List.nil_append, List.length_nil] at hshift
            rw [if_neg hlast, hshift]
            exact ih (last :: junk) (n - s.length) hss
      next hzero =>
        have hn : n = 0 := by omega
        subst hn
        rw [if_pos hs]
        exact ⟨junk, rfl⟩

/-- The loop of `send.c` stays inside its array and writes what `pour`
writes. -/
theorem sendLoop_spec (acks : List Ack) (segs junk : List (List UInt8))
    (hne : ∀ s ∈ segs, s ≠ []) :
    sendLoop acks (segs ++ junk) segs.length
      = some (pour acks segs.flatten) := by
  induction acks generalizing segs junk with
  | nil =>
      cases segs with
      | nil => rfl
      | cons s ss =>
          obtain ⟨b, bs, hcons⟩ := flatten_cons_of_ne ss
            (hne s (List.mem_cons_self ..))
          rw [hcons]
          rfl
  | cons a acks ih =>
      cases segs with
      | nil => rw [List.flatten_nil, pour_nil]; rfl
      | cons s ss =>
          obtain ⟨b, bs, hcons⟩ := flatten_cons_of_ne ss
            (hne s (List.mem_cons_self ..))
          rw [List.length_cons]
          cases a with
          | again =>
              have hloop := ih (s :: ss) junk hne
              rw [hcons] at hloop ⊢
              exact hloop
          | refused =>
              rw [hcons]
              rfl
          | took n =>
              have htake : ((s :: ss) ++ junk).take (s :: ss).length
                  = s :: ss := List.take_left
              rw [List.length_cons] at htake
              rw [sendLoop, htake]
              by_cases hn : 0 < n ∧ n ≤ (s :: ss).flatten.length
              · obtain ⟨junk', hadv⟩ := advance_spec (s :: ss) junk n hne
                rw [List.length_cons] at hadv
                rw [if_pos hn, hadv, pour_took acks hn.1 hn.2,
                  ← consume_flatten]
                dsimp only
                rw [ih _ _ (consume_nonempty hne n)]
                rfl
              · rw [if_neg hn, hcons, pour, ← hcons, if_neg hn]

-- ============================================================ counter.c

/-- The inner loop of `counter.c` takes the entries `n` bytes further. -/
theorem cntAdvance_spec (fuel : Nat) (pre segs junk : List (List UInt8))
    (n : Nat) (hne : ∀ s ∈ segs, s ≠ []) (hle : n ≤ segs.flatten.length)
    (hfuel : segs.length < fuel) :
    ∃ pre', cntAdvance fuel (pre ++ (segs ++ junk)) pre.length n
        = some (pre' ++ (consume segs n ++ junk), pre'.length)
      ∧ pre'.length + (consume segs n).length = pre.length + segs.length := by
  induction segs generalizing pre n fuel with
  | nil =>
      obtain ⟨fuel, rfl⟩ : ∃ f, fuel = f + 1 := ⟨fuel - 1, by simp at hfuel; omega⟩
      have hn : n = 0 := by simpa using hle
      subst hn
      exact ⟨pre, rfl, rfl⟩
  | cons s ss ih =>
      obtain ⟨fuel, rfl⟩ : ∃ f, fuel = f + 1 := ⟨fuel - 1, by omega⟩
      have hs : 0 < s.length :=
        List.length_pos_iff.mpr (hne s (List.mem_cons_self ..))
      rw [List.flatten_cons, List.length_append] at hle
      rw [List.length_cons] at hfuel
      rw [cntAdvance, consume]
      split
      next hpos =>
        have hread : (pre ++ ((s :: ss) ++ junk))[pre.length]? = some s := by
          rw [List.getElem?_append_right (Nat.le_refl _), Nat.sub_self]
          rfl
        rw [hread]
        dsimp only
        by_cases hlt : n < s.length
        · rw [if_pos hlt, if_pos hlt]
          refine ⟨pre, ?_, rfl⟩
          rw [List.set_append_right _ _ (Nat.le_refl _), Nat.sub_self]
          rfl
        · rw [if_neg hlt, if_neg hlt]
          obtain ⟨pre', hadv, hlen⟩ := ih fuel (pre ++ [s]) (n - s.length)
            (fun t ht => hne t (List.mem_cons_of_mem _ ht)) (by omega)
            (by omega)
          rw [List.length_append, List.length_singleton] at hadv hlen
          refine ⟨pre', ?_, ?_⟩
          · rw [← hadv, List.append_assoc]
            rfl
          · rw [List.length_cons]
            omega
      next hzero =>
        have hn : n = 0 := by omega
        subst hn
        rw [if_pos hs]
        exact ⟨pre, rfl, rfl⟩

/-- The loop of `counter.c` stays inside its array and writes what `pour`
writes. -/
theorem cntSendLoop_spec (acks : List Ack) (iovcnt : Nat)
    (pre segs junk : List (List UInt8)) (hne : ∀ s ∈ segs, s ≠ [])
    (hcnt : iovcnt = pre.length + segs.length) :
    cntSendLoop iovcnt acks (pre ++ (segs ++ junk)) pre.length
      = some (pour acks segs.flatten) := by
  induction acks generalizing pre segs with
  | nil =>
      rw [cntSendLoop]
      cases segs with
      | nil =>
          rw [if_neg (by simp at hcnt; omega)]
          rfl
      | cons s ss =>
          obtain ⟨b, bs, hcons⟩ := flatten_cons_of_ne ss
            (hne s (List.mem_cons_self ..))
          rw [if_pos (by simp at hcnt; omega), hcons]
          rfl
  | cons a acks ih =>
      unfold cntSendLoop
      cases segs with
      | nil =>
          rw [if_neg (by simp at hcnt; omega), List.flatten_nil, pour_nil]
      | cons s ss =>
          obtain ⟨b, bs, hcons⟩ := flatten_cons_of_ne ss
            (hne s (List.mem_cons_self ..))
          rw [if_pos (by simp at hcnt; omega)]
          cases a with
          | again =>
              dsimp only
              rw [ih pre (s :: ss) hne hcnt, hcons]
              rfl
          | refused =>
              rw [hcons]
              rfl
          | took n =>
              have htake : ((pre ++ ((s :: ss) ++ junk)).take iovcnt).drop
                  pre.length = s :: ss := by
                rw [hcnt, ← List.append_assoc, ← List.length_append,
                  List.take_left, List.drop_left]
              dsimp only
              rw [htake]
              by_cases hn : 0 < n ∧ n ≤ (s :: ss).flatten.length
              · obtain ⟨pre', hadv, hlen⟩ := cntAdvance_spec
                  ((pre ++ ((s :: ss) ++ junk)).length + 1) pre (s :: ss) junk
                  n hne hn.2 (by simp; omega)
                rw [if_pos hn, hadv, pour_took acks hn.1 hn.2,
                  ← consume_flatten]
                dsimp only
                rw [ih pre' _ (consume_nonempty hne n) (by omega)]
                rfl
              · rw [if_neg hn, hcons, pour, ← hcons, if_neg hn]

end Yrmcds
