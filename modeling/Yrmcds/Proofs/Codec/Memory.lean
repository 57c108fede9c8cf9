/-
What the copying routines of the codec leave in memory.

Every routine writes from some position on and keeps what is below
(`Region.Kept`). Behind that, a copy from another region brings over its
bytes, and a copy within the region makes it repeat
(`Lz77.Repeats`) at the distance it was made from, provided the distance
is at least what one step writes.
-/
import Yrmcds.Lib.Lz77
import Yrmcds.Model.Codec.Memory
import Yrmcds.Proofs.Recv.Queue

namespace Yrmcds

open Checked Lz77

variable {ε : Type} {E : ε → Prop}

-- ====================================================== single accesses

theorem Mem.write_below (m : Mem) {off i : Nat} (bs : List UInt8)
    (h : i < off) : m.write off bs i = m i := if_neg (by omega)

theorem Mem.write_above (m : Mem) {off i : Nat} {bs : List UInt8}
    (h : off + bs.length ≤ i) : m.write off bs i = m i := if_neg (by omega)

/-- Bytes copied from elsewhere. -/
theorem Mem.write_slice (m m' : Mem) {off s n i : Nat} (hlo : off ≤ i)
    (hhi : i < off + n) :
    m.write off (m'.slice s n) i = m' (s + (i - off)) := by
  have hi : i - off < (m'.slice s n).length := by simp; omega
  rw [Mem.write, if_pos ⟨hlo, by simpa using hhi⟩,
    List.getD_eq_getElem?_getD, List.getElem?_eq_getElem hi, Option.getD_some,
    Mem.getElem_slice]

namespace Region

variable {r : Region} {i n : Nat}

theorem byte_ok (h : i < r.size) :
    (r.byte i : Checked ε UInt8) = .ok (r.bytes i) := if_pos h

theorem byte_fault (h : r.size ≤ i) :
    (r.byte i : Checked ε UInt8) = .error .fault := if_neg (by omega)

theorem load_ok (h : i + n ≤ r.size) :
    (r.load i n : Checked ε (List UInt8)) = .ok (r.bytes.slice i n) := if_pos h

theorem store_ok {bs : List UInt8} (h : i + bs.length ≤ r.size) :
    (r.store i bs : Checked ε Region)
      = .ok { r with bytes := r.bytes.write i bs } := if_pos h

/-- `r` is `dest` up to the bytes from `op` on. -/
structure Kept (dest r : Region) (op : Nat) : Prop where
  size : r.size = dest.size
  below : ∀ i < op, r.bytes i = dest.bytes i

theorem Kept.refl (dest : Region) (op : Nat) : Kept dest dest op :=
  ⟨rfl, fun _ _ => rfl⟩

theorem Kept.trans {dest r r' : Region} {op op' : Nat} (h : Kept dest r op)
    (h' : Kept r r' op') (hle : op ≤ op') : Kept dest r' op := by
  refine ⟨h'.size.trans h.size, ?_⟩
  intro i hi
  rw [h'.below i (by omega), h.below i hi]

/-- What is below stays as a slice too. -/
theorem Kept.slice {dest r : Region} {op : Nat} (h : Kept dest r op)
    {off len : Nat} (hle : off + len ≤ op) :
    r.bytes.slice off len = dest.bytes.slice off len := by
  apply Mem.slice_congr
  intro i hi
  exact h.below (off + i) (by omega)

/-- And as a repetition. -/
theorem Kept.repeats {dest r : Region} {op d a b : Nat} (h : Kept dest r op)
    (hrep : Repeats dest.bytes d a b) (hle : b ≤ op) :
    Repeats r.bytes d a b := by
  apply hrep.congr
  intro i hi
  exact h.below i (by omega)

/-- A store. -/
theorem store_spec (dest : Region) {op : Nat} {bs : List UInt8}
    (h : op + bs.length ≤ dest.size) :
    Ends (fun r => Kept dest r op ∧ r.bytes.slice op bs.length = bs
      ∧ ∀ i, op + bs.length ≤ i → r.bytes i = dest.bytes i) E
      (dest.store op bs) := by
  rw [store_ok h, ends_ok]
  refine ⟨⟨rfl, ?_⟩, dest.bytes.slice_write_self op bs, ?_⟩
  · intro i hi
    exact dest.bytes.write_below bs hi
  · intro i hi
    exact dest.bytes.write_above hi

end Region

open Region

-- ============================================================== copying

/-- A copy within a region, of bytes that all stand in front of it. -/
theorem lz4Copy_spec (dest : Region) {n d s : Nat} (hsize : d + n ≤ dest.size)
    (hle : s ≤ d) :
    Ends (fun r => Kept dest r d
      ∧ (s + n ≤ d → Repeats r.bytes (d - s) d (d + n))) E
      (lz4Copy n dest d s) := by
  unfold lz4Copy
  rw [load_ok (by omega), ok_bind, store_ok (by simpa using hsize), ends_ok]
  refine ⟨⟨rfl, fun i hi => dest.bytes.write_below _ hi⟩, ?_⟩
  intro hfar i hi hi'
  show dest.bytes.write d _ i = dest.bytes.write d _ (i - (d - s))
  rw [dest.bytes.write_slice dest.bytes hi hi',
    dest.bytes.write_below _ (show i - (d - s) < d by omega)]
  congr 1
  omega

/-- Copying byte by byte makes the region repeat, at any distance. -/
theorem copyBytes_spec (dest : Region) {op match_ : Nat} (n : Nat)
    (hsize : op + n ≤ dest.size) (hle : match_ ≤ op) :
    Ends (fun r => Kept dest r op
      ∧ (match_ < op → Repeats r.bytes (op - match_) op (op + n))) E
      (copyBytes dest op match_ n) := by
  induction n generalizing dest op match_ with
  | zero =>
      rw [copyBytes, ends_pure]
      exact ⟨Kept.refl dest op, fun _ => Repeats.empty _ _ _⟩
  | succ n ih =>
      rw [copyBytes, byte_ok (by omega), ok_bind]
      refine (store_spec dest (by simpa using by omega)).bind ?_
      intro r₁ h₁
      obtain ⟨hkept, hval, -⟩ := h₁
      have hfirst : r₁.bytes op = dest.bytes match_ := by
        simpa [Mem.slice] using hval
      refine (ih r₁ (by rw [hkept.size]; omega) (by omega)).mono ?_
        (fun _ h => h)
      intro r h
      obtain ⟨hkept', hrep⟩ := h
      refine ⟨hkept.trans hkept' (by omega), ?_⟩
      intro hlt
      have hrest := hrep (by omega)
      rw [show op + 1 - (match_ + 1) = op - match_ by omega,
        show op + 1 + n = op + (n + 1) by omega] at hrest
      apply Repeats.append (b := op + 1) _ hrest
      intro i hi hi'
      have heq : i = op := by omega
      rw [heq, hkept'.below op (by omega), hfirst,
        hkept'.below (op - (op - match_)) (by omega),
        hkept.below (op - (op - match_)) (by omega)]
      congr 1
      omega

/-- How far the steps of a wild copy go. -/
theorem lz4WildCopy_source (source dest : Region) {d s e : Nat}
    (hs : s + 8 ≤ source.size) (hse : s + (e - d) + 7 ≤ source.size)
    (hd : d + 8 ≤ dest.size) (he : e + 7 ≤ dest.size) :
    Ends (fun r => Kept dest r d
      ∧ ∀ i, d ≤ i → i < e → r.bytes i = source.bytes (s + (i - d))) E
      (lz4WildCopy (fun _ => source) dest d s e) := by
  induction hn : e - d using Nat.strongRecOn generalizing dest d s with
  | ind n ih =>
      rw [lz4WildCopy, load_ok hs, ok_bind, store_ok (by simpa using hd), ok_bind]
      have hkept : Kept dest
          { dest with bytes := dest.bytes.write d (source.bytes.slice s 8) } d :=
        ⟨rfl, fun i hi => dest.bytes.write_below _ hi⟩
      have hval : ∀ i, d ≤ i → i < d + 8 →
          dest.bytes.write d (source.bytes.slice s 8) i
            = source.bytes (s + (i - d)) :=
        fun i hi hi' => dest.bytes.write_slice source.bytes hi hi'
      split
      next hlt =>
        refine (ih (e - (d + 8)) (by omega)
          { dest with bytes := dest.bytes.write d (source.bytes.slice s 8) }
          (d := d + 8) (s := s + 8) (by omega) (by omega)
          (by show d + 8 + 8 ≤ dest.size; omega) he rfl).mono ?_ (fun _ h => h)
        intro r h
        obtain ⟨hkept', hrest⟩ := h
        refine ⟨hkept.trans hkept' (by omega), ?_⟩
        intro i hi hi'
        by_cases hin : i < d + 8
        · rw [hkept'.below i hin]
          exact hval i hi hin
        · rw [hrest i (by omega) hi']
          congr 1
          omega
      next hge =>
        rw [ends_pure]
        exact ⟨hkept, fun i hi hi' => hval i hi (by omega)⟩

/-- A wild copy within the region. From a distance of at least 8 it makes
the region repeat; a shorter one reads what the step before wrote. -/
theorem lz4WildCopy_self (dest : Region) {d s e : Nat} (hle : s ≤ d)
    (hd : d + 8 ≤ dest.size) (he : e + 7 ≤ dest.size) :
    Ends (fun r => Kept dest r d
      ∧ (8 ≤ d - s → Repeats r.bytes (d - s) d e)) E
      (lz4WildCopy id dest d s e) := by
  induction hn : e - d using Nat.strongRecOn generalizing dest d s with
  | ind n ih =>
      rw [lz4WildCopy, id, load_ok (by omega), ok_bind,
        store_ok (by simpa using hd), ok_bind]
      have hkept : Kept dest
          { dest with bytes := dest.bytes.write d (dest.bytes.slice s 8) } d :=
        ⟨rfl, fun i hi => dest.bytes.write_below _ hi⟩
      have hfirst : 8 ≤ d - s →
          Repeats (dest.bytes.write d (dest.bytes.slice s 8)) (d - s) d (d + 8) := by
        intro hfar i hi hi'
        rw [dest.bytes.write_slice dest.bytes hi hi',
          dest.bytes.write_below _ (show i - (d - s) < d by omega)]
        congr 1
        omega
      split
      next hlt =>
        refine (ih (e - (d + 8)) (by omega)
          { dest with bytes := dest.bytes.write d (dest.bytes.slice s 8) }
          (d := d + 8) (s := s + 8) (by omega)
          (by show d + 8 + 8 ≤ dest.size; omega) he rfl).mono ?_ (fun _ h => h)
        intro r h
        obtain ⟨hkept', hrest⟩ := h
        refine ⟨hkept.trans hkept' (by omega), ?_⟩
        intro hfar
        have hrest := hrest (by omega)
        rw [show d + 8 - (s + 8) = d - s by omega] at hrest
        exact (hkept'.repeats (hfirst hfar) (Nat.le_refl _)).append hrest
      next hge =>
        rw [ends_pure]
        exact ⟨hkept, fun hfar => (hfirst hfar).mono (Nat.le_refl d) (by omega)⟩

end Yrmcds
