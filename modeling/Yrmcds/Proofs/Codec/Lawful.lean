/-
The codec keeps every promise its callers rely on.

`Lz4.Lawful` is what the rest of the development assumes of a codec. Here
it is proved of the one the library is built with, whatever fresh memory
holds (`lz4_lawful`), so that every result about an arbitrary lawful
codec is one about libyrmcds.
-/
import Yrmcds.Model.Codec.Codec
import Yrmcds.Proofs.Codec.Compress

namespace Yrmcds

open Checked

variable {fresh junk src : Mem} {n : Int} {max : Nat} {out : List UInt8}

/-- A region sees the front of its memory. -/
theorem Region.of_slice {m : Mem} {size n : Nat} (h : n ≤ size) :
    (Region.of m size).bytes.slice 0 n = m.slice 0 n := by
  apply Mem.slice_congr
  intro i hi
  exact if_pos (by omega)

/-- Memories that agree in front make one region. -/
theorem Region.of_congr {m m' : Mem} {size : Nat}
    (h : ∀ i < size, m i = m' i) : Region.of m size = Region.of m' size := by
  unfold Region.of
  congr 1
  funext i
  split
  next hi => exact h i hi
  next => rfl

-- ============================================================== decoding

/-- The decoder on any input: what it decodes is a block that fits. -/
theorem lz4DecompressBlock_spec (junk src : Mem) (n max : Nat) :
    Ends (fun r => ∃ b : Block, src.slice 0 n = b.encode
        ∧ b.Accepted max ∧ b.Decoded ⟨max, junk⟩ r)
      (fun e => e < 0 ∧ ∀ b : Block, src.slice 0 n = b.encode →
        ¬ b.Accepted max)
      (lz4DecompressBlock junk src n max) := by
  have hmax : n ≤ Nat.max 2 n := Nat.le_max_right 2 n
  have h2 : 2 ≤ Nat.max 2 n := Nat.le_max_left 2 n
  have h := @lz4DecompressSafe_spec (Region.of src (Nat.max 2 n)) ⟨max, junk⟩
    n max hmax h2 (Nat.le_refl _)
  rw [Region.of_slice hmax] at h
  rw [lz4DecompressBlock, Int.toNat_natCast]
  exact h

/-- The bytes decoded, and from what. -/
theorem decompressSafe_some {n : Nat}
    (h : (lz4 fresh junk).decompressSafe src n max = some out) :
    ∃ b : Block, src.slice 0 n = b.encode ∧ b.Accepted max
      ∧ (b.NoZero → out = b.expand) := by
  have hspec := lz4DecompressBlock_spec junk src n max
  rw [lz4_decompressSafe] at h
  generalize lz4DecompressBlock junk src n max = x at h hspec
  cases hspec with
  | ok hr =>
      obtain ⟨b, hbytes, hacc, hdec⟩ := hr
      injection h with h
      exact ⟨b, hbytes, hacc, fun hpos => h.symm.trans (hdec.output hpos)⟩
  | error => cases h

/-- What is not decoded is no block that fits. -/
theorem decompressSafe_none {n : Nat}
    (h : (lz4 fresh junk).decompressSafe src n max = none) :
    ∀ b : Block, src.slice 0 n = b.encode → ¬ b.Accepted max := by
  have hspec := lz4DecompressBlock_spec junk src n max
  rw [lz4_decompressSafe] at h
  generalize lz4DecompressBlock junk src n max = x at h hspec
  cases hspec with
  | ok => cases h
  | error he => exact he.2

/-- From fewer than two bytes nothing is decoded, or the empty string. -/
theorem decompressSafe_short {n : Nat} (hn : n < 2)
    (h : (lz4 fresh junk).decompressSafe src n max = some out) : out = [] := by
  obtain ⟨b, hbytes, -, hout⟩ := decompressSafe_some h
  have hlen := congrArg List.length hbytes
  have hge := length_encodeFrom_ge b.sequences b.last b.spare
  rw [Mem.length_slice, b.encode_def] at hlen
  have hseqs : b.sequences = [] := List.eq_nil_of_length_eq_zero (by omega)
  have hlast : b.last = [] := List.eq_nil_of_length_eq_zero (by omega)
  rw [hout (fun s hs => by rw [hseqs] at hs; cases hs), Block.expand, Block.lz,
    hseqs, hlast]
  rfl

/-- Decoding depends on the input bytes only. -/
theorem decompressSafe_inside {src' : Mem} {n : Nat}
    (h : ∀ i < n, src i = src' i) :
    (lz4 fresh junk).decompressSafe src n max
      = (lz4 fresh junk).decompressSafe src' n max := by
  by_cases hn : n < 2
  · have hslice : src.slice 0 n = src'.slice 0 n := by
      apply Mem.slice_congr
      intro i hi
      exact h (0 + i) (by omega)
    cases hx : (lz4 fresh junk).decompressSafe src n max with
    | none =>
        cases hy : (lz4 fresh junk).decompressSafe src' n max with
        | none => rfl
        | some out' =>
            obtain ⟨b, hbytes, hacc, -⟩ := decompressSafe_some hy
            exact absurd hacc (decompressSafe_none hx b (hslice.trans hbytes))
    | some out =>
        cases hy : (lz4 fresh junk).decompressSafe src' n max with
        | none =>
            obtain ⟨b, hbytes, hacc, -⟩ := decompressSafe_some hx
            exact absurd hacc
              (decompressSafe_none hy b (hslice.symm.trans hbytes))
        | some out' =>
            rw [decompressSafe_short hn hx, decompressSafe_short hn hy]
  · have hmax : Nat.max 2 n = n := Nat.max_eq_right (by omega)
    have hblock : lz4DecompressBlock junk src n max
        = lz4DecompressBlock junk src' n max := by
      rw [lz4DecompressBlock, lz4DecompressBlock, Int.toNat_natCast, hmax,
        Region.of_congr h]
    rw [lz4_decompressSafe, hblock, lz4_decompressSafe]

/-- A block that fits is decoded to its expansion. -/
theorem decompressSafe_accepted {b : Block} {n : Nat}
    (hbytes : src.slice 0 n = b.encode) (hacc : b.Accepted max)
    (hpos : b.NoZero) :
    (lz4 fresh junk).decompressSafe src n max = some b.expand := by
  have hmax : n ≤ Nat.max 2 n := Nat.le_max_right 2 n
  rw [← Region.of_slice hmax] at hbytes
  have hspec := @lz4DecompressSafe_accepted (Region.of src (Nat.max 2 n))
    ⟨max, junk⟩ b n max hmax (Nat.le_refl _) hbytes hacc
  obtain ⟨r, hr, hdec⟩ := hspec.value
  have hblock : lz4DecompressBlock junk src n max = .ok r := by
    rw [lz4DecompressBlock, Int.toNat_natCast]
    exact hr
  rw [lz4_decompressSafe, hblock, outputBytes, hdec.output hpos]

/-- A negative size is refused. -/
theorem decompressSafe_negative (hneg : n < 0) :
    (lz4 fresh junk).decompressSafe src n max = none := by
  have hmax : n.toNat ≤ Nat.max 2 n.toNat := Nat.le_max_right 2 n.toNat
  have hspec := @lz4DecompressSafe_negative
    (Region.of src (Nat.max 2 n.toNat)) ⟨max, junk⟩ n max
    (by show n ≤ (Nat.max 2 n.toNat : Nat); omega) (Nat.le_max_left 2 n.toNat)
    (Int.le_refl _) (.inl hneg)
  have hblock : lz4DecompressBlock junk src n max
      = lz4DecompressSafe (Region.of src (Nat.max 2 n.toNat)) ⟨max, junk⟩ n max :=
    rfl
  rw [← hblock] at hspec
  rw [lz4_decompressSafe]
  generalize lz4DecompressBlock junk src n max = x at hspec
  cases hspec with
  | ok h => exact False.elim h
  | error => rfl

-- =========================================================== compressing

/-- The bytes of a list, read back. -/
theorem slice_getD (d : List UInt8) :
    Mem.slice (fun i => d.getD i 0) 0 d.length = d := by
  apply List.ext_getElem (by simp)
  intro i hi hi'
  simp [Mem.slice, List.getD, hi']

/-- What the compressor emits. -/
theorem compress_spec (fresh junk : Mem) {d : List UInt8}
    (hd : d.length ≤ LZ4_MAX_INPUT_SIZE) :
    ∃ b : Block, (lz4 fresh junk).compress d = b.encode ∧ b.WellFormed
      ∧ b.spare = 0 ∧ b.expand = d
      ∧ b.encode.length ≤ d.length + d.length / 255 + 2 := by
  have hspec : Ends (fun r => ∃ b, Compressed
      (Region.of (fun i => d.getD i 0) d.length)
      ⟨lz4CompressBound d.length, fresh⟩ d.length b r) (fun _ : Empty => False)
      (lz4CompressBlock fresh d) := by
    apply lz4Compress_spec hd
    · exact Nat.le_refl d.length
    · exact Nat.le_refl (lz4CompressBound d.length)
  obtain ⟨r, hr, b, hb⟩ := hspec.value
  have hcomp : (lz4 fresh junk).compress d = r.2.bytes.slice 0 r.1 := by
    rw [lz4_compress, hr, outputBytes, Option.getD_some]
  refine ⟨b, hcomp.trans hb.output, hb.wellFormed, hb.spare, ?_, ?_⟩
  · rw [hb.expand, Region.of_slice (Nat.le_refl _), slice_getD]
  · rw [← hb.length]
    exact hb.small

/-- References that are valid are not zero. -/
theorem noZero_of_valid {p : Nat} {seqs : List Sequence}
    (h : Lz77.Valid p (seqs.map Sequence.lz)) :
    ∀ s ∈ seqs, 1 ≤ s.offset.toNat := by
  induction seqs generalizing p with
  | nil =>
      intro s hs
      cases hs
  | cons s seqs ih =>
      obtain ⟨⟨hpos, -⟩, hrest⟩ := h
      intro s' hs'
      cases hs' with
      | head => exact hpos
      | tail _ hs' => exact ih hrest s' hs'

/-- The codec of the library is lawful. -/
theorem lz4_lawful (fresh junk : Mem) : (lz4 fresh junk).Lawful where
  neg _ _ _ hneg := decompressSafe_negative hneg
  inside _ _ _ _ h := decompressSafe_inside h
  round d src hd _ hsrc := by
    obtain ⟨b, hcomp, hwf, hspare, hexpand, -⟩ := compress_spec fresh junk hd
    rw [hcomp] at hsrc ⊢
    have hsize : b.size = d.length := by
      rw [← hexpand, b.length_expand hwf.offsets]
    rw [← hsize, ← hexpand]
    exact decompressSafe_accepted hsrc
      ⟨hwf.fits (Nat.le_refl _), fun _ => hspare⟩ (noZero_of_valid hwf.offsets)
  bound d hd := by
    obtain ⟨b, hcomp, -, -, -, hsmall⟩ := compress_spec fresh junk hd
    rw [hcomp, lz4CompressBound_eq hd]
    omega

-- ============================================================ round trip

/-- What the compressor makes of the first `n` bytes of a region, the
decoder makes into them again: from the region the block was left in, and
into any output with room for them. -/
theorem lz4_roundtrip {source dest dest' : Region} {n max : Nat}
    (hn : n ≤ LZ4_MAX_INPUT_SIZE) (hsize : n ≤ source.size)
    (hdest : lz4CompressBound n ≤ dest.size) (hmax : n ≤ max)
    (hdest' : max ≤ dest'.size) :
    ∃ r r', (lz4Compress source dest n : Checked Empty (Nat × Region)) = .ok r
      ∧ lz4DecompressSafe r.2 dest' r.1 max = .ok r'
      ∧ r'.1 = n ∧ r'.2.bytes.slice 0 n = source.bytes.slice 0 n := by
  have hspec : Ends (fun r => ∃ b, Compressed source dest n b r)
      (fun _ : Empty => False) (lz4Compress source dest n) :=
    lz4Compress_spec hn hsize hdest
  obtain ⟨r, hr, b, hb⟩ := hspec.value
  have hlen : b.size = n := by
    rw [← b.length_expand hb.wellFormed.offsets, hb.expand, Mem.length_slice]
  have hacc : b.Accepted max :=
    ⟨hb.wellFormed.fits (by omega), fun _ => hb.spare⟩
  have hroom : r.1 ≤ r.2.size := by
    rw [hb.region]
    rw [lz4CompressBound_eq hn] at hdest
    have := hb.small
    omega
  obtain ⟨r', hr', hdec⟩ :=
    (lz4DecompressSafe_accepted hroom hdest' hb.output hacc).value
  have hsize' : r'.1 = n := hdec.size.trans hlen
  refine ⟨r, r', hr, hr', hsize', ?_⟩
  have hout := hdec.output (noZero_of_valid hb.wellFormed.offsets)
  rw [hsize'] at hout
  rw [hout, hb.expand]

/-- Twenty equal bytes, most of which are a match, into an output with room
for more. -/
theorem lz4_roundtrip_twenty :
    ∃ r r', (lz4Compress ⟨20, fun _ => 97⟩ ⟨36, fun _ => 0⟩ (20 : Nat)
        : Checked Empty (Nat × Region)) = .ok r
      ∧ lz4DecompressSafe r.2 ⟨25, fun _ => 0⟩ r.1 (25 : Nat) = .ok r'
      ∧ r'.1 = 20 ∧ r'.2.bytes.slice 0 20 = Mem.slice (fun _ => 97) 0 20 :=
  lz4_roundtrip (by decide) (by decide) (by decide) (by decide) (by decide)

end Yrmcds
