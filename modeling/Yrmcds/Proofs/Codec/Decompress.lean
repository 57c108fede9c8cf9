/-
`LZ4_decompress_safe` against the block format.

`lz4DecompressSafe_spec` says all there is to say about an input of which
two bytes can be read: the call stays in bounds, it returns a size
exactly for the blocks that fit, the size is the block's, and unless an
offset of the block is zero the output is the block's expansion. For an
output of exactly the announced size, what fits is what the format
allows, and zero offsets (`fits_size_iff`).

The two bytes matter: the decoder reads a token, and perhaps a length
byte, before it looks at the size of its input
(`lz4DecompressSafe_fault_iff`).
-/
import Yrmcds.Proofs.Codec.Decode

namespace Yrmcds

open Checked Region Lengths

-- ======================================================= what fits where

/-- A block can be taken apart again. -/
theorem Block.encode_def (b : Block) :
    b.encode = encodeFrom b.sequences b.last b.spare := rfl

theorem length_encodeFrom_ge (seqs : List Sequence) (last : List UInt8)
    (spare : Nat) :
    3 * seqs.length + 1 + last.length
      ≤ (encodeFrom seqs last spare).length := by
  induction seqs with
  | nil =>
      rw [encodeFrom_nil, length_encodeLast, List.length_nil]
      omega
  | cons s seqs ih =>
      have hlen := s.length_encode
      rw [s.length_encodeMatch] at hlen
      rw [encodeFrom_cons, List.length_append, List.length_cons]
      omega

/-- No offset of a block is zero. -/
def Block.NoZero (b : Block) : Prop :=
  ∀ s ∈ b.sequences, 1 ≤ s.offset.toNat

/-- How much sequences append. -/
def sizes (seqs : List Sequence) : Nat :=
  ((seqs.map Sequence.lz).map Lz77.Sequence.size).sum

@[simp] theorem sizes_nil : sizes [] = 0 := rfl

@[simp] theorem sizes_cons (s : Sequence) (seqs : List Sequence) :
    sizes (s :: seqs) = s.lz.size + sizes seqs := by
  simp [sizes]

theorem Block.size_def (b : Block) : b.size = sizes b.sequences + b.last.length :=
  rfl

variable {last : List UInt8} {spare oend op : Nat}

/-- References that fit and are not zero are valid. -/
theorem Fits.valid {seqs : List Sequence} (h : Fits oend last spare op seqs)
    (hpos : ∀ s ∈ seqs, 1 ≤ s.offset.toNat) :
    Lz77.Valid op (seqs.map Sequence.lz) := by
  induction seqs generalizing op with
  | nil => trivial
  | cons s seqs ih =>
      obtain ⟨hs, hrest⟩ := h
      refine ⟨⟨hpos s (by simp), hs.offset⟩, ih hrest ?_⟩
      intro s' hs'
      exact hpos s' (by simp [hs'])

/-- The last sequence is among the sequences. -/
theorem sizes_ge_last {seqs : List Sequence} {s : Sequence}
    (h : seqs.getLast? = some s) : s.matchLength ≤ sizes seqs := by
  induction seqs with
  | nil => cases h
  | cons s' seqs ih =>
      rw [sizes_cons, s'.size_lz]
      cases seqs with
      | nil =>
          obtain rfl : s' = s := by simpa using h
          omega
      | cons s'' seqs =>
          have := ih (by simpa using h)
          omega

theorem EndsWell.tail {s : Sequence} {seqs : List Sequence}
    (h : EndsWell (s :: seqs) last) : EndsWell seqs last := by
  refine ⟨fun _ => h.lastLiterals (by simp), ?_⟩
  intro s' hs'
  apply h.lastMatch
  cases seqs with
  | nil => cases hs'
  | cons s'' seqs => simpa using hs'

/-- With the format's rules kept, everything fits that the output has
room for. -/
theorem Fits.of_endsWell {seqs : List Sequence} (h : EndsWell seqs last)
    (hvalid : Lz77.Valid op (seqs.map Sequence.lz))
    (hsize : op + sizes seqs + last.length ≤ oend) :
    Fits oend last spare op seqs := by
  induction seqs generalizing op with
  | nil => exact hsize
  | cons s seqs ih =>
      have hll : LASTLITERALS = 5 := rfl
      have hmf : MFLIMIT = 12 := rfl
      have hlast := h.lastLiterals (by simp)
      have hrest := length_encodeFrom_ge seqs last spare
      have hmatch := s.length_encodeMatch
      have hsz := s.size_lz
      rw [sizes_cons] at hsize
      obtain ⟨⟨hpos, hle⟩, hvalid⟩ := hvalid
      refine ⟨⟨?_, by omega, hle, fun _ => by omega, by omega⟩,
        ih h.tail hvalid (by omega)⟩
      -- the last match is this one, or comes behind it
      obtain ⟨s', hs'⟩ : ∃ s', (s :: seqs).getLast? = some s' :=
        ⟨_, List.getLast?_eq_some_getLast (by simp)⟩
      have hend := h.lastMatch s' hs'
      cases seqs with
      | nil =>
          obtain rfl : s = s' := by simpa using hs'
          omega
      | cons s'' seqs =>
          have := sizes_ge_last (by simpa using hs' : (s'' :: seqs).getLast? = some s')
          omega

/-- In an output of exactly the right size, the format's rules are
needed. -/
theorem Fits.endsWell {seqs : List Sequence} (h : Fits oend last spare op seqs)
    (hsize : op + sizes seqs + last.length = oend) : EndsWell seqs last := by
  induction seqs generalizing op with
  | nil =>
      refine ⟨fun hne => absurd rfl hne, ?_⟩
      intro s hs
      cases hs
  | cons s seqs ih =>
      obtain ⟨hs, hrest⟩ := h
      have hsz := s.size_lz
      rw [sizes_cons] at hsize
      have htail := ih hrest (by omega)
      have hlit := hs.literals
      have hmatch := hs.match_
      cases seqs with
      | nil =>
          rw [sizes_nil] at hsize
          refine ⟨fun _ => by omega, ?_⟩
          intro s' hs'
          obtain rfl : s = s' := by simpa using hs'
          omega
      | cons s'' seqs =>
          refine ⟨fun _ => htail.lastLiterals (by simp), ?_⟩
          intro s' hs'
          exact htail.lastMatch s' (by simpa using hs')

/-- A well-formed block fits an output that is large enough. -/
theorem Block.WellFormed.fits {b : Block} (h : b.WellFormed)
    (hsize : b.size ≤ oend) : b.Fits oend := by
  apply Fits.of_endsWell h.toEndsWell h.offsets
  rw [b.size_def] at hsize
  omega

/-- An output of exactly the right size takes the well-formed blocks, and
those with zero offsets. -/
theorem Block.fits_size_iff {b : Block} (hpos : b.NoZero) :
    b.Fits b.size ↔ b.WellFormed := by
  constructor
  · intro h
    have hend := Fits.endsWell h (by rw [b.size_def]; omega)
    exact ⟨hend, Fits.valid h hpos⟩
  · intro h
    exact h.fits (Nat.le_refl _)

-- ========================================================== the function

variable {source dest : Region}

/-- What the decoder asks of a block: that it fits, and of the block that
decodes to nothing into nothing that its spare half byte is zero. -/
def Block.Accepted (b : Block) (max : Nat) : Prop :=
  b.Fits max ∧ (max = 0 → b.spare = 0)

/-- What is returned for a block. -/
structure Block.Decoded (b : Block) (dest : Region) (r : Nat × Region) : Prop where
  size : r.1 = b.size
  region : r.2.size = dest.size
  output : b.NoZero → r.2.bytes.slice 0 r.1 = b.expand

/-- The block that fits into nothing is a token. -/
theorem Block.fits_zero {b : Block} (h : b.Fits 0) :
    b = ⟨[], [], b.spare⟩ := by
  obtain ⟨seqs, last, spare⟩ := b
  cases seqs with
  | nil =>
      have hlen : 0 + last.length ≤ 0 := h
      have hlast : last = [] := List.eq_nil_of_length_eq_zero (by omega)
      rw [hlast]
  | cons s seqs =>
      have hlit := h.1.literals
      have hmf : MFLIMIT = 12 := rfl
      omega

/-- A lone token. -/
theorem encode_token (spare : Fin 16) :
    (Block.mk [] [] spare).encode = [UInt8.ofNat spare] := by
  show [pack (nibble 0) spare] = _
  rw [pack, nibble_of_lt (by omega), Nat.zero_mul, Nat.zero_add]

/-- The whole loop. -/
theorem decodeLoop_start {iend oend : Int} (hsize : iend ≤ source.size)
    (h2 : 2 ≤ source.size) (hoend : oend ≤ dest.size) :
    Ends (fun _ => ∃ seqs last spare, spare < 16
        ∧ ((encodeFrom seqs last spare).length : Int) = iend
        ∧ source.bytes.slice 0 (encodeFrom seqs last spare).length
          = encodeFrom seqs last spare
        ∧ 0 ≤ oend ∧ Fits oend.toNat last spare 0 seqs) (· < 0)
      (decodeLoop source iend oend (iend.toNat + 1) ⟨0, 0, dest⟩) := by
  have h := decodeLoop_spec (c := ⟨0, 0, dest⟩) hsize h2 hoend (by
      show (iend - (0 : Nat)).toNat < iend.toNat + 1
      omega)
  simpa using h

/-- The whole loop, on a block that fits. -/
theorem decodeLoop_block {b : Block} {n max : Nat} (hn : n ≤ source.size)
    (hmax : max ≤ dest.size) (hbytes : source.bytes.slice 0 n = b.encode)
    (hfits : b.Fits max) :
    Ends (TakesAll b.sequences b.last ⟨0, 0, dest⟩) (fun _ => False)
      (decodeLoop source n max (n + 1) ⟨0, 0, dest⟩) := by
  have hlen := congrArg List.length hbytes
  have hge := length_encodeFrom_ge b.sequences b.last b.spare
  rw [Mem.length_slice, b.encode_def] at hlen
  exact decodeLoop_eq (c := ⟨0, 0, dest⟩) hbytes b.spare.isLt hfits hmax hn
    (by omega)

/-- What has been taken of a block that fits. -/
theorem Block.decoded {b : Block} {max : Nat} {c : Cursor} (hfits : b.Fits max)
    (h : TakesAll b.sequences b.last ⟨0, 0, dest⟩ c) :
    b.Decoded dest (c.op, c.dest) := by
  refine ⟨?_, h.size, ?_⟩
  · have hop := h.op
    rw [b.size_def, sizes]
    dsimp only at hop ⊢
    omega
  · intro hpos
    exact h.output (Fits.valid hfits hpos)

/-- A block that fits is decoded, and to nothing but its expansion. -/
theorem lz4DecompressSafe_accepted {b : Block} {n max : Nat}
    (hn : n ≤ source.size) (hmax : max ≤ dest.size)
    (hbytes : source.bytes.slice 0 n = b.encode) (hacc : b.Accepted max) :
    Ends (b.Decoded dest) (fun _ => False)
      (lz4DecompressSafe source dest n max) := by
  by_cases h0 : max = 0
  · subst h0
    have hb := Block.fits_zero hacc.1
    rw [hacc.2 rfl] at hb
    rw [hb, encode_token] at hbytes
    have hlen := congrArg List.length hbytes
    rw [Mem.length_slice] at hlen
    obtain rfl : n = 1 := hlen
    rw [Mem.slice_cons, Mem.slice_zero] at hbytes
    injection hbytes with hzero
    replace hzero : source.bytes 0 = 0 := hzero
    rw [lz4DecompressSafe, if_pos (by rfl), if_pos (by rfl), byte_ok (by omega),
      ok_bind, if_pos hzero, ends_pure, hb]
    exact ⟨rfl, rfl, fun _ => rfl⟩
  · rw [lz4DecompressSafe, if_neg (by omega)]
    have hfuel : ((n : Int).toNat + 1) = n + 1 := by omega
    rw [hfuel]
    refine (decodeLoop_block hn hmax hbytes hacc.1).bind ?_
    intro c hc
    exact ends_pure.mpr (Block.decoded hacc.1 hc)

/-- The decoder stays in bounds and decodes exactly the blocks that fit. -/
theorem lz4DecompressSafe_spec {n max : Nat} (hn : n ≤ source.size)
    (h2 : 2 ≤ source.size) (hmax : max ≤ dest.size) :
    Ends (fun r => ∃ b : Block, source.bytes.slice 0 n = b.encode
        ∧ b.Accepted max ∧ b.Decoded dest r)
      (fun e => e < 0 ∧ ∀ b : Block, source.bytes.slice 0 n = b.encode →
        ¬ b.Accepted max)
      (lz4DecompressSafe source dest n max) := by
  by_cases h0 : max = 0
  · subst h0
    rw [lz4DecompressSafe, if_pos (by rfl)]
    by_cases h1 : n = 1
    · subst h1
      rw [if_pos (by rfl), byte_ok (by omega), ok_bind]
      by_cases hb : source.bytes 0 = 0
      · rw [if_pos hb, ends_pure]
        refine ⟨⟨[], [], 0⟩, ?_, ⟨by show 0 + 0 ≤ 0; omega, fun _ => rfl⟩, rfl, rfl,
          fun _ => rfl⟩
        rw [encode_token, Mem.slice_cons, Mem.slice_zero, hb]
        rfl
      · rw [if_neg hb, outputError, ends_error]
        refine ⟨by omega, ?_⟩
        intro b hbytes hacc
        have hb' := Block.fits_zero hacc.1
        rw [hb', encode_token, Mem.slice_cons, Mem.slice_zero] at hbytes
        injection hbytes with hbytes
        rw [hacc.2 rfl] at hbytes
        exact hb hbytes
    · rw [if_neg (by omega), outputError, ends_error]
      refine ⟨by omega, ?_⟩
      intro b hbytes hacc
      have hb' := Block.fits_zero hacc.1
      rw [hb', encode_token] at hbytes
      have hlen := congrArg List.length hbytes
      simp at hlen
      omega
  · rw [lz4DecompressSafe, if_neg (by omega)]
    have hfuel : ((n : Int).toNat + 1) = n + 1 := by omega
    rw [hfuel]
    have hspec := @decodeLoop_start source dest n max (by omega) h2 (by omega)
    rw [hfuel] at hspec
    -- what a block that fits decodes to
    have hread : ∀ b : Block, source.bytes.slice 0 n = b.encode → b.Fits max →
        Ends (TakesAll b.sequences b.last ⟨0, 0, dest⟩) (fun _ => False)
          (decodeLoop source n max (n + 1) ⟨0, 0, dest⟩) :=
      fun b hbytes hfits => decodeLoop_block hn hmax hbytes hfits
    generalize decodeLoop source n max (n + 1) ⟨0, 0, dest⟩ = x at hspec hread
    cases hspec with
    | ok h =>
        obtain ⟨seqs, last, spare, hspare, hend, hbytes, -, hfits⟩ := h
        have hn' : (encodeFrom seqs last spare).length = n := by omega
        rw [hn'] at hbytes
        have htakes := ends_ok.mp (hread ⟨seqs, last, ⟨spare, hspare⟩⟩ hbytes hfits)
        rw [ok_bind, ends_pure]
        exact ⟨⟨seqs, last, ⟨spare, hspare⟩⟩, hbytes,
          ⟨hfits, fun h => absurd h h0⟩, Block.decoded hfits htakes⟩
    | error h =>
        rw [error_bind, ends_error]
        refine ⟨h, ?_⟩
        intro b hbytes hacc
        exact ends_error.mp (hread b hbytes hacc.1)

/-- With a negative size on either side nothing is decoded. -/
theorem lz4DecompressSafe_negative {n max : Int} (hn : n ≤ source.size)
    (h2 : 2 ≤ source.size) (hmax : max ≤ dest.size) (hneg : n < 0 ∨ max < 0) :
    Ends (fun _ => False) (· < 0) (lz4DecompressSafe source dest n max) := by
  rw [lz4DecompressSafe]
  split
  next h0 =>
    rw [if_neg (by omega)]
    exact ends_outputError 0
  next h0 =>
    refine Ends.bind (P := fun _ => False) ?_ (fun _ h => False.elim h)
    refine (decodeLoop_start hn h2 hmax).mono ?_ (fun _ h => h)
    intro _ h
    obtain ⟨seqs, last, spare, -, hend, -, hpos, -⟩ := h
    omega

/-- With two readable bytes the decoder stays in bounds, whatever the
input. -/
theorem lz4DecompressSafe_inside {n max : Int} (hn : n ≤ source.size)
    (h2 : 2 ≤ source.size) (hmax : max ≤ dest.size) :
    Ends (fun _ => True) (· < 0) (lz4DecompressSafe source dest n max) := by
  by_cases hneg : n < 0 ∨ max < 0
  · exact (lz4DecompressSafe_negative hn h2 hmax hneg).mono
      (fun _ h => False.elim h) (fun _ h => h)
  · obtain ⟨n, rfl⟩ : ∃ k : Nat, n = k := ⟨n.toNat, by omega⟩
    obtain ⟨max, rfl⟩ : ∃ k : Nat, max = k := ⟨max.toNat, by omega⟩
    exact (lz4DecompressSafe_spec (by omega) h2 (by omega)).mono
      (fun _ _ => trivial) (fun _ h => h.1)

/-- A lone token that announces a length byte: the byte is missing. -/
theorem decodeSequence_fault {n max : Int} (h1 : source.size = 1)
    (hlong : 240 ≤ (source.bytes 0).toNat) :
    decodeSequence source n max ⟨0, 0, dest⟩ = .error .fault := by
  have hlt := (source.bytes 0).toNat_lt
  have hrun : (source.bytes 0).toNat / 16 = RUN_MASK := by
    show _ = 15
    omega
  rw [decodeSequence, byte_ok (i := 0) (by omega), ok_bind, literalLength]
  dsimp only
  rw [if_pos hrun, literalRun, byte_fault (by omega), error_bind, error_bind]

/-- Any other lone token is the end of the input. -/
theorem decodeSequence_token {n max : Int} (hn : n ≤ 1) (h1 : source.size = 1)
    (hshort : (source.bytes 0).toNat < 240) :
    Ends (fun round => ∃ c, round = .done c) (· < 0)
      (decodeSequence source n max ⟨0, 0, dest⟩) := by
  have hll : LASTLITERALS = 5 := rfl
  have hrun : ¬ (source.bytes 0).toNat / 16 = RUN_MASK := by
    show ¬ _ = 15
    omega
  rw [decodeSequence, byte_ok (i := 0) (by omega), ok_bind, literalLength]
  dsimp only
  rw [if_neg hrun, pure_bind]
  dsimp only
  rw [if_pos (by right; omega)]
  split
  next => exact ends_outputError _
  next hfits =>
    have hzero : (source.bytes 0).toNat / 16 = 0 := by
      by_contra hne
      exact hfits (.inl (by push_cast; omega))
    rw [hzero, load_ok (by omega), ok_bind]
    exact (store_spec dest (by simp)).bind
      fun _ _ => ends_pure.mpr ⟨_, rfl⟩

/-- An input that ends before what the first sequence starts with: the token,
and the length byte it announces. -/
def Region.Stops (source : Region) : Prop :=
  source.size = 0 ∨ source.size = 1 ∧ 240 ≤ (source.bytes 0).toNat

/-- The decoder reads on behind such an input, unless nothing is to be
decoded. -/
theorem lz4DecompressSafe_leaves {n max : Int} (h0 : max ≠ 0)
    (hstops : source.Stops) :
    lz4DecompressSafe source dest n max = .error .fault := by
  rw [lz4DecompressSafe, if_neg h0, decodeLoop]
  obtain hempty | ⟨h1, hlong⟩ := hstops
  · rw [decodeSequence, byte_fault (by show _ ≤ 0; omega), error_bind,
      error_bind, error_bind]
  · rw [decodeSequence_fault h1 hlong, error_bind, error_bind]

/-- It stays inside every other input. -/
theorem lz4DecompressSafe_stays {n max : Int} (hn : n ≤ source.size)
    (hmax : max ≤ dest.size) (h : max = 0 ∨ ¬ source.Stops) :
    lz4DecompressSafe source dest n max ≠ .error .fault := by
  by_cases h2 : 2 ≤ source.size
  · exact (lz4DecompressSafe_inside hn h2 hmax).ne_fault
  rw [lz4DecompressSafe]
  by_cases h0 : max = 0
  · rw [if_pos h0]
    refine Ends.ne_fault (P := fun _ => True) (E := (· < 0)) ?_
    split
    next h1 =>
      rw [byte_ok (by omega), ok_bind]
      split
      next => exact ends_pure.mpr trivial
      next => exact ends_outputError 0
    next => exact ends_outputError 0
  · rw [if_neg h0, decodeLoop]
    obtain ⟨hempty, hlone⟩ := not_or.mp (h.resolve_left h0)
    have h1 : source.size = 1 := by omega
    have hshort : (source.bytes 0).toNat < 240 := by omega
    refine Ends.ne_fault (P := fun _ => True) (E := (· < 0)) ?_
    refine Ends.bind (P := fun _ => True) ?_ fun _ _ => ends_pure.mpr trivial
    refine (decodeSequence_token (by omega) h1 hshort).bind ?_
    intro round h
    obtain ⟨c, rfl⟩ := h
    exact ends_pure.mpr trivial

/-- The decoder leaves its input exactly when it is given no byte to read
the token from, or a lone token that announces a length byte. -/
theorem lz4DecompressSafe_fault_iff {n max : Int} (hn : n ≤ source.size)
    (hmax : max ≤ dest.size) :
    lz4DecompressSafe source dest n max = .error .fault
      ↔ max ≠ 0 ∧ (source.size = 0
        ∨ source.size = 1 ∧ 240 ≤ (source.bytes 0).toNat) := by
  constructor
  · intro h
    by_contra hno
    refine lz4DecompressSafe_stays hn hmax ?_ h
    by_cases h0 : max = 0
    · exact .inl h0
    · exact .inr fun hstops => hno ⟨h0, hstops⟩
  · rintro ⟨h0, hstops⟩
    exact lz4DecompressSafe_leaves h0 hstops

/-- The length byte of a lone token is not there. -/
theorem lz4DecompressSafe_fault_lone :
    lz4DecompressSafe ⟨1, fun _ => 0xf0⟩ ⟨8, fun _ => 0⟩ 1 8 = .error .fault :=
  (lz4DecompressSafe_fault_iff (by decide) (by decide)).mpr
    ⟨by decide, .inr ⟨rfl, by decide⟩⟩

-- ============================================================ exactness

/-- The decoder is exact. A block that fits is decoded to its own size and,
if no offset is zero, to its expansion; anything else is refused with a
negative value. -/
theorem lz4DecompressSafe_exact {n max : Nat} (hn : n ≤ source.size)
    (h2 : 2 ≤ source.size) (hmax : max ≤ dest.size) :
    (∀ b : Block, source.bytes.slice 0 n = b.encode → b.Accepted max →
      ∃ r, lz4DecompressSafe source dest n max = .ok r ∧ b.Decoded dest r)
    ∧ ((∀ b : Block, source.bytes.slice 0 n = b.encode → ¬ b.Accepted max) →
      ∃ e, e < 0 ∧ lz4DecompressSafe source dest n max = .error (.error e)) := by
  constructor
  · intro b hbytes hacc
    exact (lz4DecompressSafe_accepted hn hmax hbytes hacc).value
  · intro hnone
    have hspec := @lz4DecompressSafe_spec source dest n max hn h2 hmax
    generalize lz4DecompressSafe source dest n max = x at hspec
    cases hspec with
    | ok h =>
        obtain ⟨b, hbytes, hacc, -⟩ := h
        exact absurd hacc (hnone b hbytes)
    | error h => exact ⟨_, h.1, rfl⟩

/-- The announced size is met exactly by the blocks that keep the rules of
the format and have that size. -/
theorem lz4DecompressSafe_conforms {n max : Nat} {b : Block}
    (hn : n ≤ source.size) (h2 : 2 ≤ source.size) (hmax : max ≤ dest.size)
    (hbytes : source.bytes.slice 0 n = b.encode) (hpos : b.NoZero)
    (h0 : 0 < max) :
    (∃ r, lz4DecompressSafe source dest n max = .ok r ∧ r.1 = max)
      ↔ b.WellFormed ∧ b.size = max := by
  constructor
  · intro h
    obtain ⟨r, hr, hsize⟩ := h
    have hspec := @lz4DecompressSafe_spec source dest n max hn h2 hmax
    rw [hr, ends_ok] at hspec
    obtain ⟨b', hbytes', hacc, hdec⟩ := hspec
    obtain rfl : b = b' := Block.encode_injective (hbytes.symm.trans hbytes')
    have hall : b.size = max := by rw [← hdec.size, hsize]
    have hfits : b.Fits b.size := by rw [hall]; exact hacc.1
    exact ⟨(Block.fits_size_iff hpos).mp hfits, hall⟩
  · intro h
    obtain ⟨hwf, hsize⟩ := h
    have hacc : b.Accepted max :=
      ⟨hwf.fits (by omega), fun h => absurd h (by omega)⟩
    obtain ⟨r, hr, hdec⟩ :=
      (lz4DecompressSafe_accepted hn hmax hbytes hacc).value
    exact ⟨r, hr, hdec.size.trans hsize⟩

/-- One letter eight times, and five more: a block with an overlapping
match. -/
def overlapping : Block := ⟨[⟨[97], 1, 3⟩], List.replicate 5 98, 0⟩

/-- Its bytes, in memory. -/
def overlappingBytes : Region :=
  ⟨10, fun i => [0x13, 97, 1, 0, 0x50, 98, 98, 98, 98, 98].getD i 0⟩

theorem overlapping_wellFormed : overlapping.WellFormed where
  lastLiterals _ := Nat.le_refl 5
  lastMatch s hs := by
    obtain rfl : Sequence.mk [97] 1 3 = s := by simpa [overlapping] using hs
    exact Nat.le_refl 12
  offsets := ⟨⟨Nat.le_refl 1, Nat.le_refl 1⟩, trivial⟩

theorem overlapping_noZero : overlapping.NoZero := by
  intro s hs
  obtain rfl : s = Sequence.mk [97] 1 3 := by simpa [overlapping] using hs
  exact Nat.le_refl 1

theorem lz4DecompressSafe_exact_overlapping :
    ∃ r, lz4DecompressSafe overlappingBytes ⟨13, fun _ => 0⟩ (10 : Nat) (13 : Nat)
      = .ok r ∧ overlapping.Decoded ⟨13, fun _ => 0⟩ r :=
  (@lz4DecompressSafe_exact overlappingBytes ⟨13, fun _ => 0⟩ 10 13 (by decide)
    (by decide) (by decide)).1 overlapping (by decide)
    ⟨overlapping_wellFormed.fits (by decide), fun h => by cases h⟩

theorem lz4DecompressSafe_conforms_overlapping :
    ∃ r, lz4DecompressSafe overlappingBytes ⟨13, fun _ => 0⟩ (10 : Nat) (13 : Nat)
      = .ok r ∧ r.1 = 13 :=
  (lz4DecompressSafe_conforms (by decide) (by decide) (by decide)
    (by decide : overlappingBytes.bytes.slice 0 10 = overlapping.encode)
    overlapping_noZero (by decide)).mpr ⟨overlapping_wellFormed, by decide⟩

end Yrmcds
