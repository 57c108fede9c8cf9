/-
The LZ4 block format (`lz4/lz4_block_format.txt`).

A block is a list of sequences and the literals that end it. The types
leave out what the format cannot say: an offset is two bytes, a match has
four bytes and `surplus` more. The low half of the last token is not used;
`spare` is what it holds.

`Block.WellFormed` is the rest of the document. An offset is not zero
and does not reach in front of the output, the last five bytes are
literals, and the last match starts at least twelve bytes before the end.
-/
import Yrmcds.Lib.Endian
import Yrmcds.Lib.Lengths
import Yrmcds.Lib.Lz77
import Yrmcds.Model.Codec.Memory

namespace Yrmcds

open Endian Lengths

/-- A sequence of a block. -/
structure Sequence where
  literals : List UInt8
  offset : UInt16
  surplus : Nat
  deriving DecidableEq, Repr

/-- The length of the match. -/
def Sequence.matchLength (s : Sequence) : Nat := s.surplus + MINMATCH

/-- What the sequence means. -/
def Sequence.lz (s : Sequence) : Lz77.Sequence UInt8 :=
  ⟨s.literals, s.offset.toNat, s.matchLength⟩

/-- The bytes between the literals of a sequence and the next one. -/
def Sequence.encodeMatch (s : Sequence) : List UInt8 :=
  toLE 2 s.offset.toNat ++ extra s.surplus

/-- The bytes of a sequence. -/
def Sequence.encode (s : Sequence) : List UInt8 :=
  pack (nibble s.literals.length) (nibble s.surplus)
    :: (extra s.literals.length ++ s.literals ++ s.encodeMatch)

/-- The bytes of the literals that end a block. -/
def encodeLast (last : List UInt8) (spare : Nat) : List UInt8 :=
  pack (nibble last.length) spare :: (extra last.length ++ last)

/-- Sequences and the literals that end them. -/
def encodeFrom (seqs : List Sequence) (last : List UInt8) (spare : Nat) :
    List UInt8 :=
  seqs.flatMap Sequence.encode ++ encodeLast last spare

@[simp] theorem encodeFrom_nil (last : List UInt8) (spare : Nat) :
    encodeFrom [] last spare = encodeLast last spare := rfl

@[simp] theorem encodeFrom_cons (s : Sequence) (seqs : List Sequence)
    (last : List UInt8) (spare : Nat) :
    encodeFrom (s :: seqs) last spare
      = s.encode ++ encodeFrom seqs last spare := by
  simp [encodeFrom]

-- ================================================= unique readability

/-- Where a sequence ends is a matter of its own bytes. -/
theorem Sequence.encode_inj {s s' : Sequence} {xs ys : List UInt8}
    (h : s.encode ++ xs = s'.encode ++ ys) : s = s' ∧ xs = ys := by
  obtain ⟨lits, offset, surplus⟩ := s
  obtain ⟨lits', offset', surplus'⟩ := s'
  simp only [Sequence.encode, Sequence.encodeMatch, List.cons_append,
    List.append_assoc] at h
  injection h with htoken h
  obtain ⟨hlits, hsurplus⟩ := pack_inj (nibble_le _) (nibble_le _) (nibble_le _)
    (nibble_le _) htoken
  obtain ⟨hlen, h⟩ := extra_inj hlits h
  obtain ⟨rfl, hmatch⟩ := List.append_inj h hlen
  have hwidth : (toLE 2 offset.toNat).length = (toLE 2 offset'.toNat).length := by
    rw [length_toLE, length_toLE]
  obtain ⟨hoffset, hrest⟩ := List.append_inj hmatch hwidth
  obtain ⟨rfl, rfl⟩ := extra_inj hsurplus hrest
  have hnum := congrArg ofLE hoffset
  rw [ofLE_toLE_of_lt offset.toNat_lt, ofLE_toLE_of_lt offset'.toNat_lt] at hnum
  rw [UInt16.toNat_inj.mp hnum]
  exact ⟨rfl, rfl⟩

/-- The bytes that end a block are no sequence with more behind it. -/
theorem encodeLast_ne {last : List UInt8} {spare : Nat} {s : Sequence}
    {xs : List UInt8} (hspare : spare < 16) :
    encodeLast last spare ≠ s.encode ++ xs := by
  intro h
  have hlen := congrArg List.length h
  simp only [encodeLast, Sequence.encode, Sequence.encodeMatch, List.cons_append,
    List.append_assoc] at h
  injection h with htoken h
  obtain ⟨hlits, -⟩ := pack_inj (nibble_le _) (by omega) (nibble_le _)
    (nibble_le _) htoken
  obtain ⟨heq, -⟩ := extra_inj hlits h
  simp only [encodeLast, Sequence.encode, Sequence.encodeMatch,
    List.length_append, List.length_cons, length_toLE, heq] at hlen
  omega

/-- No two blocks have the same bytes. -/
theorem encodeFrom_inj {seqs seqs' : List Sequence} {last last' : List UInt8}
    {spare spare' : Nat} (hspare : spare < 16) (hspare' : spare' < 16)
    (h : encodeFrom seqs last spare = encodeFrom seqs' last' spare') :
    seqs = seqs' ∧ last = last' ∧ spare = spare' := by
  induction seqs generalizing seqs' with
  | nil =>
      cases seqs' with
      | nil =>
          rw [encodeFrom_nil, encodeFrom_nil] at h
          unfold encodeLast at h
          injection h with htoken h
          obtain ⟨hlits, hspares⟩ := pack_inj (nibble_le _) (by omega)
            (nibble_le _) (by omega) htoken
          exact ⟨rfl, (extra_inj hlits h).2, hspares⟩
      | cons s' seqs' =>
          rw [encodeFrom_nil, encodeFrom_cons] at h
          exact absurd h (encodeLast_ne hspare)
  | cons s seqs ih =>
      cases seqs' with
      | nil =>
          rw [encodeFrom_nil, encodeFrom_cons] at h
          exact absurd h.symm (encodeLast_ne hspare')
      | cons s' seqs' =>
          rw [encodeFrom_cons, encodeFrom_cons] at h
          obtain ⟨rfl, hrest⟩ := Sequence.encode_inj h
          obtain ⟨rfl, hlast, hspares⟩ := ih hrest
          exact ⟨rfl, hlast, hspares⟩

-- ========================================================= what fits

/-- What the decoder asks of a sequence, with `op` bytes of output in
front of it and `rest` bytes of input behind it. -/
structure Sequence.Fits (s : Sequence) (oend op rest : Nat) : Prop where
  /-- The literals end early enough. -/
  literals : op + s.literals.length + MFLIMIT ≤ oend
  /-- There is enough input behind the literals. -/
  input : 2 + 1 + LASTLITERALS ≤ s.encodeMatch.length + rest
  /-- The offset does not reach in front of the output. -/
  offset : s.offset.toNat ≤ op + s.literals.length
  /-- There is enough input behind the bytes of a long match length. -/
  surplus : 15 ≤ s.surplus → LASTLITERALS ≤ rest + 1
  /-- The match ends early enough. -/
  match_ : op + s.lz.size + LASTLITERALS ≤ oend

/-- The same of all sequences, and room for the literals that end them. -/
def Fits (oend : Nat) (last : List UInt8) (spare : Nat) :
    Nat → List Sequence → Prop
  | op, [] => op + last.length ≤ oend
  | op, s :: seqs =>
      s.Fits oend op (encodeFrom seqs last spare).length
        ∧ Fits oend last spare (op + s.lz.size) seqs

/-- The format's rules on the end of a block. -/
structure EndsWell (seqs : List Sequence) (last : List UInt8) : Prop where
  lastLiterals : seqs ≠ [] → LASTLITERALS ≤ last.length
  lastMatch : ∀ s, seqs.getLast? = some s →
    MFLIMIT ≤ s.matchLength + last.length

/-- A block. -/
structure Block where
  sequences : List Sequence
  last : List UInt8
  spare : Fin 16
  deriving DecidableEq, Repr

namespace Block

/-- The bytes of a block. -/
def encode (b : Block) : List UInt8 := encodeFrom b.sequences b.last b.spare

/-- A block can be read in one way only. -/
theorem encode_injective : Function.Injective encode := by
  intro b b' h
  obtain ⟨seqs, last, spare⟩ := b
  obtain ⟨seqs', last', spare'⟩ := b'
  obtain ⟨rfl, rfl, hspare⟩ := encodeFrom_inj spare.isLt spare'.isLt h
  rw [Fin.eq_of_val_eq hspare]

/-- What the decoder asks of a block. -/
def Fits (b : Block) (oend : Nat) : Prop :=
  Yrmcds.Fits oend b.last b.spare 0 b.sequences

/-- The references of a block. -/
def lz (b : Block) : List (Lz77.Sequence UInt8) := b.sequences.map Sequence.lz

/-- What a block decodes to. -/
def expand (b : Block) : List UInt8 := Lz77.expand [] b.lz ++ b.last

/-- How many bytes a block decodes to. -/
def size (b : Block) : Nat :=
  (b.lz.map Lz77.Sequence.size).sum + b.last.length

/-- The format's rules. -/
structure WellFormed (b : Block) : Prop
    extends EndsWell b.sequences b.last where
  offsets : Lz77.Valid 0 b.lz

/-- Offsets that reach back to something give the size. -/
theorem length_expand (b : Block) (h : Lz77.Valid 0 b.lz) :
    b.expand.length = b.size := by
  unfold expand size
  rw [List.length_append, Lz77.length_expand [] b.lz h]
  simp

end Block

end Yrmcds
