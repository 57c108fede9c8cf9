/-
`LZ4_compress` emits a well-formed block that expands to its input.

# The invariant

`Emitted`: what stands in the output so far are sequences, and they
expand to the input in front of `anchor`. It also carries what the end of
the block will need, and the size: 255 bytes of output for 256 of input
at most, which every sequence keeps since a match of four bytes costs
three, and a length byte stands for 255 literals.

`AtSearch` and `AtMatch` are the invariants of the two labels. At
`_next_match` a sequence is pending, its token and literals written; and
a position `p` is known, not before the match, up to which the table is
filled. A match found by the search may start before that position, as
catching up moves it to the left, but its length is counted from there to
the first difference, so it ends behind `p`, and the table stays behind
the position the search goes on from.

# The run

Each step keeps the invariant of the label it goes to and lowers
`measure`, so the loop ends (`compressLoop_spec`), and `_last_literals`
completes the block (`lastLiterals_spec`).
-/
import Yrmcds.Proofs.Codec.Decompress
import Yrmcds.Proofs.Codec.Emit
import Yrmcds.Proofs.Codec.Search

namespace Yrmcds

open Checked Region Lengths Endian Lz77

variable {ε : Type} {E : ε → Prop} {source dest : Region}
  {tableType : TableType} {n : Nat}

-- ======================================================== the invariant

/-- Sequences emitted: they stand in the output up to `op`, and expand to
the input up to `anchor`. -/
structure Emitted (source : Region) (n : Nat) (dest : Region) (op anchor : Nat)
    (seqs : List Sequence) : Prop where
  output : dest.bytes.slice 0 op = seqs.flatMap Sequence.encode
  input : expand [] (seqs.map Sequence.lz) = source.bytes.slice 0 anchor
  valid : Valid 0 (seqs.map Sequence.lz)
  total : sizes seqs = anchor
  small : 255 * op ≤ 256 * anchor
  room : anchor ≤ n
  ends : ∀ s, seqs.getLast? = some s →
    anchor + LASTLITERALS ≤ n ∧ anchor + MFLIMIT ≤ n + s.matchLength

/-- Nothing is emitted. -/
theorem Emitted.nil : Emitted source n dest 0 0 [] :=
  ⟨rfl, rfl, trivial, rfl, Nat.le_refl _, Nat.zero_le _, fun _ h => by cases h⟩

/-- Bytes behind `op` do not matter. -/
theorem Emitted.kept {r : Region} {op anchor : Nat} {seqs : List Sequence}
    (h : Emitted source n dest op anchor seqs) (hkept : Kept dest r op) :
    Emitted source n r op anchor seqs :=
  ⟨(hkept.slice (by omega)).trans h.output, h.input, h.valid, h.total, h.small,
    h.room, h.ends⟩

/-- A sequence costs less than what it stands for. -/
theorem Sequence.encode_small (s : Sequence) :
    255 * s.encode.length ≤ 256 * s.lz.size := by
  rw [s.length_encode, s.length_encodeMatch, s.size_lz, length_extra,
    length_extra]
  show _ ≤ 256 * (s.literals.length + (s.surplus + 4))
  split <;> split <;> omega

theorem sizes_snoc (seqs : List Sequence) (s : Sequence) :
    sizes (seqs ++ [s]) = sizes seqs + s.lz.size := by
  simp [sizes]

/-- A sequence more. -/
theorem Emitted.snoc {r : Region} {op anchor : Nat} {seqs : List Sequence}
    {s : Sequence} (h : Emitted source n dest op anchor seqs)
    (hkept : r.bytes.slice 0 op = dest.bytes.slice 0 op)
    (hbytes : r.bytes.slice op s.encode.length = s.encode)
    (hlit : source.bytes.slice anchor s.literals.length = s.literals)
    (hpos : 1 ≤ s.offset.toNat)
    (hle : s.offset.toNat ≤ anchor + s.literals.length)
    (hrep : Repeats source.bytes s.offset.toNat (anchor + s.literals.length)
      (anchor + s.lz.size))
    (hstart : anchor + s.literals.length + MFLIMIT ≤ n)
    (hend : anchor + s.lz.size + LASTLITERALS ≤ n) :
    Emitted source n r (op + s.encode.length) (anchor + s.lz.size)
      (seqs ++ [s]) := by
  have hsz := s.size_lz
  refine ⟨?_, ?_, ?_, ?_, ?_, by omega, ?_⟩
  · rw [Mem.slice_add, hkept, h.output, Nat.zero_add, hbytes]
    simp
  · have hfront : front source.bytes anchor ++ s.lz.literals
        = front source.bytes (anchor + s.lz.literals.length) := by
      rw [← Mem.slice_front, ← Mem.slice_front, Mem.slice_add, Nat.zero_add]
      exact congrArg (source.bytes.slice 0 anchor ++ ·) hlit.symm
    rw [List.map_append, List.map_singleton, expand_snoc, h.input,
      Mem.slice_front, Mem.slice_front]
    exact Sequence.apply_eq_of_repeats hfront hpos hle hrep
  · rw [List.map_append, List.map_singleton]
    apply h.valid.snoc hpos
    have htotal : ((seqs.map Sequence.lz).map Lz77.Sequence.size).sum = anchor :=
      h.total
    rw [htotal]
    show s.offset.toNat ≤ 0 + anchor + s.literals.length
    omega
  · rw [sizes_snoc, h.total]
  · have := s.encode_small
    have := h.small
    omega
  · intro s' hs'
    rw [List.getLast?_append, List.getLast?_singleton, Option.some_or] at hs'
    injection hs' with hs'
    subst hs'
    exact ⟨hend, by omega⟩

/-- The invariant at the head of the main loop. -/
structure AtSearch (source : Region) (tableType : TableType) (n : Nat)
    (forwardH : UInt32) (f : Frame) : Prop where
  emitted : ∃ seqs, Emitted source n f.dest f.op f.anchor seqs
  anchor : f.anchor ≤ f.ip
  room : f.ip + MFLIMIT ≤ n + 1
  table : TableBelow f.table f.ip
  hash : forwardH.toNat < 2 ^ tableType.hashLog

/-- The invariant at `_next_match`. -/
structure AtMatch (source : Region) (n token match_ : Nat) (f : Frame) :
    Prop where
  emitted : ∃ seqs, Emitted source n f.dest token f.anchor seqs
  anchor : f.anchor ≤ f.ip
  pending : f.dest.bytes.slice token
      (1 + (extra (f.ip - f.anchor)).length + (f.ip - f.anchor))
    = pack (nibble (f.ip - f.anchor)) 0 :: (extra (f.ip - f.anchor)
      ++ source.bytes.slice f.anchor (f.ip - f.anchor))
  op : f.op = token
    + (1 + (extra (f.ip - f.anchor)).length + (f.ip - f.anchor))
  behind : match_ < f.ip
  near : f.ip - match_ ≤ MAX_DISTANCE
  found : ∃ p, f.ip ≤ p ∧ p + MFLIMIT ≤ n ∧ TableBelow f.table (p + 1)
    ∧ Repeats source.bytes (f.ip - match_) f.ip (p + 4)

/-- The invariant of a label. -/
inductive LabelOk (source : Region) (tableType : TableType) (n : Nat) :
    Label → Frame → Prop
  | search {forwardH : UInt32} {f : Frame}
      (h : AtSearch source tableType n forwardH f) :
      LabelOk source tableType n (.search forwardH) f
  | nextMatch {token match_ : Nat} {f : Frame}
      (h : AtMatch source n token match_ f) :
      LabelOk source tableType n (.nextMatch token match_) f

/-- What is left of the input, with a search in front of a match. -/
def Label.measure (n : Nat) (f : Frame) : Label → Nat
  | .search _ => 2 * (n - f.anchor)
  | .nextMatch _ _ => 2 * (n - f.anchor) - 1

/-- How a step ends: at a label, closer to the end, or behind the loop. -/
structure StepOk (source : Region) (tableType : TableType) (n bound m : Nat)
    (r : Frame × Option Label) : Prop where
  size : r.1.dest.size = bound
  last : r.2 = none → ∃ seqs, Emitted source n r.1.dest r.1.op r.1.anchor seqs
  label : ∀ label, r.2 = some label → LabelOk source tableType n label r.1
    ∧ label.measure n r.1 < m

-- ============================================================ the steps

/-- From the head of the main loop. -/
theorem searchMatch_spec {forwardH : UInt32} {f : Frame}
    (hn : lz4MinLength ≤ n) (hsize : n ≤ source.size)
    (hshort : tableType = .byU16 → n < lz4_64Klimit)
    (hbound : n + n / 255 + 16 ≤ f.dest.size)
    (h : AtSearch source tableType n forwardH f) :
    Ends (StepOk source tableType n f.dest.size (2 * (n - f.anchor))) E
      (searchMatch source tableType n forwardH f) := by
  have hmf : MFLIMIT = 12 := rfl
  have hmin : lz4MinLength = 13 := rfl
  have hlim : lz4_64Klimit = 65547 := rfl
  obtain ⟨seqs, hemit⟩ := h.emitted
  have hanchor := h.anchor
  have hroom := h.room
  unfold searchMatch
  refine (findMatch_spec (by omega) (fun hu => by have := hshort hu; omega)
    h.hash h.table (Nat.le_refl _) (Nat.le_refl _) (by omega) (by omega)).bind ?_
  intro found hfound
  cases found with
  | none =>
      refine ends_pure.mpr ⟨rfl, fun _ => ⟨seqs, hemit⟩, ?_⟩
      intro label hl
      cases hl
  | some s =>
      have hok := hfound s rfl
      have hstart := hok.start
      have hip := hok.room
      obtain ⟨hbehind, hrep⟩ := hok.agree
      dsimp only
      refine (catchUp_spec (by omega)
        hbehind (by omega)).bind ?_
      intro p hp
      obtain ⟨hge, hle, hbehind', hdist, hback⟩ := hp
      obtain ⟨ip, match_⟩ := p
      dsimp only at hge hle hbehind' hdist hback ⊢
      have hsmall := hemit.small
      have hextra := length_extra (ip - f.anchor)
      have hextra' : 255 * (extra (ip - f.anchor)).length ≤ ip - f.anchor + 240 := by
        rw [hextra]
        split <;> omega
      refine (writeToken_spec f.dest (by omega)).bind ?_
      intro w hw
      obtain ⟨hput, hop⟩ := hw
      have hwsize := hput.kept.size
      refine (lz4WildCopy_source source w.1 (d := w.2) (s := f.anchor)
        (e := w.2 + (ip - f.anchor)) (by omega) (by omega) (by omega)
        (by omega)).bind ?_
      intro r hr
      obtain ⟨hkept, hcopied⟩ := hr
      have htok : Put f.dest r f.op (pack (nibble (ip - f.anchor)) 0
          :: extra (ip - f.anchor)) := by
        refine hput.then hkept ?_
        rw [hop, List.length_cons]
        omega
      have hlits : r.bytes.slice w.2 (ip - f.anchor)
          = source.bytes.slice f.anchor (ip - f.anchor) := by
        apply Mem.slice_congr
        intro i hi
        rw [hcopied (w.2 + i) (by omega) (by omega)]
        congr 1
        omega
      refine ends_pure.mpr ⟨hkept.size.trans hwsize, fun hl => (by cases hl), ?_⟩
      intro label hl
      injection hl with hl
      subst hl
      refine ⟨.nextMatch ⟨⟨seqs, hemit.kept htok.kept⟩, hge, ?_, ?_, hbehind', ?_,
        s.ip, hle, by omega, hok.table, ?_⟩, ?_⟩
      · have hslice := htok.bytes
        rw [List.length_cons, Nat.add_comm _ 1] at hslice
        rw [Mem.slice_add, hslice]
        rw [hop] at hlits
        rw [← Nat.add_assoc, hlits]
        rfl
      · dsimp only
        omega
      · dsimp only
        rw [hdist]
        exact hok.near
      · dsimp only
        rw [hdist]
        exact hback.append hrep
      · show 2 * (n - f.anchor) - 1 < _
        omega

/-- The bytes of a length are few. -/
theorem length_extra_le (k : Nat) : 255 * (extra k).length ≤ k + 240 := by
  rw [length_extra]
  split <;> omega

/-- The pending match, completed: counted to `q`, with offset and length
written. -/
theorem AtMatch.complete {f : Frame} {token match_ q : Nat} {r₁ r₂ : Region}
    (h : AtMatch source n token match_ f)
    (hq : f.ip + MINMATCH ≤ q) (hlast : q + LASTLITERALS ≤ n)
    (hrep : Repeats source.bytes (f.ip - match_) f.ip q)
    (hput : Put f.dest r₁ f.op (toLE 2 (f.ip - match_)))
    (htoken : r₂.bytes token = pack (nibble (f.ip - f.anchor))
      (nibble (q - (f.ip + MINMATCH))))
    (hkept : ∀ i < f.op + 2, i ≠ token → r₂.bytes i = r₁.bytes i)
    (hover : r₂.bytes.slice (f.op + 2) (extra (q - (f.ip + MINMATCH))).length
      = extra (q - (f.ip + MINMATCH))) :
    ∃ seqs, Emitted source n r₂
      (f.op + 2 + (extra (q - (f.ip + MINMATCH))).length) q seqs := by
  have hmm : MINMATCH = 4 := rfl
  have hmf : MFLIMIT = 12 := rfl
  obtain ⟨seqs, hemit⟩ := h.emitted
  obtain ⟨p, hp, hproom, -, -⟩ := h.found
  have hanchor := h.anchor
  have hbehind := h.behind
  have hop := h.op
  have hnear : f.ip - match_ ≤ 65535 := h.near
  have hpending := h.pending
  generalize hL : f.ip - f.anchor = L at *
  generalize hover' : q - (f.ip + MINMATCH) = surplus at *
  have hlit : (source.bytes.slice f.anchor L).length = L := by simp
  have hoff : (UInt16.ofNat (f.ip - match_)).toNat = f.ip - match_ := by
    rw [UInt16.toNat_ofNat', Nat.mod_eq_of_lt (by omega)]
  -- bytes in front of the offset are those that were pending
  have hbefore : ∀ i < f.op, i ≠ token → r₂.bytes i = f.dest.bytes i := by
    intro i hi hne
    rw [hkept i (by omega) hne, hput.kept.below i hi]
  obtain ⟨-, hrest⟩ := Mem.slice_head hpending
  rw [List.length_append, hlit] at hrest
  obtain ⟨hextra, hlits⟩ := Mem.slice_split hrest
  rw [Nat.add_sub_cancel_left] at hlits
  have hoffset : r₂.bytes.slice f.op 2 = toLE 2 (f.ip - match_) := by
    have hbytes := hput.bytes
    rw [length_toLE] at hbytes
    rw [← hbytes]
    apply Mem.slice_congr
    intro i hi
    exact hkept (f.op + i) (by omega) (by omega)
  have hs : r₂.bytes.slice token
      (Sequence.encode ⟨source.bytes.slice f.anchor L,
        UInt16.ofNat (f.ip - match_), surplus⟩).length
      = Sequence.encode ⟨source.bytes.slice f.anchor L,
        UInt16.ofNat (f.ip - match_), surplus⟩ := by
    apply Sequence.of_parts
    · dsimp only
      rw [hlit]
      exact htoken
    · dsimp only
      rw [hlit]
      refine (Mem.slice_congr ?_).trans hextra
      intro i hi
      exact hbefore (token + 1 + i) (by omega) (by omega)
    · dsimp only
      rw [hlit]
      refine (Mem.slice_congr ?_).trans hlits
      intro i hi
      exact hbefore (token + 1 + (extra L).length + i) (by omega) (by omega)
    · dsimp only
      rw [hlit, hoff, show token + 1 + (extra L).length + L = f.op by omega]
      exact hoffset
    · dsimp only
      rw [hlit, show token + 1 + (extra L).length + L = f.op by omega]
      exact hover
  have hlen := Sequence.length_encode ⟨source.bytes.slice f.anchor L,
    UInt16.ofNat (f.ip - match_), surplus⟩
  rw [Sequence.length_encodeMatch] at hlen
  dsimp only at hlen
  rw [hlit] at hlen
  have hsz : (Sequence.lz ⟨source.bytes.slice f.anchor L,
      UInt16.ofNat (f.ip - match_), surplus⟩).size = L + (surplus + 4) := by
    rw [Sequence.size_lz]
    dsimp only
    rw [hlit]
    rfl
  have hkept0 : r₂.bytes.slice 0 token = f.dest.bytes.slice 0 token := by
    apply Mem.slice_congr
    intro i hi
    exact hbefore (0 + i) (by omega) (by omega)
  have hnext := hemit.snoc hkept0 hs (by dsimp only; rw [hlit])
    (by dsimp only; omega) (by dsimp only; rw [hlit]; omega)
    (by
      rw [hsz]
      dsimp only
      rw [hlit, hoff, show f.anchor + L = f.ip by omega,
        show f.anchor + (L + (surplus + 4)) = q by omega]
      exact hrep)
    (by dsimp only; rw [hlit]; omega) (by rw [hsz]; omega)
  rw [hsz, show f.anchor + (L + (surplus + 4)) = q by omega,
    show token + _ = f.op + 2 + (extra surplus).length by rw [hlen]; omega] at hnext
  exact ⟨_, hnext⟩

/-- The position behind a match lies behind all that is in the table:
the count does not stop in front of a difference. -/
theorem count_reaches {m : Mem} {d ip p q limit : Nat} (hip : ip ≤ q)
    (hrep : Repeats m d ip (p + 4)) (hp : p + 4 ≤ limit)
    (hdiff : q < limit → m q ≠ m (q - d)) : p + 4 ≤ q := by
  by_contra hlt
  exact hdiff (by omega) (hrep q hip (by omega))

/-- The test of the next position, after a match that ends at `ip`. -/
theorem testNext_spec {ip : Nat} {table : Table} (hip : 2 ≤ ip)
    (hroom : ip + MFLIMIT ≤ n) (hsize : n ≤ source.size)
    (hbelow : TableBelow table ip) :
    Ends (fun t => Ends (fun match_ : Nat => match_ < ip
        ∧ Ends (fun t' : Table => TableBelow t' (ip + 1)) E
          (lz4PutPosition source ip t tableType)) E
      (lz4GetPosition source ip t tableType)) E
      (lz4PutPosition source (ip - 2) table tableType) := by
  have hmf : MFLIMIT = 12 := rfl
  refine (lz4PutPosition_spec (by omega) hbelow (by omega)).mono ?_
    (fun _ h => h)
  intro t ht
  refine (lz4GetPosition_spec (by omega) ht).mono ?_ (fun _ h => h)
  intro match_ hm
  exact ⟨hm, lz4PutPosition_spec (by omega) (ht.mono (by omega)) (by omega)⟩

/-- From `_next_match`. -/
theorem nextMatch_spec {token match_ : Nat} {f : Frame}
    (hsize : n ≤ source.size) (hbound : n + n / 255 + 16 ≤ f.dest.size)
    (h : AtMatch source n token match_ f) :
    Ends (StepOk source tableType n f.dest.size (2 * (n - f.anchor) - 1)) E
      (nextMatch source tableType n token match_ f) := by
  have hmm : MINMATCH = 4 := rfl
  have hmf : MFLIMIT = 12 := rfl
  have hll : LASTLITERALS = 5 := rfl
  obtain ⟨seqs, hemit⟩ := h.emitted
  obtain ⟨p, hp, hproom, htable, hfound⟩ := h.found
  have hanchor := h.anchor
  have hbehind := h.behind
  have hop := h.op
  have hsmall := hemit.small
  have hlits := length_extra_le (f.ip - f.anchor)
  unfold nextMatch
  refine (put_store f.dest
    (by rw [length_toLE]; omega)).bind ?_
  intro r₁ hput
  have hsize₁ := hput.kept.size
  refine (lz4Count_spec
    (by omega) (by omega) (by omega)).bind ?_
  intro q hq
  obtain ⟨hge, hend, hcount, hdiff⟩ := hq
  rw [show f.ip + MINMATCH - (match_ + MINMATCH) = f.ip - match_ by omega]
    at hcount hdiff
  have hreach := count_reaches (by omega) hfound (by omega) hdiff
  have hrep : Repeats source.bytes (f.ip - match_) f.ip q :=
    (hfound.mono (Nat.le_refl _) (by omega)).append hcount
  have hover := length_extra_le (q - (f.ip + MINMATCH))
  have htok : r₁.bytes token = pack (nibble (f.ip - f.anchor)) 0 := by
    rw [hput.kept.below token (by omega)]
    exact (Mem.slice_head h.pending).1
  refine (writeMatchLength_spec r₁ htok (by omega) (by omega)).bind ?_
  intro w hw
  obtain ⟨hwsize, hwtoken, hwkept, hwover, hwop⟩ := hw
  obtain ⟨seqs', hnext⟩ := h.complete (by omega) (by omega) hrep hput hwtoken
    hwkept hwover
  rw [← hwop] at hnext
  have hdest : w.1.size = f.dest.size := hwsize.trans hsize₁
  have hsmall' := hnext.small
  dsimp only
  split
  next =>
    refine ends_pure.mpr ⟨hdest, fun _ => ⟨seqs', hnext⟩, ?_⟩
    intro label hl
    cases hl
  next hmore =>
    refine (testNext_spec (n := n) (by omega) (by omega) hsize
      (htable.mono (by omega))).bind ?_
    intro t ht
    refine ht.bind ?_
    intro match' hmatch
    obtain ⟨hlt, hput'⟩ := hmatch
    refine hput'.bind ?_
    intro t' ht'
    -- on to the search, one position further
    have hsearch : Ends (StepOk source tableType n f.dest.size
        (2 * (n - f.anchor) - 1)) E (do
          let forwardH ← lz4HashPosition source (q + 1) tableType
          return (⟨q + 1, q, w.2, t', w.1⟩, some (.search forwardH))) := by
      refine (lz4HashPosition_spec (by omega)).bind ?_
      intro forwardH hhash
      refine ends_pure.mpr ⟨hdest, fun hl => (by cases hl), ?_⟩
      intro label hl
      injection hl with hl
      subst hl
      refine ⟨.search ⟨⟨seqs', hnext⟩, by dsimp only; omega, by dsimp only; omega,
        ht', hhash⟩, ?_⟩
      show 2 * (n - q) < _
      omega
    -- or on to a further match, right here
    have hagain : q ≤ match' + MAX_DISTANCE → Agree source.bytes q match' 4 →
        Ends (StepOk source tableType n f.dest.size (2 * (n - f.anchor) - 1)) E (do
          let dest ← w.1.store w.2 [0]
          return (⟨q, q, w.2 + 1, t', dest⟩, some (.nextMatch w.2 match'))) := by
      intro hnear hagree
      refine (put_store w.1
        (by rw [hdest, List.length_singleton]; omega)).bind ?_
      intro r hr
      refine ends_pure.mpr ⟨hr.kept.size.trans hdest, fun hl => (by cases hl), ?_⟩
      intro label hl
      injection hl with hl
      subst hl
      have hzero : extra 0 = [] := extra_of_lt (by omega)
      refine ⟨.nextMatch ⟨⟨seqs', hnext.kept hr.kept⟩, Nat.le_refl _, ?_, ?_, hlt,
        by dsimp only; omega, q, Nat.le_refl _, by omega, ht', hagree.2⟩, ?_⟩
      · dsimp only
        rw [Nat.sub_self, hzero]
        exact hr.bytes
      · dsimp only
        rw [Nat.sub_self, hzero]
        rfl
      · show 2 * (n - q) - 1 < _
        omega
    split
    next hnear =>
      refine (lz4Read32_agree hlt (by omega)).bind ?_
      intro a ha
      refine ha.bind ?_
      intro b hagree
      by_cases heq : a = b
      · rw [decide_eq_true heq, pure_bind, if_pos rfl]
        exact hagain hnear (hagree heq)
      · rw [decide_eq_false heq, pure_bind, if_neg Bool.false_ne_true]
        exact hsearch
    next =>
      rw [pure_bind, if_neg Bool.false_ne_true]
      exact hsearch

-- ============================================================== the run

/-- One step, from whichever label. -/
theorem compressStep_spec {label : Label} {f : Frame}
    (hn : lz4MinLength ≤ n) (hsize : n ≤ source.size)
    (hshort : tableType = .byU16 → n < lz4_64Klimit)
    (hbound : n + n / 255 + 16 ≤ f.dest.size)
    (h : LabelOk source tableType n label f) :
    Ends (StepOk source tableType n f.dest.size (label.measure n f)) E
      (compressStep source tableType n label f) := by
  cases h with
  | search h => exact searchMatch_spec hn hsize hshort hbound h
  | nextMatch h => exact nextMatch_spec hsize hbound h

/-- The loop ends, with everything in front of `anchor` emitted. -/
theorem compressLoop_spec {label : Label} {f : Frame} {fuel : Nat}
    (hn : lz4MinLength ≤ n) (hsize : n ≤ source.size)
    (hshort : tableType = .byU16 → n < lz4_64Klimit)
    (hbound : n + n / 255 + 16 ≤ f.dest.size)
    (h : LabelOk source tableType n label f) (hfuel : label.measure n f < fuel) :
    Ends (fun f' => f'.dest.size = f.dest.size
        ∧ ∃ seqs, Emitted source n f'.dest f'.op f'.anchor seqs) E
      (compressLoop source tableType n fuel label f) := by
  induction fuel generalizing label f with
  | zero => omega
  | succ fuel ih =>
      rw [compressLoop]
      refine (compressStep_spec hn hsize hshort hbound h).bind ?_
      intro r hr
      obtain ⟨f', next⟩ := r
      cases next with
      | none => exact ends_pure.mpr ⟨hr.size, hr.last rfl⟩
      | some label' =>
          obtain ⟨hok, hlt⟩ := hr.label label' rfl
          have hdest : f'.dest.size = f.dest.size := hr.size
          refine (ih (by rw [hdest]; exact hbound) hok
            (by show Label.measure n f' label' < fuel
                have hlt : Label.measure n f' label' < label.measure n f := hlt
                omega)).mono ?_ (fun _ h => h)
          intro f'' hf
          exact ⟨hf.1.trans hdest, hf.2⟩

/-- What is returned for an input. -/
structure Compressed (source dest : Region) (n : Nat) (b : Block)
    (r : Nat × Region) : Prop where
  wellFormed : b.WellFormed
  spare : b.spare = 0
  expand : b.expand = source.bytes.slice 0 n
  region : r.2.size = dest.size
  output : r.2.bytes.slice 0 r.1 = b.encode
  length : r.1 = b.encode.length
  small : r.1 ≤ n + n / 255 + 2

/-- `_last_literals` completes the block. -/
theorem lastLiterals_spec {op anchor : Nat} {seqs : List Sequence}
    (hsize : n ≤ source.size) (hbound : n + n / 255 + 16 ≤ dest.size)
    (h : Emitted source n dest op anchor seqs) :
    Ends (fun r => ∃ b, Compressed source dest n b r) E
      (lastLiterals source n anchor op dest) := by
  have hroom := h.room
  have hsmall := h.small
  have hextra := length_extra_le (n - anchor)
  have hll : LASTLITERALS = 5 := rfl
  have hmf : MFLIMIT = 12 := rfl
  unfold lastLiterals
  refine (writeToken_spec dest
    (by omega)).bind ?_
  intro w hw
  obtain ⟨hput, hop⟩ := hw
  have hwsize := hput.kept.size
  rw [load_ok (by omega), ok_bind]
  refine (put_store w.1
    (by rw [Mem.length_slice]; omega)).bind ?_
  intro r hr
  apply ends_pure.mpr
  have hlast : (source.bytes.slice anchor (n - anchor)).length = n - anchor := by
    simp
  have hop' : w.2 = op + (pack (nibble (n - anchor)) 0
      :: extra (n - anchor)).length := by
    rw [List.length_cons]
    omega
  rw [hop'] at hr
  have hall := hput.append hr
  have hlen : (encodeLast (source.bytes.slice anchor (n - anchor)) 0).length
      = 1 + (extra (n - anchor)).length + (n - anchor) := by
    rw [length_encodeLast, hlast]
  have hbytes : encodeLast (source.bytes.slice anchor (n - anchor)) 0
      = (pack (nibble (n - anchor)) 0 :: extra (n - anchor))
        ++ source.bytes.slice anchor (n - anchor) := by
    rw [encodeLast, hlast]
    rfl
  rw [← hbytes] at hall
  have hout : r.bytes.slice 0 (w.2 + (n - anchor))
      = encodeFrom seqs (source.bytes.slice anchor (n - anchor)) 0 := by
    have hsum : w.2 + (n - anchor)
        = op + (encodeLast (source.bytes.slice anchor (n - anchor)) 0).length := by
      omega
    rw [hsum, Mem.slice_add, Nat.zero_add, hall.bytes,
      hall.kept.slice (by omega), h.output]
    rfl
  refine ⟨⟨seqs, source.bytes.slice anchor (n - anchor), 0⟩,
    ⟨⟨fun hne => ?_, fun s hs => ?_⟩, h.valid⟩, rfl, ?_, hall.kept.size, hout, ?_,
    ?_⟩
  · obtain ⟨s, hs⟩ : ∃ s, seqs.getLast? = some s :=
      ⟨_, List.getLast?_eq_some_getLast hne⟩
    have := (h.ends s hs).1
    dsimp only
    omega
  · have := (h.ends s hs).2
    dsimp only
    omega
  · have hsplit := source.bytes.slice_add 0 anchor (n - anchor)
    rw [Nat.add_sub_cancel' hroom, Nat.zero_add] at hsplit
    show expand [] (seqs.map Sequence.lz) ++ _ = _
    rw [h.input, hsplit]
  · have := congrArg List.length hout
    rw [Mem.length_slice] at this
    exact this
  · dsimp only
    by_cases hshort : n - anchor < 15
    · have : (extra (n - anchor)).length = 0 := by rw [extra_of_lt hshort]; rfl
      omega
    · have := length_extra (n - anchor)
      rw [if_neg hshort] at this
      omega

/-- The compressor on a size it supports. -/
theorem lz4CompressGeneric_spec (hn : n ≤ LZ4_MAX_INPUT_SIZE)
    (hsize : n ≤ source.size) (hbound : n + n / 255 + 16 ≤ dest.size)
    (hshort : tableType = .byU16 → n < lz4_64Klimit) :
    Ends (fun r => ∃ b, Compressed source dest n b r) E
      (lz4CompressGeneric source dest n tableType) := by
  have hmf : MFLIMIT = 12 := rfl
  have hmin : lz4MinLength = 13 := rfl
  have hunsigned : toUnsigned n = n := by
    unfold toUnsigned
    have : LZ4_MAX_INPUT_SIZE < 2 ^ 32 := by decide
    omega
  unfold lz4CompressGeneric
  rw [Int.toNat_natCast]
  dsimp only
  rw [if_neg (by rw [hunsigned]; omega), if_neg (fun h => by
    have := hshort h.1
    omega)]
  split
  next hlt => exact lastLiterals_spec hsize hbound Emitted.nil
  next hge =>
    refine (lz4PutPosition_spec (q := 1) (by omega) (fun _ => Nat.zero_lt_one)
      (by omega)).bind ?_
    intro table htable
    refine (lz4HashPosition_spec (by omega)).bind ?_
    intro forwardH hhash
    refine (compressLoop_spec (by omega) hsize hshort hbound
      (.search ⟨⟨[], Emitted.nil⟩, Nat.zero_le _, by dsimp only; omega, htable,
        hhash⟩) (by
        show 2 * (n - 0) < _
        omega)).bind ?_
    intro f hf
    obtain ⟨hdest, seqs, hemit⟩ := hf
    dsimp only at hdest
    refine (lastLiterals_spec hsize (by rw [hdest]; exact hbound)
      hemit).mono ?_ (fun _ h => h)
    intro r hr
    obtain ⟨b, hb⟩ := hr
    exact ⟨b, hb.wellFormed, hb.spare, hb.expand, hb.region.trans hdest, hb.output,
      hb.length, hb.small⟩

/-- `LZ4_compressBound`, below the maximum. -/
theorem lz4CompressBound_eq (hn : n ≤ LZ4_MAX_INPUT_SIZE) :
    lz4CompressBound n = n + n / 255 + 16 := by
  have hunsigned : toUnsigned n = n := by
    unfold toUnsigned
    have : LZ4_MAX_INPUT_SIZE < 2 ^ 32 := by decide
    omega
  have hdiv : (n : Int).tdiv 255 = (n / 255 : Nat) := by
    rw [Int.tdiv_eq_ediv_of_nonneg (by omega)]
    rfl
  rw [lz4CompressBound, hunsigned, if_neg (by omega), hdiv]
  omega

/-- The compressor ends and stays in bounds, and what it emits is a
well-formed block that expands to the input. -/
theorem lz4Compress_spec (hn : n ≤ LZ4_MAX_INPUT_SIZE)
    (hsize : n ≤ source.size) (hdest : lz4CompressBound n ≤ dest.size) :
    Ends (fun r => ∃ b, Compressed source dest n b r) E
      (lz4Compress source dest n) := by
  rw [lz4CompressBound_eq hn] at hdest
  unfold lz4Compress
  split
  next hlt => exact lz4CompressGeneric_spec hn hsize hdest fun _ => by omega
  next => exact lz4CompressGeneric_spec hn hsize hdest fun h => by cases h

/-- The compressor always succeeds on the sizes it supports. It stays in
bounds, and what it emits is a well-formed block that expands to the
input and is hardly longer. -/
theorem lz4Compress_emits (hn : n ≤ LZ4_MAX_INPUT_SIZE)
    (hsize : n ≤ source.size) (hdest : lz4CompressBound n ≤ dest.size) :
    ∃ r b, (lz4Compress source dest n : Checked Empty (Nat × Region)) = .ok r
      ∧ Compressed source dest n b r := by
  have hspec : Ends (fun r => ∃ b, Compressed source dest n b r)
      (fun _ : Empty => False) (lz4Compress source dest n) :=
    lz4Compress_spec hn hsize hdest
  obtain ⟨r, hr, b, hb⟩ := hspec.value
  exact ⟨r, b, hr, hb⟩

/-- Twenty equal bytes: a literal, a match that repeats it, and the last
five bytes. -/
theorem lz4Compress_emits_twenty :
    ∃ r b, (lz4Compress ⟨20, fun _ => 97⟩ ⟨36, fun _ => 0⟩ (20 : Nat)
        : Checked Empty (Nat × Region)) = .ok r
      ∧ Compressed ⟨20, fun _ => 97⟩ ⟨36, fun _ => 0⟩ 20 b r
      ∧ r.2.bytes.slice 0 r.1 = [0x1a, 97, 1, 0, 0x50, 97, 97, 97, 97, 97] := by
  obtain ⟨r, b, hr, hb⟩ :
      ∃ r b, (lz4Compress ⟨20, fun _ => 97⟩ ⟨36, fun _ => 0⟩ (20 : Nat)
          : Checked Empty (Nat × Region)) = .ok r
        ∧ Compressed ⟨20, fun _ => 97⟩ ⟨36, fun _ => 0⟩ 20 b r :=
    lz4Compress_emits (by decide) (by decide) (by decide)
  have hbytes : (lz4Compress ⟨20, fun _ => 97⟩ ⟨36, fun _ => 0⟩ (20 : Nat)
      : Checked Empty (Nat × Region)).map (fun r => r.2.bytes.slice 0 r.1)
      = .ok [0x1a, 97, 1, 0, 0x50, 97, 97, 97, 97, 97] := by decide +kernel
  rw [hr] at hbytes
  exact ⟨r, b, hr, hb, Except.ok.inj hbytes⟩

end Yrmcds
