/-
The main loop of the decoder against the block format.

A round reads what `Sequence.encode` writes and goes on behind it
(`decodeSequence_eq`, `decodeLast_eq`); by induction on the sequences the
loop decodes every block that fits, and what it leaves in the output is
the block's expansion (`decodeLoop_eq`). In the other direction a round
that does not fail has read a sequence that fits, or the last literals
(`decodeSequence_spec`), so a loop that does not fail has read a block
(`decodeLoop_spec`). Both directions say that the loop stays in bounds.
-/
import Yrmcds.Proofs.Codec.Match
import Yrmcds.Proofs.Codec.Lengths
import Yrmcds.Spec.BlockFormat

namespace Yrmcds

open Checked Region Lengths Endian

variable {source : Region} {iend oend : Nat} {c : Cursor}

-- ======================================================== bytes in place

/-- A slice that is two strings in a row. -/
theorem Mem.slice_split {m : Mem} {off n : Nat} {xs ys : List UInt8}
    (h : m.slice off n = xs ++ ys) :
    m.slice off xs.length = xs
      ∧ m.slice (off + xs.length) (n - xs.length) = ys := by
  have hn : xs.length ≤ n := by
    have := congrArg List.length h
    rw [Mem.length_slice, List.length_append] at this
    omega
  constructor
  · rw [← m.take_slice off n xs.length hn, h, List.take_left]
  · rw [← m.drop_slice off n xs.length hn, h, List.drop_left]

/-- The front of a memory, as the library has it. -/
theorem Mem.slice_front (m : Mem) (n : Nat) : m.slice 0 n = Lz77.front m n := by
  unfold Mem.slice Lz77.front
  simp only [Nat.zero_add]

theorem Sequence.size_lz (s : Sequence) :
    s.lz.size = s.literals.length + s.matchLength := rfl

/-- A sequence is a token, an offset and what they announce. -/
theorem Sequence.length_encode (s : Sequence) :
    s.encode.length = 1 + (extra s.literals.length).length
      + s.literals.length + s.encodeMatch.length := by
  simp only [Sequence.encode, List.length_cons, List.length_append]
  omega

theorem Sequence.length_encodeMatch (s : Sequence) :
    s.encodeMatch.length = 2 + (extra s.surplus).length := by
  simp [Sequence.encodeMatch]

theorem length_encodeLast (last : List UInt8) (spare : Nat) :
    (encodeLast last spare).length
      = 1 + (extra last.length).length + last.length := by
  simp only [encodeLast, List.length_cons, List.length_append]
  omega

/-- Where the parts of a sequence stand. -/
theorem Sequence.parts {m : Mem} {ip n : Nat} {s : Sequence}
    {rest : List UInt8} (h : m.slice ip n = s.encode ++ rest) :
    m ip = pack (nibble s.literals.length) (nibble s.surplus)
      ∧ m.slice (ip + 1) (extra s.literals.length).length
        = extra s.literals.length
      ∧ m.slice (ip + 1 + (extra s.literals.length).length) s.literals.length
        = s.literals
      ∧ m.slice (ip + 1 + (extra s.literals.length).length + s.literals.length)
        2 = toLE 2 s.offset.toNat
      ∧ m.slice (ip + 1 + (extra s.literals.length).length + s.literals.length
        + 2) (extra s.surplus).length = extra s.surplus := by
  obtain ⟨hs, -⟩ := Mem.slice_split h
  obtain ⟨htoken, hrest⟩ := Mem.slice_head hs
  rw [List.append_assoc] at hrest
  obtain ⟨hextra, hrest⟩ := Mem.slice_split hrest
  obtain ⟨hlit, hrest⟩ := Mem.slice_split hrest
  obtain ⟨hoffset, hrest⟩ := Mem.slice_split hrest
  rw [length_toLE] at hoffset hrest
  have hlen : (extra s.surplus).length
      = (extra s.literals.length ++ (s.literals ++ s.encodeMatch)).length
        - (extra s.literals.length).length - s.literals.length - 2 := by
    simp only [List.length_append, s.length_encodeMatch]
    omega
  rw [← hlen] at hrest
  exact ⟨htoken, hextra, hlit, hoffset, hrest⟩

/-- Parts in place are a sequence in place. -/
theorem Sequence.of_parts {m : Mem} {ip : Nat} {s : Sequence}
    (htoken : m ip = pack (nibble s.literals.length) (nibble s.surplus))
    (hextra : m.slice (ip + 1) (extra s.literals.length).length
      = extra s.literals.length)
    (hlit : m.slice (ip + 1 + (extra s.literals.length).length)
      s.literals.length = s.literals)
    (hoffset : m.slice (ip + 1 + (extra s.literals.length).length
      + s.literals.length) 2 = toLE 2 s.offset.toNat)
    (hover : m.slice (ip + 1 + (extra s.literals.length).length
      + s.literals.length + 2) (extra s.surplus).length = extra s.surplus) :
    m.slice ip s.encode.length = s.encode := by
  have hlen : s.encode.length = (extra s.literals.length).length
      + s.literals.length + 2 + (extra s.surplus).length + 1 := by
    rw [s.length_encode, s.length_encodeMatch]
    omega
  rw [hlen, Mem.slice_cons, m.slice_add, m.slice_add, m.slice_add, htoken,
    hextra, hlit, ← Nat.add_assoc, hoffset, ← Nat.add_assoc, ← Nat.add_assoc,
    hover]
  simp only [Sequence.encode, Sequence.encodeMatch, List.append_assoc]

theorem encodeLast_of_parts {m : Mem} {ip spare : Nat} {last : List UInt8}
    (htoken : m ip = pack (nibble last.length) spare)
    (hextra : m.slice (ip + 1) (extra last.length).length
      = extra last.length)
    (hlit : m.slice (ip + 1 + (extra last.length).length) last.length = last) :
    m.slice ip (encodeLast last spare).length = encodeLast last spare := by
  have hlen : (encodeLast last spare).length
      = (extra last.length).length + last.length + 1 := by
    rw [length_encodeLast]
    omega
  rw [hlen, Mem.slice_cons, m.slice_add, htoken, hextra, hlit]
  rfl

-- ============================================================= forwards

/-- What a round leaves that reads the sequence `s`. -/
structure Sequence.Takes (s : Sequence) (c c' : Cursor) : Prop where
  ip : c'.ip = c.ip + s.encode.length
  op : c'.op = c.op + s.lz.size
  kept : Kept c.dest c'.dest c.op
  literals : c'.dest.bytes.slice c.op s.literals.length = s.literals
  match_ : 1 ≤ s.offset.toNat → Lz77.Repeats c'.dest.bytes s.offset.toNat
    (c.op + s.literals.length) c'.op

/-- A round reads a sequence that fits. -/
theorem decodeSequence_eq {s : Sequence} {rest : List UInt8}
    (hbytes : source.bytes.slice c.ip (iend - c.ip) = s.encode ++ rest)
    (hfits : s.Fits oend c.op rest.length) (hoend : oend ≤ c.dest.size)
    (hsize : iend ≤ source.size) :
    Ends (fun round => ∃ c', round = .more c' ∧ s.Takes c c')
      (fun _ => False) (decodeSequence source iend oend c) := by
  obtain ⟨htoken, hextra, hlit, hoffset, hover⟩ := Sequence.parts hbytes
  have hiend : iend - c.ip = s.encode.length + rest.length := by
    have := congrArg List.length hbytes
    simpa using this
  have hlen := s.length_encode
  have hlenm := s.length_encodeMatch
  have hfitlit := hfits.literals
  have hfitin := hfits.input
  have hfitover := hfits.surplus
  have hfitend := hfits.match_
  rw [s.size_lz] at hfitend
  have hmf : MFLIMIT = 12 := rfl
  have hll : LASTLITERALS = 5 := rfl
  have hmm : s.matchLength = s.surplus + 4 := rfl
  unfold decodeSequence
  rw [byte_ok (by omega), ok_bind, htoken,
    literalLength_eq (pack_high (nibble_le _) (nibble_le _)) hextra
      (by push_cast; omega) (by omega), ok_bind]
  dsimp only
  rw [if_neg (by push_cast; omega)]
  generalize hip : c.ip + 1 + (extra s.literals.length).length = ip at *
  refine (lz4WildCopy_source source c.dest (d := c.op) (s := ip)
    (by omega) (by omega) (by omega) (by omega)).bind ?_
  intro r₁ h₁
  obtain ⟨hkept₁, hcopied⟩ := h₁
  have hread : (lz4Read16 source (ip + s.literals.length) : Checked Int Nat)
      = .ok s.offset.toNat := by
    unfold lz4Read16
    rw [load_ok (by omega), ok_bind, hoffset,
      ofLE_toLE_of_lt (s.offset.toNat_lt)]
    rfl
  have hfitoff := hfits.offset
  rw [hread, ok_bind, if_neg (by omega),
    matchLength_eq (pack_low (nibble_le _) (nibble_le _)) hover
      (by intro hbig; have := hfitover hbig; push_cast; omega) (by omega), ok_bind]
  refine (copyMatch_spec r₁ _ (by rw [hkept₁.size]; exact hoend) (by omega)
    (Nat.sub_le _ _) (by show 4 ≤ s.surplus + 4; omega)).bind' ?_ ?_
  · intro r h
    obtain ⟨-, hkept, hrep⟩ := h
    rw [ends_pure]
    refine ⟨_, rfl, ?_, ?_, ?_, ?_, ?_⟩
    · dsimp only
      omega
    · dsimp only
      rw [s.size_lz]
      show _ + (s.surplus + 4) = _
      omega
    · exact hkept₁.trans hkept (by omega)
    · refine (hkept.slice (Nat.le_refl _)).trans (Eq.trans ?_ hlit)
      apply Mem.slice_congr
      intro i hi
      rw [hcopied (c.op + i) (by omega) (by omega)]
      congr 1
      omega
    · intro hpos
      have hrep := hrep (by omega)
      have hback : c.op + s.literals.length
          - (c.op + s.literals.length - s.offset.toNat) = s.offset.toNat := by
        omega
      rw [hback] at hrep
      exact hrep
  · intro e h
    obtain ⟨-, hlate⟩ := h
    change oend < c.op + s.literals.length + (s.surplus + 4) + 5 at hlate
    omega

/-- What a round leaves that reads the last literals. -/
structure TakesLast (last : List UInt8) (c c' : Cursor) : Prop where
  op : c'.op = c.op + last.length
  kept : Kept c.dest c'.dest c.op
  literals : c'.dest.bytes.slice c.op last.length = last

/-- A round reads the last literals, if they fit. -/
theorem decodeLast_eq {last : List UInt8} {spare : Nat}
    (hbytes : source.bytes.slice c.ip (iend - c.ip) = encodeLast last spare)
    (hspare : spare < 16) (hfits : c.op + last.length ≤ oend)
    (hoend : oend ≤ c.dest.size) (hsize : iend ≤ source.size) :
    Ends (fun round => ∃ c', round = .done c' ∧ TakesLast last c c')
      (fun _ => False) (decodeSequence source iend oend c) := by
  have hiend : iend - c.ip = (encodeLast last spare).length := by
    have := congrArg List.length hbytes
    simpa using this
  have hlen := length_encodeLast last spare
  obtain ⟨htoken, hrest⟩ := Mem.slice_head hbytes
  obtain ⟨hextra, hlit⟩ := Mem.slice_split hrest
  have hn : (extra last.length ++ last).length - (extra last.length).length
      = last.length := by
    rw [List.length_append]
    omega
  rw [hn] at hlit
  have hll : LASTLITERALS = 5 := rfl
  unfold decodeSequence
  rw [byte_ok (by omega), ok_bind, htoken,
    literalLength_eq (pack_high (nibble_le _) (by omega)) hextra
      (by push_cast; omega) (by omega), ok_bind]
  dsimp only
  rw [if_pos (by right; push_cast; omega),
    if_neg (by push_cast; omega), load_ok (by omega), ok_bind, hlit]
  refine (store_spec c.dest (by omega)).bind ?_
  intro r h
  obtain ⟨hkept, hstored, -⟩ := h
  rw [ends_pure]
  exact ⟨_, rfl, rfl, hkept, hstored⟩

/-- A sequence taken is a sequence of the expansion. -/
theorem Sequence.Takes.apply {s : Sequence} {c c' : Cursor} (h : s.Takes c c')
    (hpos : 1 ≤ s.offset.toNat)
    (hle : s.offset.toNat ≤ c.op + s.literals.length) :
    s.lz.apply (c.dest.bytes.slice 0 c.op) = c'.dest.bytes.slice 0 c'.op := by
  have hfront : Lz77.front c'.dest.bytes c.op ++ s.lz.literals
      = Lz77.front c'.dest.bytes (c.op + s.lz.literals.length) := by
    rw [← Mem.slice_front, ← Mem.slice_front, Mem.slice_add, Nat.zero_add]
    exact congrArg (c'.dest.bytes.slice 0 c.op ++ ·) h.literals.symm
  rw [← h.kept.slice (by omega), Mem.slice_front,
    Mem.slice_front, h.op]
  refine Lz77.Sequence.apply_eq_of_repeats hfront hpos hle ?_
  rw [← h.op]
  exact h.match_ hpos

/-- What the loop leaves that reads sequences and the last literals. -/
structure TakesAll (seqs : List Sequence) (last : List UInt8) (c c' : Cursor) :
    Prop where
  op : c'.op = c.op + ((seqs.map Sequence.lz).map Lz77.Sequence.size).sum
    + last.length
  size : c'.dest.size = c.dest.size
  output : Lz77.Valid c.op (seqs.map Sequence.lz) →
    c'.dest.bytes.slice 0 c'.op
      = Lz77.expand (c.dest.bytes.slice 0 c.op) (seqs.map Sequence.lz) ++ last

/-- The loop decodes every block that fits. -/
theorem decodeLoop_eq {seqs : List Sequence} {last : List UInt8}
    {spare fuel : Nat}
    (hbytes : source.bytes.slice c.ip (iend - c.ip) = encodeFrom seqs last spare)
    (hspare : spare < 16) (hfits : Fits oend last spare c.op seqs)
    (hoend : oend ≤ c.dest.size) (hsize : iend ≤ source.size)
    (hfuel : seqs.length < fuel) :
    Ends (TakesAll seqs last c) (fun _ => False)
      (decodeLoop source iend oend fuel c) := by
  induction seqs generalizing c fuel with
  | nil =>
      obtain ⟨fuel, rfl⟩ : ∃ n, fuel = n + 1 := ⟨fuel - 1, by omega⟩
      rw [decodeLoop]
      refine (decodeLast_eq hbytes hspare hfits hoend hsize).bind ?_
      intro round h
      obtain ⟨c', rfl, hlast⟩ := h
      refine ends_pure.mpr ⟨hlast.op, hlast.kept.size, ?_⟩
      intro _
      rw [hlast.op, Mem.slice_add, Nat.zero_add, hlast.literals,
        hlast.kept.slice (by omega)]
      rfl
  | cons s seqs ih =>
      obtain ⟨fuel, rfl⟩ : ∃ n, fuel = n + 1 := ⟨fuel - 1, by omega⟩
      obtain ⟨hfit, hfits⟩ := hfits
      rw [encodeFrom_cons] at hbytes
      rw [decodeLoop]
      refine (decodeSequence_eq hbytes hfit hoend hsize).bind ?_
      intro round h
      obtain ⟨c', rfl, htakes⟩ := h
      have hrest := (Mem.slice_split hbytes).2
      rw [← htakes.ip, show iend - c.ip - s.encode.length = iend - c'.ip by
        rw [htakes.ip]; omega] at hrest
      have hnext := ih (c := c') hrest
        (by rw [htakes.op]; exact hfits)
        (by rw [htakes.kept.size]; exact hoend)
        (by simpa using hfuel)
      refine hnext.mono ?_ (fun _ h => h)
      intro c'' h
      refine ⟨?_, h.size.trans htakes.kept.size, ?_⟩
      · rw [h.op, htakes.op]
        simp only [List.map_cons, List.sum_cons]
        omega
      · intro hvalid
        obtain ⟨⟨hpos, hle⟩, hvalid⟩ := hvalid
        rw [List.map_cons, Lz77.expand_cons, htakes.apply hpos hle]
        apply h.output
        rw [htakes.op]
        exact hvalid

-- ============================================================ backwards

/-- What a round has read that does not fail. -/
inductive Read (source : Region) (iend oend : Int) (c : Cursor) : Round → Prop
  | more {c' : Cursor} (s : Sequence)
      (hbytes : source.bytes.slice c.ip s.encode.length = s.encode)
      (hip : c'.ip = c.ip + s.encode.length) (hrest : (c'.ip + 4 : Int) ≤ iend)
      (hop : c'.op = c.op + s.lz.size) (hsize : c'.dest.size = c.dest.size)
      (hfits : s.Fits oend.toNat c.op (iend.toNat - c'.ip)) :
      Read source iend oend c (.more c')
  | done {c' : Cursor} (last : List UInt8) (spare : Nat) (hspare : spare < 16)
      (hbytes : source.bytes.slice c.ip (encodeLast last spare).length
        = encodeLast last spare)
      (hip : (c.ip + (encodeLast last spare).length : Int) = iend)
      (hfits : (c.op + last.length : Int) ≤ oend) :
      Read source iend oend c (.done c')

/-- The two bytes of an offset. -/
theorem lz4Read16_spec {i : Nat} (h : i + 2 ≤ source.size) :
    Ends (fun n => ∃ offset : UInt16, n = offset.toNat
      ∧ source.bytes.slice i 2 = toLE 2 offset.toNat) (fun _ : Int => False)
      (lz4Read16 source i) := by
  unfold lz4Read16
  rw [load_ok h, ok_bind, ends_pure]
  have hlt := ofLE_lt (source.bytes.slice i 2)
  rw [Mem.length_slice] at hlt
  have hval : (UInt16.ofNat (ofLE (source.bytes.slice i 2))).toNat
      = ofLE (source.bytes.slice i 2) := by
    rw [UInt16.toNat_ofNat', Nat.mod_eq_of_lt (by omega)]
  refine ⟨UInt16.ofNat (ofLE (source.bytes.slice i 2)), hval.symm, ?_⟩
  have hback := toLE_ofLE (source.bytes.slice i 2)
  rw [Mem.length_slice] at hback
  rw [hval, hback]

/-- A round stays in bounds, and if it does not fail it has read a
sequence that fits, or the last literals. -/
theorem decodeSequence_spec {iend oend : Int} (hsize : iend ≤ source.size)
    (hip : c.ip + 2 ≤ source.size) (hoend : oend ≤ c.dest.size) :
    Ends (Read source iend oend c) (· < 0)
      (decodeSequence source iend oend c) := by
  have hmf : MFLIMIT = 12 := rfl
  have hll : LASTLITERALS = 5 := rfl
  have hpack := pack_div_mod (source.bytes c.ip)
  have hspare : (source.bytes c.ip).toNat % 16 < 16 := Nat.mod_lt _ (by omega)
  unfold decodeSequence
  rw [byte_ok (by omega), ok_bind]
  refine (literalLength_spec hsize (by omega)).bind ?_
  intro r h
  obtain ⟨hstart, hlength⟩ := h
  obtain ⟨ip, length⟩ := r
  dsimp only at hstart hlength ⊢
  split
  next hend =>
    split
    next => exact ends_outputError _
    next hfits =>
      have hall : (ip + length : Int) = iend := by
        by_contra hne
        exact hfits (.inl hne)
      have hroom : (c.op + length : Int) ≤ oend := by
        by_contra hgt
        exact hfits (.inr (by push_cast; omega))
      obtain ⟨hnibble, hextra⟩ := hlength.resolve_right (by omega)
      have he : (extra length).length = ip - (c.ip + 1) := by
        rw [← hextra, Mem.length_slice]
      rw [← he] at hextra
      have hlast : (source.bytes.slice ip length).length = length := by simp
      have hip' : c.ip + 1 + (extra length).length = ip := by omega
      rw [load_ok (by omega), ok_bind]
      refine (store_spec c.dest (by rw [hlast]; omega)).bind ?_
      intro dest h
      rw [ends_pure]
      refine Read.done (source.bytes.slice ip length)
        ((source.bytes c.ip).toNat % 16) hspare ?_ ?_ (by rw [hlast]; exact hroom)
      · apply encodeLast_of_parts
        · rw [hlast, ← hnibble, hpack]
        · rw [hlast, hextra]
        · rw [hlast, hip']
      · rw [length_encodeLast, hlast]
        push_cast
        omega
  next hmore =>
    have hout : (c.op + length + 12 : Int) ≤ oend := by
      by_contra hgt
      exact hmore (.inl (by push_cast; omega))
    have hin : (ip + length + 8 : Int) ≤ iend := by
      by_contra hgt
      exact hmore (.inr (by omega))
    obtain ⟨hnibble, hextra⟩ := hlength.resolve_right (by omega)
    have he : (extra length).length = ip - (c.ip + 1) := by
      rw [← hextra, Mem.length_slice]
    rw [← he] at hextra
    have hip' : c.ip + 1 + (extra length).length = ip := by omega
    refine (lz4WildCopy_source source c.dest (d := c.op) (s := ip)
      (by omega) (by omega) (by omega) (by omega)).bind ?_
    intro r₁ h₁
    obtain ⟨hkept₁, -⟩ := h₁
    refine (lz4Read16_spec (by omega)).bind' ?_ (fun _ h => False.elim h)
    intro n h
    obtain ⟨offset, rfl, hoffset⟩ := h
    split
    next => exact ends_outputError _
    next hreach =>
      refine (matchLength_spec hsize).bind ?_
      intro r h
      obtain ⟨ip', len⟩ := r
      obtain ⟨hstart', surplus, hlen, hnibble', hover, hrest⟩ := h
      dsimp only at hstart' hlen hover hrest ⊢
      obtain ⟨oend, rfl⟩ : ∃ n : Nat, oend = n := ⟨oend.toNat, by omega⟩
      have hmm : surplus + MINMATCH = surplus + 4 := rfl
      have heo : (extra surplus).length = ip' - (ip + length + 2) := by
        rw [← hover, Mem.length_slice]
      rw [← heo] at hover
      have hover0 : surplus < 15 → (extra surplus).length = 0 := by
        intro h
        rw [extra_of_lt h]
        rfl
      refine (copyMatch_spec r₁ ip' (by rw [hkept₁.size]; omega) (by omega)
        (Nat.sub_le _ _) (by omega)).bind' ?_ ?_
      case refine_2 =>
        intro e h
        obtain ⟨rfl, -⟩ := h
        omega
      intro dest h
      obtain ⟨hmatch, hkept, -⟩ := h
      rw [ends_pure]
      have hlit : (source.bytes.slice ip length).length = length := by simp
      have hslen : ({ literals := source.bytes.slice ip length
                      offset, surplus } : Sequence).encode.length = ip' - c.ip := by
        rw [Sequence.length_encode, Sequence.length_encodeMatch, hlit]
        dsimp only
        omega
      refine Read.more ⟨source.bytes.slice ip length, offset, surplus⟩ ?_ ?_ ?_ ?_
        (hkept.size.trans hkept₁.size) ?_
      · apply Sequence.of_parts
        · dsimp only
          rw [hlit, ← hnibble, ← hnibble', hpack]
        · dsimp only
          rw [hlit, hextra]
        · dsimp only
          rw [hlit, hip']
        · dsimp only
          rw [hlit, hip', hoffset]
        · dsimp only
          rw [hlit, hip', hover]
      · dsimp only
        omega
      · dsimp only
        by_cases hbig : 15 ≤ surplus
        · exact hrest hbig
        · have := hover0 (by omega)
          omega
      · rw [Sequence.size_lz]
        dsimp only
        rw [hlit, hlen]
        show _ = c.op + (length + (surplus + MINMATCH))
        omega
      · refine ⟨?_, ?_, ?_, ?_, ?_⟩
        · dsimp only
          rw [hlit]
          omega
        · rw [Sequence.length_encodeMatch]
          dsimp only
          omega
        · dsimp only
          rw [hlit]
          omega
        · intro hbig
          have := hrest hbig
          dsimp only
          omega
        · rw [Sequence.size_lz]
          dsimp only
          rw [hlit]
          show c.op + (length + (surplus + MINMATCH)) + LASTLITERALS ≤ _
          omega

/-- A loop that does not fail has read a block that fits. -/
theorem decodeLoop_spec {iend oend : Int} {fuel : Nat}
    (hsize : iend ≤ source.size) (hip : c.ip + 2 ≤ source.size)
    (hoend : oend ≤ c.dest.size) (hfuel : (iend - c.ip).toNat < fuel) :
    Ends (fun _ => ∃ seqs last spare, spare < 16
        ∧ (c.ip + (encodeFrom seqs last spare).length : Int) = iend
        ∧ source.bytes.slice c.ip (encodeFrom seqs last spare).length
          = encodeFrom seqs last spare
        ∧ 0 ≤ oend ∧ Fits oend.toNat last spare c.op seqs) (· < 0)
      (decodeLoop source iend oend fuel c) := by
  induction fuel generalizing c with
  | zero => omega
  | succ fuel ih =>
      rw [decodeLoop]
      refine (decodeSequence_spec hsize hip hoend).bind ?_
      intro round h
      cases h with
      | done last spare hspare hbytes hip hfits =>
          refine ends_pure.mpr
            ⟨[], last, spare, hspare, hip, hbytes, by omega, ?_⟩
          show c.op + last.length ≤ oend.toNat
          omega
      | @more c' s hbytes hip hrest hop hdest hfits =>
          have hlen := s.length_encode
          refine (ih (c := c') (by omega) (by rw [hdest]; exact hoend)
            (by omega)).mono ?_ (fun _ h => h)
          intro _ h
          obtain ⟨seqs, last, spare, hspare, hend, hslice, hpos, hfit⟩ := h
          refine ⟨s :: seqs, last, spare, hspare, ?_, ?_, hpos, ?_, ?_⟩
          · rw [encodeFrom_cons, List.length_append]
            push_cast
            omega
          · rw [encodeFrom_cons, List.length_append, Mem.slice_add, hbytes, ← hip,
              hslice]
          · have : iend.toNat - c'.ip = (encodeFrom seqs last spare).length := by
              omega
            rwa [this] at hfits
          · rwa [hop] at hfit

end Yrmcds
