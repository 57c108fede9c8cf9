/-
What decoding a response looks at.

A call decodes in two places: once the header is in the buffer
(`headerRead`) and once the packet is (`packetRead`). It looks at nothing
behind the packet (`yrmcdsRecv_inside_iff`), but for payloads that are
marked compressed and too short. One of one to three bytes has no room for
the size word, and the length of its block comes out negative
(`ShortMarked`). One of four bytes, or of five with a token that announces
a length byte, has a size word, and a block that LZ4 reads on behind
before it looks at the end (`LoneMarked`). Even then the packet alone
decides what the call returns, as LZ4 refuses these blocks.
-/
import Yrmcds.Proofs.Codec.Decompress
import Yrmcds.Proofs.Recv.Refinement

namespace Yrmcds

open Endian Query

variable {lz : Lz4} {m : Mem} {compressSize n : Nat}

-- ================================================================== a call

/-- The call gets as far as checking the header. -/
def headerRead (c : Conn) (k : Kernel) : Option (Conn × Kernel) :=
  if c.invalid then none
  else
    match recvFill BINARY_HEADER_SIZE (k.script.length + 1) c.shiftOut k with
    | some (.ok, c, k) => some (c, k)
    | _ => none

/-- The call gets as far as decoding the packet, whose body has `n`
bytes. -/
def packetRead (c : Conn) (k : Kernel) : Option (Conn × Kernel × Nat) :=
  match headerRead c k with
  | none => none
  | some (c, k) =>
      match run c.recvbuf.answer decodeHeader with
      | none => none
      | some n =>
          match recvFill (BINARY_HEADER_SIZE + n) (k.script.length + 1) c k with
          | some (.ok, c, k) => some (c, k, n)
          | _ => none

theorem yrmcdsRecv_of_headerRead {c c₁ : Conn} {k k₁ : Kernel}
    (h : headerRead c k = some (c₁, k₁)) :
    yrmcdsRecv lz c k = recvBody lz c₁ k₁ := by
  unfold headerRead at h
  unfold yrmcdsRecv
  split at h
  next => cases h
  next hinv =>
    rw [if_neg hinv]
    split at h
    next heq =>
      cases h
      rw [heq]
    next => cases h

/-- What the call returns is decided by decoding. -/
theorem yrmcdsRecv_of_packetRead {c c₁ : Conn} {k k₁ : Kernel}
    (h : packetRead c k = some (c₁, k₁, n)) :
    yrmcdsRecv lz c k = recvPacket lz c₁ k₁ n
      ∧ n ≤ MAX_CAPACITY := by
  unfold packetRead at h
  split at h
  next => cases h
  next c₀ k₀ hhead =>
    rw [yrmcdsRecv_of_headerRead hhead]
    split at h
    next => cases h
    next n' hrun =>
      split at h
      next heq =>
        cases h
        refine ⟨?_, ?_⟩
        · rw [recvBody, hrun]
          dsimp only
          rw [heq]
        unfold decodeHeader at hrun
        simp only [run_bind, run_ite, run_pure] at hrun
        split at hrun
        next => cases hrun
        next =>
          split at hrun
          next => cases hrun
          next hmax =>
            cases hrun
            omega
      next => cases h

-- =================================================================== spans

/-- All that is looked at lies below `e`. -/
def Below (e : Nat) (spans : List Span) : Prop :=
  ∀ s ∈ spans, s.off + s.len ≤ e

@[simp] theorem below_nil (e : Nat) : Below e [] := nofun

@[simp] theorem below_cons {e : Nat} {s : Span} {spans : List Span} :
    Below e (s :: spans) ↔ s.off + s.len ≤ e ∧ Below e spans :=
  List.forall_mem_cons

@[simp] theorem below_append {e : Nat} {spans spans' : List Span} :
    Below e (spans ++ spans') ↔ Below e spans ∧ Below e spans' :=
  List.forall_mem_append

/-- Checking the header looks at the header. -/
theorem below_decodeHeader (m : Mem) :
    Below BINARY_HEADER_SIZE (asked m.answer decodeHeader) := by
  unfold decodeHeader byteAt ntoh32
  simp only [asked_bind, asked_query, asked_pure, asked_ite, run_bind,
    run_query, run_pure]
  split
  next => simp [BINARY_HEADER_SIZE]
  next => split <;> simp [BINARY_HEADER_SIZE]

theorem below_decodeFlags (m : Mem) {extrasLen e : Nat}
    (h : BINARY_HEADER_SIZE + extrasLen ≤ e) :
    Below e (asked m.answer (decodeFlags extrasLen)) := by
  unfold decodeFlags ntoh32
  simp only [asked_bind, asked_query, asked_pure, asked_ite]
  split
  next => simp
  next =>
    split
    next => simp
    next h4 =>
      rw [not_not] at h4
      subst h4
      simpa using h

theorem below_decodeValue (m : Mem) (r : Response) {pdata dataLen e : Nat}
    (h : pdata + dataLen ≤ e) :
    Below e (asked m.answer (decodeValue r pdata dataLen)) := by
  unfold decodeValue ntoh64
  simp only [asked_bind, asked_query, asked_pure, asked_ite]
  split
  next => simp
  next h8 =>
    rw [not_not] at h8
    subst h8
    simpa using h

/-- The decoder, called on `inputSize` bytes from offset `off`, is given a
length and reads below `e` only: with memory that ends there it is not at
fault. -/
structure ReadsBelow (m : Mem) (e off : Nat) (inputSize : Int) (size : Nat) :
    Prop where
  length : 0 ≤ inputSize
  input : off + inputSize ≤ e
  reads : ∀ dest : Region, dest.size = size →
    lz4DecompressSafe ⟨e - off, fun i => m (off + i)⟩ dest inputSize size
      ≠ .error .fault

/-- The call of LZ4 that decoding ends in, if any, reads below `e` only. -/
def Decoded.BlockBelow (m : Mem) (e : Nat) : Decoded → Prop
  | .inflate _ off inputSize size => ReadsBelow m e off inputSize size
  | _ => True

/-- A size word, and behind it not all that the decoder reads untested. -/
def LoneBlock (m : Mem) (pdata dataLen : Nat) : Prop :=
  0 < ofBE (m.slice pdata 4) ∧ ofBE (m.slice pdata 4) ≤ INT_MAX
    ∧ (dataLen = 4 ∨ dataLen = 5 ∧ 240 ≤ (m (pdata + 4)).toNat)

/-- LZ4 reads the block of a payload with a size word from inside, unless
it is one of these. -/
theorem readsBelow_iff (m : Mem) {pdata dataLen e : Nat}
    (h : pdata + dataLen = e) (h4 : 4 ≤ dataLen)
    (hmax : dataLen ≤ MAX_CAPACITY)
    (hint : ofBE (m.slice pdata 4) ≤ INT_MAX) :
    ReadsBelow m e (pdata + 4) (toInt ((dataLen : Int) - 4))
        (ofBE (m.slice pdata 4))
      ↔ ¬ LoneBlock m pdata dataLen := by
  have hcap : MAX_CAPACITY = 52428800 := rfl
  have hlen : toInt ((dataLen : Int) - 4) = (dataLen : Int) - 4 := by
    rw [toInt_of_range] <;> omega
  have hend : e - (pdata + 4) = dataLen - 4 := by omega
  have hstops : Region.Stops ⟨e - (pdata + 4), fun i => m (pdata + 4 + i)⟩
      ↔ dataLen = 4 ∨ dataLen = 5 ∧ 240 ≤ (m (pdata + 4)).toNat := by
    rw [hend]
    refine or_congr ?_ (and_congr ?_ Iff.rfl)
    · show dataLen - 4 = 0 ↔ _
      omega
    · show dataLen - 4 = 1 ↔ _
      omega
  unfold LoneBlock
  rw [hlen, ← hstops]
  constructor
  · rintro ⟨-, -, hreads⟩ ⟨hpos, -, hlone⟩
    refine hreads ⟨_, fun _ => 0⟩ rfl ?_
    exact lz4DecompressSafe_leaves (by omega) hlone
  · intro hno
    refine ⟨by omega, by omega, fun dest hdest => ?_⟩
    refine lz4DecompressSafe_stays ?_ (by rw [hdest]) ?_
    · show (dataLen : Int) - 4 ≤ ((e - (pdata + 4) : Nat) : Int)
      omega
    · by_cases hzero : (ofBE (m.slice pdata 4) : Int) = 0
      · exact .inl hzero
      · exact .inr fun hlone => hno ⟨by omega, hint, hlone⟩

/-- What a marked payload must be for its decoding to look behind it;
`malloc` says whether LZ4 gets to see it. -/
def LooksBehind (malloc : Bool) (m : Mem) (pdata dataLen : Nat) : Prop :=
  0 < dataLen ∧ dataLen < 4 ∨ malloc = true ∧ LoneBlock m pdata dataLen

/-- The data of a response is looked at from inside, unless it is marked
and too short. -/
theorem below_decodeData_iff (m : Mem) (r : Response) (malloc : Bool)
    {pdata dataLen e : Nat} (h : pdata + dataLen = e)
    (hmax : dataLen ≤ MAX_CAPACITY) :
    (Below e (asked m.answer (decodeData compressSize r pdata dataLen))
        ∧ (malloc = true →
          (run m.answer (decodeData compressSize r pdata dataLen)).BlockBelow
            m e))
      ↔ ¬ ((compressSize ≠ 0 ∧ r.flags &&& FLAG_COMPRESS ≠ 0)
        ∧ LooksBehind malloc m pdata dataLen) := by
  have hcap : MAX_CAPACITY = 52428800 := rfl
  rw [run_decodeData]
  unfold decodeData ntoh32
  simp only [asked_bind, asked_query, asked_pure, asked_ite, run_query,
    run_bind, run_pure]
  by_cases hmark : compressSize ≠ 0 ∧ r.flags &&& FLAG_COMPRESS ≠ 0
  · rw [if_neg (not_not_intro hmark), if_neg (not_not_intro hmark)]
    by_cases hzero : dataLen = 0
    · rw [if_pos hzero, if_pos hzero]
      refine iff_of_true ⟨?_, fun _ => trivial⟩ ?_
      · simp [hzero, ← h]
      · rintro ⟨-, hshort | ⟨-, -, -, hlone⟩⟩
        · omega
        · omega
    · rw [if_neg hzero, if_neg hzero]
      by_cases hshort : dataLen < 4
      · -- the size word
        refine iff_of_false (fun hin => ?_) fun hno =>
          hno ⟨hmark, .inl ⟨by omega, hshort⟩⟩
        have hword := hin.1 ⟨pdata, 4⟩ (by simp)
        simp only at hword
        omega
      · have hbelow : ∀ c : Prop, [Decidable c] →
            Below e ([⟨pdata, dataLen⟩] ++ ([⟨pdata, 4⟩] ++ []
              ++ if c then [] else [])) := by
          intro c _
          rw [ite_self]
          simp only [below_append, below_cons, below_nil, and_true]
          omega
        refine (and_iff_right (hbelow _)).trans ?_
        split
        next hbig =>
          refine iff_of_true (fun _ => trivial) ?_
          rintro ⟨-, hno | ⟨-, -, hint, -⟩⟩
          · exact hshort hno.2
          · exact absurd hint (Nat.not_le_of_lt hbig)
        next hint =>
          rw [Decoded.BlockBelow,
            readsBelow_iff m h (by omega) hmax (Nat.le_of_not_lt hint)]
          constructor
          · rintro hno ⟨-, hshort' | ⟨hmalloc, hlone⟩⟩
            · exact hshort hshort'.2
            · exact hno hmalloc hlone
          · exact fun hno hmalloc hlone => hno ⟨hmark, .inr ⟨hmalloc, hlone⟩⟩
  · rw [if_pos hmark, if_pos hmark]
    refine iff_of_true ⟨?_, fun _ => trivial⟩ fun hno => hmark hno.1
    simp only [below_append, below_cons, below_nil, and_true]
    omega

/-- The payload of a response, a number or data. -/
theorem below_payload_iff (m : Mem) (r : Response) (malloc : Bool)
    {pdata dataLen e : Nat} (h : pdata + dataLen = e)
    (hmax : dataLen ≤ MAX_CAPACITY)
    (numeric : Prop) [Decidable numeric] {d : Decoder Decoded}
    (hd : d = if numeric then decodeValue r pdata dataLen
      else decodeData compressSize r pdata dataLen) :
    (Below e (asked m.answer d)
        ∧ (malloc = true → (run m.answer d).BlockBelow m e))
      ↔ ¬ (¬ numeric ∧ (compressSize ≠ 0 ∧ r.flags &&& FLAG_COMPRESS ≠ 0)
        ∧ LooksBehind malloc m pdata dataLen) := by
  subst hd
  by_cases hnum : numeric
  · rw [if_pos hnum]
    refine iff_of_true ⟨below_decodeValue m r (by omega), fun _ => ?_⟩
      fun hno => hno.1 hnum
    rw [run_decodeValue]
    split
    next => trivial
    next => trivial
  · rw [if_neg hnum, below_decodeData_iff m r malloc h hmax]
    exact not_congr ⟨fun hno => ⟨hnum, hno⟩, And.right⟩

/-- A payload that is marked compressed, on a connection that looks at the
mark. -/
structure Marked (compressSize : Nat) (p : List UInt8) : Prop where
  compress : compressSize ≠ 0
  extras : ((field p 4 1).headD 0).toNat = 4
  marked : UInt32.ofNat (ofBE (field p 24 4)) &&& FLAG_COMPRESS ≠ 0
  data : ¬ (((field p 1 1).headD 0 = Command.increment.code
      ∨ (field p 1 1).headD 0 = Command.decrement.code)
    ∧ UInt16.ofNat (ofBE (field p 6 2)) = Status.ok)

/-- Such a payload of one to three bytes. -/
structure ShortMarked (compressSize : Nat) (p : List UInt8) : Prop extends
    Marked compressSize p where
  pos : ofBE (field p 2 2) + 4 < p.length - 24
  short : p.length - 24 < ofBE (field p 2 2) + 8

/-- Such a payload that announces data in its size word, and has no block,
or a lone token that announces a length byte. -/
structure LoneMarked (compressSize : Nat) (p : List UInt8) : Prop extends
    Marked compressSize p where
  pos : 0 < ofBE (field p (28 + ofBE (field p 2 2)) 4)
  int : ofBE (field p (28 + ofBE (field p 2 2)) 4) ≤ INT_MAX
  lone : p.length - 24 = ofBE (field p 2 2) + 8
    ∨ p.length - 24 = ofBE (field p 2 2) + 9
      ∧ 240 ≤ ((field p (32 + ofBE (field p 2 2)) 1).headD 0).toNat

section Marked

variable {m : Mem} {n : Nat}

theorem length_packet (m : Mem) (n : Nat) :
    (m.slice 0 (BINARY_HEADER_SIZE + n)).length - 24 = n := by
  rw [Mem.length_slice]
  exact Nat.add_sub_cancel_left ..

theorem keyLen_packet (m : Mem) (n : Nat) :
    ofBE (field (m.slice 0 (BINARY_HEADER_SIZE + n)) 2 2)
      = ofBE (m.slice 2 2) := by
  have hsize : BINARY_HEADER_SIZE = 24 := rfl
  rw [field_slice m (by omega)]

/-- The mark of a packet, where it lies in the buffer. -/
theorem marked_slice_iff (hn : 4 ≤ n) :
    Marked compressSize (m.slice 0 (BINARY_HEADER_SIZE + n))
      ↔ compressSize ≠ 0 ∧ ((m.slice 4 1).headD 0).toNat = 4
        ∧ UInt32.ofNat (ofBE (m.slice 24 4)) &&& FLAG_COMPRESS ≠ 0
        ∧ ¬ (((m.slice 1 1).headD 0 = Command.increment.code
            ∨ (m.slice 1 1).headD 0 = Command.decrement.code)
          ∧ UInt16.ofNat (ofBE (m.slice 6 2)) = Status.ok) := by
  have hsize : BINARY_HEADER_SIZE = 24 := rfl
  have hfields : ∀ off len, off + len ≤ 28 →
      field (m.slice 0 (BINARY_HEADER_SIZE + n)) off len = m.slice off len :=
    fun off len h => field_slice m (by omega)
  have hmark := hfields 24 4 (by omega)
  have hcmd := hfields 1 1 (by omega)
  have hstatus := hfields 6 2 (by omega)
  have hextras := hfields 4 1 (by omega)
  constructor
  · rintro ⟨hc, he, hm, hd⟩
    rw [hextras] at he
    rw [hmark] at hm
    rw [hcmd, hstatus] at hd
    exact ⟨hc, he, hm, hd⟩
  · rintro ⟨hc, he, hm, hd⟩
    refine ⟨hc, ?_, ?_, ?_⟩
    · rw [hextras]
      exact he
    · rw [hmark]
      exact hm
    · rw [hcmd, hstatus]
      exact hd

theorem Marked.extras_slice
    (h : Marked compressSize (m.slice 0 (BINARY_HEADER_SIZE + n))) :
    ((m.slice 4 1).headD 0).toNat = 4 := by
  have hsize : BINARY_HEADER_SIZE = 24 := rfl
  have he := h.extras
  rwa [field_slice m (by omega)] at he

theorem ShortMarked.pos_slice
    (h : ShortMarked compressSize (m.slice 0 (BINARY_HEADER_SIZE + n))) :
    ofBE (m.slice 2 2) + 4 < n := by
  have hp := h.pos
  rwa [length_packet, keyLen_packet] at hp

theorem LoneMarked.pos_slice
    (h : LoneMarked compressSize (m.slice 0 (BINARY_HEADER_SIZE + n))) :
    ofBE (m.slice 2 2) + 8 ≤ n := by
  have hlone := h.lone
  rw [length_packet, keyLen_packet] at hlone
  omega

/-- The kinds of a packet, where it lies in the buffer. -/
theorem shortMarked_slice_iff (hn : 4 ≤ n) :
    ShortMarked compressSize (m.slice 0 (BINARY_HEADER_SIZE + n))
      ↔ compressSize ≠ 0 ∧ ((m.slice 4 1).headD 0).toNat = 4
        ∧ UInt32.ofNat (ofBE (m.slice 24 4)) &&& FLAG_COMPRESS ≠ 0
        ∧ ¬ (((m.slice 1 1).headD 0 = Command.increment.code
            ∨ (m.slice 1 1).headD 0 = Command.decrement.code)
          ∧ UInt16.ofNat (ofBE (m.slice 6 2)) = Status.ok)
        ∧ ofBE (m.slice 2 2) + 4 < n ∧ n < ofBE (m.slice 2 2) + 8 := by
  constructor
  · rintro ⟨hmarked, hp, hs⟩
    rw [length_packet, keyLen_packet] at hp hs
    obtain ⟨hc, he, hm, hd⟩ := (marked_slice_iff hn).mp hmarked
    exact ⟨hc, he, hm, hd, hp, hs⟩
  · rintro ⟨hc, he, hm, hd, hp, hs⟩
    refine ⟨(marked_slice_iff hn).mpr ⟨hc, he, hm, hd⟩, ?_, ?_⟩
    · rw [length_packet, keyLen_packet]
      exact hp
    · rw [length_packet, keyLen_packet]
      exact hs

theorem loneMarked_slice_iff (hn : 4 ≤ n) :
    LoneMarked compressSize (m.slice 0 (BINARY_HEADER_SIZE + n))
      ↔ compressSize ≠ 0 ∧ ((m.slice 4 1).headD 0).toNat = 4
        ∧ UInt32.ofNat (ofBE (m.slice 24 4)) &&& FLAG_COMPRESS ≠ 0
        ∧ ¬ (((m.slice 1 1).headD 0 = Command.increment.code
            ∨ (m.slice 1 1).headD 0 = Command.decrement.code)
          ∧ UInt16.ofNat (ofBE (m.slice 6 2)) = Status.ok)
        ∧ LoneBlock m (28 + ofBE (m.slice 2 2))
          (n - ofBE (m.slice 2 2) - 4) := by
  have hsize : BINARY_HEADER_SIZE = 24 := rfl
  generalize hkey : ofBE (m.slice 2 2) = keyLen
  have hfields : ∀ off len, off + len ≤ 24 + n →
      field (m.slice 0 (BINARY_HEADER_SIZE + n)) off len = m.slice off len :=
    fun off len h => field_slice m (by omega)
  constructor
  · intro h
    have hroom := h.pos_slice
    obtain ⟨hmarked, hpos, hint, hlone⟩ := h
    rw [keyLen_packet, hkey, hfields _ _ (by omega)] at hpos hint
    rw [length_packet, keyLen_packet, hkey] at hlone
    obtain ⟨hc, he, hm, hd⟩ := (marked_slice_iff hn).mp hmarked
    refine ⟨hc, he, hm, hd, hpos, hint, ?_⟩
    obtain hn8 | ⟨hn9, htoken⟩ := hlone
    · exact .inl (by omega)
    · rw [hfields _ _ (by omega)] at htoken
      exact .inr ⟨by omega, by rwa [Nat.add_right_comm]⟩
  · rintro ⟨hc, he, hm, hd, hpos, hint, hlone⟩
    have hroom : keyLen + 8 ≤ n := by omega
    refine ⟨(marked_slice_iff hn).mpr ⟨hc, he, hm, hd⟩, ?_, ?_, ?_⟩
    · rwa [keyLen_packet, hkey, hfields _ _ (by omega)]
    · rwa [keyLen_packet, hkey, hfields _ _ (by omega)]
    · rw [length_packet, keyLen_packet, hkey]
      obtain hn4 | ⟨hn5, htoken⟩ := hlone
      · exact .inl (by omega)
      · refine .inr ⟨by omega, ?_⟩
        rw [hfields _ _ (by omega), Nat.add_right_comm 28] at *
        exact htoken

end Marked

/-- What a packet must be for its decoding to look behind it; `malloc` says
whether LZ4 gets to see the block. -/
def Overread (malloc : Bool) (compressSize : Nat) (p : List UInt8) : Prop :=
  ShortMarked compressSize p ∨ malloc = true ∧ LoneMarked compressSize p

/-- A packet is decoded from inside, unless its payload is marked and too
short. -/
theorem below_decodeBody_iff (m : Mem) (compressSize : Nat) (malloc : Bool)
    {n : Nat} (hmax : n ≤ MAX_CAPACITY) :
    (Below (BINARY_HEADER_SIZE + n)
        (asked m.answer (decodeBody compressSize n))
      ∧ (malloc = true → (run m.answer (decodeBody compressSize n)).BlockBelow m
        (BINARY_HEADER_SIZE + n)))
      ↔ ¬ Overread malloc compressSize
        (m.slice 0 (BINARY_HEADER_SIZE + n)) := by
  have hsize : BINARY_HEADER_SIZE = 24 := rfl
  unfold decodeBody byteAt ntoh16 ntoh64 host32
  simp only [asked_bind, asked_query, asked_pure, asked_ite, run_query,
    run_bind, run_pure, run_ite, answer_eq]
  generalize hkey : ofBE (m.slice 2 2) = keyLen
  generalize hext : ((m.slice 4 1).headD 0).toNat = extrasLen
  -- what a packet of either kind has
  have hover : Overread malloc compressSize
      (m.slice 0 (BINARY_HEADER_SIZE + n)) → extrasLen = 4 ∧ keyLen + 4 < n := by
    rintro (hs | ⟨-, hl⟩)
    · exact ⟨hext.symm.trans hs.extras_slice, hkey ▸ hs.pos_slice⟩
    · have hroom := hl.pos_slice
      exact ⟨hext.symm.trans hl.extras_slice, by omega⟩
  by_cases hfit : n < keyLen + extrasLen
  · rw [if_pos hfit, if_pos hfit]
    refine iff_of_true ⟨?_, fun _ => trivial⟩ fun hs => ?_
    · simp only [below_append, below_cons, below_nil, and_true]
      omega
    · have hn := hover hs
      omega
  · rw [if_neg hfit, if_neg hfit]
    have hflags : Below (BINARY_HEADER_SIZE + n)
        (asked m.answer (decodeFlags extrasLen)) :=
      below_decodeFlags m (by omega)
    have hhead : ∀ spans, Below (BINARY_HEADER_SIZE + n)
        ([⟨2, 2⟩] ++ [] ++ ([⟨4, 1⟩] ++ [] ++ ([⟨1, 1⟩] ++ []
          ++ ([⟨BINARY_HEADER_SIZE + extrasLen, keyLen⟩] ++ ([⟨6, 2⟩] ++ []
            ++ ([⟨12, 4⟩] ++ [] ++ ([⟨16, 8⟩] ++ [] ++ (asked m.answer
              (decodeFlags extrasLen) ++ spans))))))))
          ↔ Below (BINARY_HEADER_SIZE + n) spans := by
      intro spans
      simp only [below_append, below_cons, below_nil, and_true, hflags,
        true_and]
      refine ⟨fun h => h.2.2.2.2.2.2.2, fun h => ⟨?_, ?_, ?_, ?_, ?_, ?_, ?_, h⟩⟩
        <;> omega
    rw [hhead, run_decodeFlags]
    by_cases h0 : extrasLen = 0
    · rw [if_pos h0]
      dsimp only
      rw [below_payload_iff m _ malloc (by omega) (by omega) _ rfl]
      apply iff_of_true (fun hno => hno.2.1.2 (by simp))
      intro hs
      have hn := hover hs
      omega
    · rw [if_neg h0]
      by_cases h4 : extrasLen ≠ 4
      · rw [if_pos h4]
        dsimp only
        refine iff_of_true ⟨by simp, fun _ => trivial⟩ fun hs => ?_
        exact h4 (hover hs).1
      · rw [not_not] at h4
        rw [if_neg (not_not_intro h4)]
        dsimp only
        have hpdata : BINARY_HEADER_SIZE + extrasLen + keyLen = 28 + keyLen := by
          omega
        have hdata : n - keyLen - extrasLen = n - keyLen - 4 := by omega
        rw [below_payload_iff m _ malloc (by omega) (by omega) _ rfl, Overread,
          shortMarked_slice_iff (by omega), loneMarked_slice_iff (by omega),
          hkey, hpdata, hdata]
        refine not_congr ⟨?_, ?_⟩
        · rintro ⟨hnum, ⟨hc, hm⟩, hshort | ⟨hmalloc, hlone⟩⟩
          · exact .inl ⟨hc, hext.trans h4, hm, hnum, by omega, by omega⟩
          · exact .inr ⟨hmalloc, hc, hext.trans h4, hm, hnum, hlone⟩
        · rintro (⟨hc, -, hm, hnum, hpos, hshort⟩
            | ⟨hmalloc, hc, -, hm, hnum, hlone⟩)
          · exact ⟨hnum, ⟨hc, hm⟩, .inl ⟨by omega, by omega⟩⟩
          · exact ⟨hnum, ⟨hc, hm⟩, .inr ⟨hmalloc, hlone⟩⟩

-- ================================================================= outcome

/-- What the packet alone says of a call. -/
def outcome (lz : Lz4) (compressSize : Nat) (p : List UInt8) : RecvResult :=
  match refDecode lz compressSize p with
  | some r => .ok r
  | none => .err .protocolError

/-- A call that decodes returns what the packet says, or has no memory. -/
theorem recvPacket_outcome (hlz : lz.Lawful) {c c' : Conn} {k k' : Kernel}
    {res : RecvResult} (hmax : n ≤ MAX_CAPACITY)
    (h : recvPacket lz c k n = some (res, c', k')) :
    res = .err .outOfMemory ∨ res = outcome lz c.compressSize
      (c.recvbuf.slice 0 (BINARY_HEADER_SIZE + n)) := by
  unfold outcome BINARY_HEADER_SIZE
  rw [← finish_decodeBody hlz c.recvbuf c.compressSize hmax]
  unfold recvPacket at h
  split at h
  next hrun =>
    cases h
    rw [hrun]
    exact .inr rfl
  next r hrun =>
    cases h
    rw [hrun]
    exact .inr rfl
  next r off inputSize size hrun =>
    rw [hrun, Decoded.finish]
    unfold inflate at h
    split at h
    next => cases h
    next =>
      cases h
      exact .inl rfl
    next =>
      right
      dsimp only at h
      split at h
      next hlz4 =>
        cases h
        rw [hlz4]
      next data hlz4 =>
        rw [hlz4]
        dsimp only
        by_cases hsize : data.length = size
        · rw [if_neg (not_not_intro hsize)] at h
          cases h
          rw [if_pos hsize]
        · rw [if_pos hsize] at h
          cases h
          rw [if_neg hsize]

/-- The allocation that comes next succeeds. -/
def Kernel.mallocs (k : Kernel) : Bool := k.alloc.any fun x => x.1.isSome

/-- A call looks at nothing but its packet, unless the payload is marked
and too short, and returns what the packet says. -/
theorem yrmcdsRecv_inside_iff (hlz : lz.Lawful) (c : Conn) (k : Kernel) :
    (∀ c₁ k₁, headerRead c k = some (c₁, k₁) →
      Below BINARY_HEADER_SIZE (asked c₁.recvbuf.answer decodeHeader))
    ∧ ∀ c₁ k₁ n, packetRead c k = some (c₁, k₁, n) →
      ((Below (BINARY_HEADER_SIZE + n)
          (asked c₁.recvbuf.answer (decodeBody c₁.compressSize n))
        ∧ (k₁.mallocs = true →
          (run c₁.recvbuf.answer (decodeBody c₁.compressSize n)).BlockBelow
            c₁.recvbuf (BINARY_HEADER_SIZE + n)))
        ↔ ¬ Overread k₁.mallocs c₁.compressSize
          (c₁.recvbuf.slice 0 (BINARY_HEADER_SIZE + n)))
      ∧ ∀ res c' k', yrmcdsRecv lz c k = some (res, c', k') →
        res = .err .outOfMemory ∨ res = outcome lz c₁.compressSize
          (c₁.recvbuf.slice 0 (BINARY_HEADER_SIZE + n)) := by
  refine ⟨fun c₁ k₁ _ => below_decodeHeader c₁.recvbuf, fun c₁ k₁ n h => ?_⟩
  obtain ⟨heq, hmax⟩ := @yrmcdsRecv_of_packetRead lz _ _ _ _ _ h
  refine ⟨below_decodeBody_iff c₁.recvbuf c₁.compressSize k₁.mallocs hmax,
    fun res c' k' hcall => ?_⟩
  rw [heq] at hcall
  exact recvPacket_outcome hlz hmax hcall

/-- The response to a `get` with one byte of data that is marked. -/
def oneMarked : List UInt8 :=
  [0x81, 0, 0, 0, 4, 0, 0, 0, 0, 0, 0, 5, 1, 0, 0, 0, 0, 0, 0, 0, 0, 0, 0, 0,
    0x40, 0, 0, 0, 97]

/-- A connection with compression on, in front of it. -/
def beforeOneMarked : Conn × Kernel :=
  ((yrmcdsSetCompression (Conn.connected 3 fun _ => 0) 16384).2,
    ⟨oneMarked, [.bytes 29]⟩)

/-- The length of the block handed to LZ4. -/
def Decoded.inputSize : Decoded → Option Int
  | .inflate _ _ inputSize _ => some inputSize
  | _ => none

/-- The size word of a payload of one byte is read from behind the
packet, and the block has length -3. -/
theorem oneMarked_outside :
    ∃ c₁ k₁ n, packetRead beforeOneMarked.1 beforeOneMarked.2
        = some (c₁, k₁, n)
      ∧ ¬ Below (BINARY_HEADER_SIZE + n)
        (asked c₁.recvbuf.answer (decodeBody c₁.compressSize n))
      ∧ (run c₁.recvbuf.answer (decodeBody c₁.compressSize n)).inputSize
        = some (-3) := by
  have hread : (packetRead beforeOneMarked.1 beforeOneMarked.2).any
      (fun x => (asked x.1.recvbuf.answer
          (decodeBody x.1.compressSize x.2.2)).any
            (fun s => decide (s.off + s.len > BINARY_HEADER_SIZE + x.2.2))
        && decide ((run x.1.recvbuf.answer
          (decodeBody x.1.compressSize x.2.2)).inputSize = some (-3)))
      = true := by decide +kernel
  obtain ⟨⟨c₁, k₁, n⟩, hx, hout⟩ := (Option.any_eq_true _ _).mp hread
  rw [Bool.and_eq_true, List.any_eq_true, decide_eq_true_eq] at hout
  obtain ⟨⟨s, hs, hfar⟩, hneg⟩ := hout
  refine ⟨c₁, k₁, n, hx, fun hbelow => ?_, hneg⟩
  have hnear := hbelow s hs
  have hfar : s.off + s.len > BINARY_HEADER_SIZE + n := of_decide_eq_true hfar
  omega

/-- The same byte unmarked is decoded from inside. -/
theorem yrmcdsRecv_inside_plain :
    ∃ c₁ k₁ n, packetRead beforeOneMarked.1
        ⟨oneMarked.set 24 0, [.bytes 29]⟩ = some (c₁, k₁, n)
      ∧ Below (BINARY_HEADER_SIZE + n)
        (asked c₁.recvbuf.answer (decodeBody c₁.compressSize n)) := by
  have hread : (packetRead beforeOneMarked.1
      ⟨oneMarked.set 24 0, [.bytes 29]⟩).any
      (fun x => decide (UInt32.ofNat (ofBE (field (x.1.recvbuf.slice 0
        (BINARY_HEADER_SIZE + x.2.2)) 24 4)) &&& FLAG_COMPRESS = 0))
      = true := by decide +kernel
  obtain ⟨⟨c₁, k₁, n⟩, hx, hplain⟩ := (Option.any_eq_true _ _).mp hread
  have hiff := ((yrmcdsRecv_inside_iff Lz4.literals_lawful _ _).2 _ _ _ hx).1
  have hplain := of_decide_eq_true hplain
  refine ⟨c₁, k₁, n, hx, (hiff.mpr ?_).1⟩
  rintro (hs | ⟨-, hl⟩)
  · exact hs.marked hplain
  · exact hl.marked hplain

end Yrmcds
