/-
Transparent compression, from the writer's `send_data` to the reader's
`yrmcds_recv`.

`sendData_spec` says what a request carries: the data as it is, or a size
word and an LZ4 block with the flag set. `unpack_block` says what a
reader makes of the second. Together with the reference's reading of a
retrieval (`Retrieval.refCut_packet`) they give the round trip
(`retrieval_roundtrip`) and tell which accepted values a reader chokes on
(`harmless_iff`): those marked compressed by their own flags, which the
writer refuses only when it compresses itself, and those too large for
the receive buffer, whose limit the writer does not know.
-/
import Yrmcds.Proofs.Recv.Progress
import Yrmcds.Spec.Retrieval

namespace Yrmcds

open Endian Query Framing

variable {lz : Lz4}

-- ============================================================== flag bits

theorem flags_marked (flags mark : UInt32) : (flags ||| mark) &&& mark = mark := by
  apply UInt32.toBitVec_inj.mp
  ext i hi
  simp
  exact Or.inr

/-- The mark can be taken off flags that did not have it. -/
theorem flags_unmarked {flags mark : UInt32} (h : flags &&& mark = 0) :
    (flags ||| mark) &&& ~~~mark = flags := by
  have hbits := congrArg UInt32.toBitVec h
  apply UInt32.toBitVec_inj.mp
  ext i hi
  have hbit := congrArg (fun b => b.getLsbD i) hbits
  simp [hi] at hbit ⊢
  grind

-- ============================================================= the writer

/-- What an accepted request carries: the data as it is, or marked and
compressed. -/
theorem sendData_spec {c : Conn} {malloc : Bool} {cmd : Command}
    {key data : Ptr} {flags expire : UInt32} {cas : UInt64} {p : Packet}
    (h : sendData lz c malloc cmd key data flags expire cas = .ok p) :
    data.len = data.bytes.length
    ∧ ((¬ (c.compressSize > 0 ∧ data.len > c.compressSize)
        ∧ p.storedFlags = flags ∧ p.payload = data.bytes)
      ∨ ((c.compressSize > 0 ∧ data.len > c.compressSize)
        ∧ flags &&& FLAG_COMPRESS = 0
        ∧ p.storedFlags = flags ||| FLAG_COMPRESS
        ∧ lz.compressBytes data.bytes (toInt data.len) ≠ []
        ∧ p.payload = toBE 4 data.len
          ++ lz.compressBytes data.bytes (toInt data.len))) := by
  have hstored : ∀ f : UInt32, UInt32.ofNat (ofBE ((toBE 4 f.toNat
      ++ toBE 4 expire.toNat).take 4)) = f := by
    intro f
    rw [List.take_left' (by simp), ofBE_toBE_of_lt f.toNat_lt,
      UInt32.ofNat_toNat]
  unfold sendData at h
  split at h
  next => cases h
  next hargs =>
    have hlen : data.len = data.bytes.length := by
      cases data with
      | null n => exact absurd (Or.inr (Or.inr (Or.inl rfl))) hargs
      | buf bs => rfl
    refine ⟨hlen, ?_⟩
    split at h
    next hlong =>
      split at h
      next => cases h
      next hmark =>
        split at h
        next => cases h
        next =>
          dsimp only at h
          split at h
          next => cases h
          next hblock =>
            cases h
            refine Or.inr ⟨hlong, by simpa using hmark, hstored _, ?_, rfl⟩
            exact fun hnil => hblock (by rw [hnil]; rfl)
    next hshort =>
      cases h
      exact Or.inl ⟨hshort, hstored _, rfl⟩

-- ============================================================= the reader

/-- A length whose low 32 bits are a non-negative `int` is narrowed to
them. -/
theorem toInt_natCast {n : Nat} (h : n % 2 ^ 32 < 2 ^ 31) :
    toInt n = (n % 2 ^ 32 : Nat) := by
  unfold toInt
  rw [← Int.emod_bmod]
  exact Int.bmod_eq_of_le (by omega) (by omega)

/-- `(unsigned int)(int)` of a length: its low 32 bits. -/
theorem toUnsigned_toInt (n : Nat) : toUnsigned (toInt n) = n % 2 ^ 32 := by
  unfold toUnsigned toInt
  have hmod : Int.bmod n (2 ^ 32) % (2 ^ 32 : Nat) = n % (2 ^ 32 : Nat) :=
    Int.bmod_emod ..
  omega

/-- The block in the payload is in memory behind the size word. -/
theorem slice_ofList (bs : List UInt8) :
    (Mem.ofList bs).slice 0 bs.length = bs := by
  apply List.ext_getElem (by simp [Mem.slice])
  intro i hi hi'
  simp [Mem.slice, Mem.ofList, List.getD, hi']

/-- A size word and the block of what was compressed unpack to what was
compressed: the data, when its length is one of an `int`. -/
theorem unpack_block (hlz : lz.Lawful) {data : List UInt8}
    (hne : lz.compressBytes data (toInt data.length) ≠ []) :
    ∃ out, unpack lz (toBE 4 data.length
        ++ lz.compressBytes data (toInt data.length)) = some out
      ∧ (data.length < 2 ^ 31 → out = data) := by
  have hmax : LZ4_MAX_INPUT_SIZE = 2113929216 := rfl
  have hint : INT_MAX = 2147483647 := rfl
  unfold Lz4.compressBytes at hne ⊢
  rw [toUnsigned_toInt] at hne ⊢
  by_cases hbig : data.length % 2 ^ 32 > LZ4_MAX_INPUT_SIZE
  · rw [if_pos hbig] at hne
    exact absurd rfl hne
  · rw [if_neg hbig] at hne ⊢
    rw [toInt_natCast (by omega), Int.toNat_natCast] at hne ⊢
    generalize hout : data.take (data.length % 2 ^ 32) = out at hne ⊢
    have hlen : out.length = data.length % 2 ^ 32 := by
      rw [← hout, List.length_take]
      exact Nat.min_eq_left (Nat.mod_le _ _)
    refine ⟨out, ?_, fun hsmall => ?_⟩
    · rw [unpack, List.take_left' (by simp), List.drop_left' (by simp),
        ofBE_toBE, show 256 ^ 4 = 2 ^ 32 from rfl, List.length_append,
        length_toBE, if_neg (by omega), if_neg (by omega),
        Nat.add_sub_cancel_left, ← hlen,
        hlz.round out _ (by omega) hne (slice_ofList _)]
      dsimp only
      rw [if_pos rfl]
    · rw [← hout, Nat.mod_eq_of_lt (by omega), List.take_length]

-- ============================================================ round trip

/-- What a reader with compression on makes of a stored value, if it is
not too large: nothing bad, unless the value is marked by the writer's own
flags and happens not to decode. -/
theorem unpack_stored (hlz : lz.Lawful) {c : Conn} {malloc : Bool}
    {cmd : Command} {key data : Ptr} {flags expire : UInt32} {cas : UInt64}
    {p : Packet}
    (h : sendData lz c malloc cmd key data flags expire cas = .ok p)
    {compressSize : Nat} (hr : compressSize > 0) :
    (c.compressSize > 0 ∧ data.len > c.compressSize →
      ∃ out, unpackIfMarked lz compressSize p.storedFlags p.payload
          = some (flags, out)
        ∧ (data.len < 2 ^ 31 → out = data.bytes))
    ∧ (¬ (c.compressSize > 0 ∧ data.len > c.compressSize) →
      unpackIfMarked lz compressSize p.storedFlags p.payload
        = unpackIfMarked lz compressSize flags data.bytes) := by
  obtain ⟨hlen, ⟨hplain, hf, hp⟩ | ⟨hlong, hmark, hf, hne, hp⟩⟩ :=
    sendData_spec h
  · exact ⟨fun hlong => absurd hlong hplain, fun _ => by rw [hf, hp]⟩
  · refine ⟨fun _ => ?_, fun hplain => absurd hlong hplain⟩
    rw [hlen] at hne hp
    obtain ⟨out, hout, hdata⟩ := unpack_block hlz hne
    refine ⟨out, ?_, by rw [hlen]; exact hdata⟩
    have hmarked : compressSize ≠ 0
        ∧ (flags ||| FLAG_COMPRESS) &&& FLAG_COMPRESS ≠ 0 := by
      rw [flags_marked]
      exact ⟨by omega, by decide⟩
    rw [unpackIfMarked, hf, hp, if_pos hmarked, hout, flags_unmarked hmark]

/-- What a writer with compression on or off stores, any reader with
compression on returns, whatever the two thresholds: a call in front of
the server's answer returns the original flags and data, unless the kernel
or the allocator fails it, and there is a way for it to return. -/
theorem retrieval_roundtrip (hlz : lz.Lawful) {c : Conn} {malloc : Bool}
    {cmd : Command} {key data : List UInt8} {flags expire : UInt32}
    {cas : UInt64} {p : Packet} (hlen : data.length < 2 ^ 31)
    (hflags : flags &&& FLAG_COMPRESS = 0)
    (hp : sendData lz c malloc cmd (.buf key) (.buf data) flags expire cas
      = .ok p)
    {g : Retrieval} (hg : g.WellFormed) (hgf : g.flags = p.storedFlags)
    (hgd : g.data = p.payload) (hmax : g.totalLen ≤ MAX_CAPACITY)
    {rc : Conn} {stream rest : List UInt8} (hok : rc.BufOk)
    (hinv : rc.invalid = false) (hr : rc.compressSize > 0)
    (hstream : rc.pending ++ stream = g.packet ++ rest) :
    (∀ script res rc' k',
      yrmcdsRecv lz rc ⟨stream, script⟩ = some (res, rc', k') →
      (∃ r, res = .ok r ∧ r.flags = flags ∧ r.data = data)
      ∨ ∃ e used a, res = .err e ∧ script = used ++ a :: k'.script
        ∧ a.Fails e)
    ∧ ∃ script rc' k' r,
      yrmcdsRecv lz rc ⟨stream, script⟩ = some (.ok r, rc', k')
        ∧ r.flags = flags ∧ r.data = data := by
  have hunpack : unpackIfMarked lz rc.compressSize g.flags g.data
      = some (flags, data) := by
    obtain ⟨hlong, hplain⟩ := unpack_stored hlz hp hr
    rw [hgf, hgd]
    by_cases h : c.compressSize > 0 ∧ (Ptr.buf data).len > c.compressSize
    · obtain ⟨out, hout, hdata⟩ := hlong h
      rw [hout, hdata hlen]
      rfl
    · rw [hplain h, unpackIfMarked, if_neg fun h => h.2 hflags]
      rfl
  have hcut : refCut lz rc.compressSize (rc.pending ++ stream)
      = .frame (24 + g.totalLen) (g.response flags data) := by
    rw [hstream, g.refCut_packet lz rc.compressSize hg,
      if_neg (by omega), hunpack]
  constructor
  · intro script res rc' k' hcall
    obtain ⟨-, rfl | hfail⟩ := yrmcdsRecv_frame hlz hok hinv hcut hcall
    · exact Or.inl ⟨_, rfl, rfl, rfl⟩
    · exact Or.inr hfail
  · have hmore : refCut lz rc.compressSize (rc.pending ++ stream) ≠ .more := by
      rw [hcut]
      intro hm
      cases hm
    obtain ⟨script, res, rc', stream', -, hres, hcall⟩ :=
      yrmcdsRecv_finishes hok hinv hmore
    obtain ⟨-, rfl | ⟨e, used, a, rfl, -, ha⟩⟩ :=
      yrmcdsRecv_frame hlz hok hinv hcut (hcall [])
    · exact ⟨_, rc', _, _, hcall [], rfl, rfl⟩
    · exact absurd ha.abs hres

/-- Three bytes compressed above a threshold of two, read back by a
connection with another threshold. -/
theorem retrieval_roundtrip_three :
    ∃ script rc' k' r,
      yrmcdsRecv Lz4.literals
          (yrmcdsSetCompression (Conn.connected 4 fun _ => 0) 5).2
          ⟨Retrieval.packet ⟨0x00, 0, 0, 1, 0, 0x40000007, [],
            [0, 0, 0, 3, 48, 1, 2, 3]⟩, script⟩
        = some (.ok r, rc', k')
      ∧ r.flags = 7 ∧ r.data = [1, 2, 3] :=
  (retrieval_roundtrip Lz4.literals_lawful (by decide) (by decide)
    (show sendData Lz4.literals
        (yrmcdsSetCompression (Conn.connected 3 fun _ => 0) 2).2 true .set
        (.buf [107]) (.buf [1, 2, 3]) 7 0 0 = .ok
          ⟨.set, 0, .buf [107], .buf [0x40, 0, 0, 7, 0, 0, 0, 0],
            .buf [0, 0, 0, 3, 48, 1, 2, 3]⟩ from rfl)
    ⟨by decide, by decide, by decide, by decide⟩ (by decide) rfl (by decide)
    ⟨Nat.le_refl _, Nat.zero_le _, by
      show RECV_SIZE ≤ 2 ^ 20
      decide⟩
    rfl (by decide) (List.append_nil _).symm).2

-- ======================================================== chosen payloads

/-- No call that has the packet next poisons its connection: it returns
the packet, or the kernel or the allocator fails it. -/
def Harmless (lz : Lz4) (g : Retrieval) : Prop :=
  ∀ (rc : Conn) (stream rest : List UInt8) (script : List Answer)
    (res : RecvResult) (rc' : Conn) (k' : Kernel),
    rc.BufOk → rc.invalid = false → rc.compressSize > 0 →
    rc.pending ++ stream = g.packet ++ rest →
    yrmcdsRecv lz rc ⟨stream, script⟩ = some (res, rc', k') →
    rc'.invalid = false ∧ ((∃ r, res = .ok r)
      ∨ ∃ e used a, res = .err e ∧ script = used ++ a :: k'.script
        ∧ a.Fails e)

/-- A packet does no harm exactly when it is not too large and its payload
is unmarked or unpacks. -/
theorem harmless_packet_iff (hlz : lz.Lawful) {g : Retrieval}
    (hg : g.WellFormed) :
    Harmless lz g ↔ g.totalLen ≤ MAX_CAPACITY
      ∧ unpackIfMarked lz 1 g.flags g.data ≠ none := by
  have hanyThreshold : ∀ {n : Nat}, n > 0 →
      unpackIfMarked lz n g.flags g.data
        = unpackIfMarked lz 1 g.flags g.data := by
    intro n hn
    simp [unpackIfMarked, show n ≠ 0 by omega]
  constructor
  · intro h
    -- otherwise a fresh connection is poisoned by it
    by_contra hno
    let rc := (yrmcdsSetCompression (Conn.connected 0 fun _ => 0) 1).2
    have hok : rc.BufOk := ⟨Nat.le_refl _, Nat.zero_le _, by
      show RECV_SIZE ≤ 2 ^ 20
      decide⟩
    have hcut : refCut lz rc.compressSize (rc.pending ++ g.packet) = .bad := by
      have hcut := g.refCut_packet lz 1 hg []
      rw [List.append_nil] at hcut
      show refCut lz 1 g.packet = _
      rw [hcut]
      split
      next => rfl
      next hmax =>
        cases hunpack : unpackIfMarked lz 1 g.flags g.data with
        | none => rfl
        | some out => exact absurd ⟨by omega, by rw [hunpack]; simp⟩ hno
    have hmore : refCut lz rc.compressSize (rc.pending ++ g.packet) ≠ .more := by
      rw [hcut]
      intro hm
      cases hm
    obtain ⟨script, res, rc', stream', -, hres, hcall⟩ :=
      yrmcdsRecv_finishes hok rfl hmore
    have hgood := (h rc g.packet [] (script ++ []) res rc' _ hok rfl
      (by decide) (List.append_nil _).symm (hcall [])).1
    rw [yrmcdsRecv_bad hlz hok rfl hcut (hcall []) hres] at hgood
    cases hgood
  · rintro ⟨hmax, hunpack⟩ rc stream rest script res rc' k' hok hinv hr
      hstream hcall
    have hcut := g.refCut_packet lz rc.compressSize hg rest
    rw [← hstream, if_neg (by omega), hanyThreshold hr] at hcut
    cases hout : unpackIfMarked lz 1 g.flags g.data with
    | none => exact absurd hout hunpack
    | some out =>
        rw [hout] at hcut
        obtain ⟨hgood, hres⟩ := yrmcdsRecv_frame hlz hok hinv hcut hcall
        exact ⟨hgood, hres.imp_left fun h => ⟨_, h⟩⟩

/-- Which accepted values do no harm to a reader: those whose answer fits
the receive buffer, and that are compressed by the writer, or not marked
by their flags, or happen to unpack. -/
theorem stored_harmless_iff (hlz : lz.Lawful) {c : Conn} {malloc : Bool}
    {key data : Ptr} {flags expire : UInt32} {cas : UInt64} {quiet : Bool}
    {p : Packet} (hs : c.compressSize > 0)
    (hp : yrmcdsSet lz c malloc key data flags expire cas quiet = .ok p
      ∨ yrmcdsAdd lz c malloc key data flags expire cas quiet = .ok p
      ∨ yrmcdsReplace lz c malloc key data flags expire cas quiet = .ok p
      ∨ yrmcdsReplaceUnlock lz c malloc key data flags expire quiet = .ok p)
    {g : Retrieval} (hg : g.WellFormed) (hgf : g.flags = p.storedFlags)
    (hgd : g.data = p.payload) :
    Harmless lz g ↔ g.totalLen ≤ MAX_CAPACITY
      ∧ (data.len > c.compressSize ∨ flags &&& FLAG_COMPRESS = 0
        ∨ unpack lz data.bytes ≠ none) := by
  obtain ⟨cmd, cas', hp⟩ : ∃ cmd cas',
      sendData lz c malloc cmd key data flags expire cas' = .ok p := by
    rcases hp with hp | hp | hp | hp
    · exact ⟨_, _, hp⟩
    · exact ⟨_, _, hp⟩
    · exact ⟨_, _, hp⟩
    · exact ⟨_, _, hp⟩
  obtain ⟨hlong, hplain⟩ := unpack_stored hlz hp (show 1 > 0 by decide)
  rw [harmless_packet_iff hlz hg, hgf, hgd]
  apply and_congr_right
  intro _
  by_cases h : c.compressSize > 0 ∧ data.len > c.compressSize
  · obtain ⟨out, hout, -⟩ := hlong h
    rw [hout]
    exact ⟨fun _ => Or.inl h.2, fun _ hnone => by cases hnone⟩
  · rw [hplain h, unpackIfMarked]
    by_cases hmark : flags &&& FLAG_COMPRESS = 0
    · rw [if_neg fun hm => hm.2 hmark]
      exact ⟨fun _ => Or.inr (Or.inl hmark), fun _ hnone => by cases hnone⟩
    · rw [if_pos ⟨by decide, hmark⟩]
      cases unpack lz data.bytes with
      | none =>
          refine ⟨fun hne => absurd rfl hne, ?_⟩
          rintro (hl | hm | hne)
          · exact absurd ⟨hs, hl⟩ h
          · exact absurd hm hmark
          · exact absurd rfl hne
      | some out =>
          exact ⟨fun _ => Or.inr (Or.inr fun hnone => by cases hnone),
            fun _ hnone => by cases hnone⟩

/-- A plain value of three bytes does no harm. -/
theorem stored_harmless_three :
    Harmless Lz4.literals ⟨0x00, 0, 0, 1, 0, 5, [], [97, 98, 99]⟩ :=
  (stored_harmless_iff Lz4.literals_lawful (by decide)
    (Or.inl (show yrmcdsSet Lz4.literals
        (yrmcdsSetCompression (Conn.connected 3 fun _ => 0) 16384).2 true
        (.buf [107]) (.buf [97, 98, 99]) 5 0 0 false = .ok
          ⟨.set, 0, .buf [107], .buf [0, 0, 0, 5, 0, 0, 0, 0],
            .buf [97, 98, 99]⟩ from rfl))
    ⟨by decide, by decide, by decide, by decide⟩ (by decide) rfl).mpr
    ⟨by decide, Or.inr (Or.inl (by decide))⟩

/-- The same value with the compression bit among its flags is accepted
and poisons the reader. -/
theorem marked_set_harmful :
    ∃ p, yrmcdsSet Lz4.literals
        (yrmcdsSetCompression (Conn.connected 3 fun _ => 0) 16384).2 true
        (.buf [107]) (.buf [97, 98, 99]) 0x40000000 0 0 false = .ok p
      ∧ (sendCommand
        (yrmcdsSetCompression (Conn.connected 3 fun _ => 0) 16384).2 p
        [.took 36]).result = some .ok
      ∧ ¬ Harmless Lz4.literals
        ⟨0x00, 0, 0, 1, 0, p.storedFlags, [], p.payload⟩ := by
  refine ⟨_, rfl, rfl, fun h => ?_⟩
  have hunpack := ((harmless_packet_iff Lz4.literals_lawful
    ⟨by decide, by decide, by decide, by decide⟩).mp h).2
  revert hunpack
  decide

end Yrmcds
