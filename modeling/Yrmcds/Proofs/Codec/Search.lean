/-
The search for a match.

The hash table is a source of guesses. What the compressor relies on is
only that every entry is a position in front of the one it looks at
(`TableBelow`): the four bytes at a guess are compared before it is used, and
with `U32` positions the distance is. With `U16` positions the distance
is not compared, and need not be: the input is so short that no position
searched is above 65535 (`findMatch_spec`).
-/
import Yrmcds.Proofs.Codec.Count

namespace Yrmcds

open Checked Region Endian Lz77

variable {ε : Type} {E : ε → Prop} {source : Region} {tableType : TableType}

-- ============================================================ the table

/-- All positions in the table are below `p`. -/
def TableBelow (table : Table) (p : Nat) : Prop := ∀ i, table i < p

theorem TableBelow.mono {table : Table} {p q : Nat} (h : TableBelow table p)
    (hle : p ≤ q) : TableBelow table q :=
  fun i => Nat.lt_of_lt_of_le (h i) hle

/-- A hash is an index of the table. -/
theorem lz4HashSequence_lt (sequence : UInt32) (tableType : TableType) :
    (lz4HashSequence sequence tableType).toNat < 2 ^ tableType.hashLog := by
  have hlt := (sequence * 2654435761).toNat_lt
  unfold lz4HashSequence
  rw [UInt32.toNat_shiftRight, Nat.shiftRight_eq_div_pow]
  cases tableType with
  | byU32 =>
      show _ / 2 ^ 20 < 2 ^ 12
      omega
  | byU16 =>
      show _ / 2 ^ 19 < 2 ^ 13
      omega

theorem lz4HashPosition_spec {p : Nat} (h : p + 4 ≤ source.size) :
    Ends (fun hash : UInt32 => hash.toNat < 2 ^ tableType.hashLog) E
      (lz4HashPosition source p tableType) := by
  unfold lz4HashPosition lz4Read32
  rw [load_ok h, ok_bind, pure_bind, ends_pure]
  exact lz4HashSequence_lt _ _

theorem lz4PutPositionOnHash_spec {p q : Nat} {h : UInt32} {table : Table}
    (hh : h.toNat < 2 ^ tableType.hashLog) (hbelow : TableBelow table q)
    (hp : p < q) :
    Ends (fun t : Table => TableBelow t q) E
      (lz4PutPositionOnHash p h table tableType) := by
  unfold lz4PutPositionOnHash
  rw [if_pos hh, ends_ok]
  intro i
  show (if _ then _ else _) < q
  split
  · exact Nat.lt_of_le_of_lt (Nat.mod_le _ _) hp
  · exact hbelow i

theorem lz4GetPositionOnHash_spec {q : Nat} {h : UInt32} {table : Table}
    (hh : h.toNat < 2 ^ tableType.hashLog) (hbelow : TableBelow table q) :
    Ends (fun p : Nat => p < q) E (lz4GetPositionOnHash h table tableType) := by
  unfold lz4GetPositionOnHash
  rw [if_pos hh, ends_ok]
  exact hbelow _

theorem lz4PutPosition_spec {p q : Nat} {table : Table}
    (h : p + 4 ≤ source.size) (hbelow : TableBelow table q) (hp : p < q) :
    Ends (fun t : Table => TableBelow t q) E
      (lz4PutPosition source p table tableType) := by
  refine (lz4HashPosition_spec h).bind ?_
  intro hash hlt
  exact lz4PutPositionOnHash_spec hlt hbelow hp

theorem lz4GetPosition_spec {p q : Nat} {table : Table}
    (h : p + 4 ≤ source.size) (hbelow : TableBelow table q) :
    Ends (fun p : Nat => p < q) E
      (lz4GetPosition source p table tableType) := by
  refine (lz4HashPosition_spec h).bind ?_
  intro hash hlt
  exact lz4GetPositionOnHash_spec hlt hbelow

-- ============================================================== matches

/-- `n` bytes at `ip` are those at `match_`. -/
def Agree (m : Mem) (ip match_ n : Nat) : Prop :=
  match_ < ip ∧ Repeats m (ip - match_) ip (ip + n)

/-- Words that are read equal are equal bytes. -/
theorem lz4Read32_agree {ip match_ : Nat} (hlt : match_ < ip)
    (hip : ip + 4 ≤ source.size) :
    Ends (fun a : UInt32 => Ends (fun b : UInt32 =>
        a = b → Agree source.bytes ip match_ 4) E
      (lz4Read32 source ip)) E (lz4Read32 source match_) := by
  unfold lz4Read32
  rw [load_ok (i := match_) (by omega), load_ok hip]
  simp only [ok_bind, ends_pure]
  intro heq
  have ha := ofLE_lt (source.bytes.slice match_ 4)
  have hb := ofLE_lt (source.bytes.slice ip 4)
  rw [Mem.length_slice] at ha hb
  have hword := congrArg UInt32.toNat heq
  rw [UInt32.toNat_ofNat', UInt32.toNat_ofNat', Nat.mod_eq_of_lt (by omega),
    Nat.mod_eq_of_lt (by omega)] at hword
  refine ⟨hlt, ?_⟩
  intro i hi hi'
  have := slice_eq_of_ofLE hword (i := i - ip) (by omega)
  rw [show ip + (i - ip) = i by omega] at this
  rw [← this]
  congr 1
  omega

/-- What the search brings: four bytes that agree, not too far away, in
front of all the positions it has entered. -/
structure Found.Ok (source : Region) (mflimit start : Nat) (s : Found) :
    Prop where
  start : start ≤ s.ip
  room : s.ip < mflimit
  agree : Agree source.bytes s.ip s.match_ 4
  near : s.ip - s.match_ ≤ MAX_DISTANCE
  table : TableBelow s.table (s.ip + 1)

/-- The search ends, with a match or without. -/
theorem findMatch_spec {mflimit fuel forwardIp step searchMatchNb : Nat}
    {forwardH : UInt32} {table : Table}
    (hsize : mflimit + 4 ≤ source.size)
    (hshort : tableType = .byU16 → mflimit ≤ 2 ^ 16)
    (hhash : forwardH.toNat < 2 ^ tableType.hashLog)
    (hbelow : TableBelow table forwardIp) (hstep : 1 ≤ step)
    (hnb : 2 ^ 6 ≤ searchMatchNb) (hstart : forwardIp ≤ mflimit + 1)
    (hfuel : mflimit + 1 < forwardIp + fuel) :
    Ends (fun r : Option Found => ∀ s, r = some s →
        s.Ok source mflimit forwardIp) E
      (findMatch source tableType mflimit fuel forwardIp step searchMatchNb
        forwardH table) := by
  induction fuel generalizing forwardIp step searchMatchNb forwardH table with
  | zero => omega
  | succ fuel ih =>
      have hstep' : 1 ≤ searchMatchNb / 2 ^ 6 := by omega
      rw [findMatch]
      split
      next =>
        apply ends_pure.mpr
        intro s hs
        cases hs
      next hroom =>
        refine (lz4GetPositionOnHash_spec hhash hbelow).bind ?_
        intro match_ hmatch
        refine (lz4HashPosition_spec (by omega)).bind ?_
        intro forwardH' hhash'
        refine (lz4PutPositionOnHash_spec (q := forwardIp + 1) hhash
          (hbelow.mono (by omega)) (by omega)).bind ?_
        intro table' hbelow'
        -- the search goes on behind the next position
        have hgo : Ends (fun r : Option Found => ∀ s, r = some s →
            s.Ok source mflimit forwardIp) E
            (findMatch source tableType mflimit fuel (forwardIp + step)
              (searchMatchNb / 2 ^ 6) (searchMatchNb + 1) forwardH' table') := by
          refine (ih hhash' (hbelow'.mono (by omega)) hstep' (by omega)
            (by omega) (by omega)).mono ?_ (fun _ h => h)
          intro r h s hs
          have hok := h s hs
          exact ⟨by have := hok.start; omega, hok.room, hok.agree, hok.near,
            hok.table⟩
        split
        next => exact hgo
        next hnear =>
          refine (lz4Read32_agree hmatch (by omega)).bind ?_
          intro a ha
          refine ha.bind ?_
          intro b hagree
          split
          next => exact hgo
          next heq =>
            apply ends_pure.mpr
            intro s hs
            injection hs with hs
            subst hs
            have hmax : MAX_DISTANCE = 65535 := rfl
            refine ⟨Nat.le_refl _, by dsimp only; omega, hagree (by simpa using heq),
              ?_, hbelow'⟩
            dsimp only
            by_cases hu16 : tableType = .byU16
            · have := hshort hu16
              omega
            · have : ¬ match_ + MAX_DISTANCE < forwardIp := fun h => hnear ⟨hu16, h⟩
              omega

/-- Catching up extends the agreement to the left. -/
theorem catchUp_spec {anchor ip match_ : Nat} (hanchor : anchor ≤ ip)
    (hlt : match_ < ip) (hsize : ip ≤ source.size) :
    Ends (fun p : Nat × Nat => anchor ≤ p.1 ∧ p.1 ≤ ip ∧ p.2 < p.1
        ∧ p.1 - p.2 = ip - match_
        ∧ Repeats source.bytes (ip - match_) p.1 ip) E
      (catchUp source anchor ip match_) := by
  induction hn : ip using Nat.strongRecOn generalizing ip match_ with
  | ind n ih =>
      subst hn
      have hhere : Ends (fun p : Nat × Nat => anchor ≤ p.1 ∧ p.1 ≤ ip ∧ p.2 < p.1
          ∧ p.1 - p.2 = ip - match_
          ∧ Repeats source.bytes (ip - match_) p.1 ip) E (pure (ip, match_)) :=
        ends_pure.mpr ⟨hanchor, Nat.le_refl _, hlt, rfl, Repeats.empty _ _ _⟩
      rw [catchUp]
      split
      next hmore =>
        rw [byte_ok (by omega), ok_bind, byte_ok (by omega), ok_bind]
        split
        next heq =>
          refine (ih (ip - 1) (by omega)
            (by omega) (by omega) (by omega) rfl).mono ?_ (fun _ h => h)
          intro p h
          obtain ⟨hge, hle, hlt', hd, hrep⟩ := h
          rw [show ip - 1 - (match_ - 1) = ip - match_ by omega] at hd hrep
          refine ⟨hge, by omega, hlt', hd, hrep.append ?_⟩
          intro i hi hi'
          obtain rfl : i = ip - 1 := by omega
          rw [heq]
          congr 1
          omega
        next => exact hhere
      next => exact hhere

end Yrmcds
