/-
The response format of the counter extension, as a reader of whole streams
sees it: packets of `12 + body_length` bytes, a header that starts with
`0x91`, and a body whose layout depends on the command. Only successful
responses to `Get`, `Acquire`, `Stats` and `Dump` have a layout; any other
body is taken as it is.

The body of a `Stats` response is a stream of its own: records of two
lengths, a name and a value, up to the end of the body.
-/
import Yrmcds.Lib.Headed
import Yrmcds.Model.CounterRecv
import Yrmcds.Spec.ResponseFormat

namespace Yrmcds

open Endian Framing

-- ============================================================= statistics

/-- A record of a `Stats` body. -/
def statHeaded : Headed UInt8 CntStat where
  head := 4
  head_pos := Nat.zero_lt_succ _
  bodyLen h := some (ofBE (field h 0 2) + ofBE (field h 2 2))
  decode f := some
    ⟨field f 4 (ofBE (field f 0 2)),
      field f (4 + ofBE (field f 0 2)) (ofBE (field f 2 2))⟩

/-- The records of a `Stats` body, as a format. -/
def statFormat : Format UInt8 CntStat := statHeaded.format

/-- `name_len`, `value_len`, name and value. -/
def encodeStat (stat : CntStat) : List UInt8 :=
  toBE 2 stat.name.length ++ (toBE 2 stat.value.length
    ++ (stat.name ++ stat.value))

/-- The lengths have 16 bits. -/
def CntStat.Fits (stat : CntStat) : Prop :=
  stat.name.length < 2 ^ 16 ∧ stat.value.length < 2 ^ 16

instance : DecidablePred CntStat.Fits := fun stat =>
  inferInstanceAs (Decidable (stat.name.length < 2 ^ 16
    ∧ stat.value.length < 2 ^ 16))

/-- Two bytes are a number of 16 bits. -/
theorem ofBE_field_lt (s : List UInt8) (off : Nat) :
    ofBE (field s off 2) < 2 ^ 16 := by
  have hlt := ofBE_lt (field s off 2)
  have hlen : (field s off 2).length ≤ 2 := List.length_take_le ..
  exact Nat.lt_of_lt_of_le hlt (Nat.pow_le_pow_right (by decide) hlen)

/-- Two bytes are the two bytes of the number they are. -/
theorem toBE_ofBE_field {s : List UInt8} {off : Nat} (h : off + 2 ≤ s.length) :
    toBE 2 (ofBE (field s off 2)) = field s off 2 := by
  have hround := toBE_ofBE (field s off 2)
  rw [length_field h] at hround
  exact hround

/-- The record at the front of a stream. -/
theorem statFormat_cut (s : List UInt8) :
    statFormat.cut s
      = if s.length < 4 then .more
        else if s.length < 4 + (ofBE (field s 0 2) + ofBE (field s 2 2)) then
          .more
        else .frame (4 + (ofBE (field s 0 2) + ofBE (field s 2 2)))
          ⟨field s 4 (ofBE (field s 0 2)),
            field s (4 + ofBE (field s 0 2)) (ofBE (field s 2 2))⟩ := by
  rw [statFormat, Headed.format_cut]
  generalize hn : ofBE (field s 0 2) = n
  generalize hv : ofBE (field s 2 2) = v
  have hhead : statHeaded.bodyLen (s.take 4) = some (n + v) := by
    show some (ofBE (field (s.take 4) 0 2) + ofBE (field (s.take 4) 2 2)) = _
    rw [field_take (by decide), field_take (by decide), hn, hv]
  have hdec : statHeaded.decode (s.take (4 + (n + v)))
      = some ⟨field s 4 n, field s (4 + n) v⟩ := by
    show some (CntStat.mk
      (field (s.take (4 + (n + v))) 4 (ofBE (field (s.take (4 + (n + v))) 0 2)))
      (field (s.take (4 + (n + v))) (4 + ofBE (field (s.take (4 + (n + v))) 0 2))
        (ofBE (field (s.take (4 + (n + v))) 2 2)))) = _
    rw [show field (s.take (4 + (n + v))) 0 2 = _ from field_take (by omega),
      show field (s.take (4 + (n + v))) 2 2 = _ from field_take (by omega),
      hn, hv, field_take (by omega), field_take (by omega)]
  by_cases hshort : s.length < 4
  · rw [if_pos hshort]
    exact Headed.cut_of_short hshort
  · rw [if_neg hshort]
    by_cases hlong : s.length < 4 + (n + v)
    · rw [if_pos hlong]
      exact Headed.cut_of_short_body hhead hlong
    · rw [if_neg hlong, Headed.cut_of_head hhead (Nat.le_of_not_lt hlong)]
      show (match statHeaded.decode (s.take (4 + (n + v))) with
        | some r => Cut.frame (4 + (n + v)) r
        | none => .bad) = _
      rw [hdec]

/-- A record is cut as what it was written for, and what is cut is a
record of such. -/
theorem statFormat_encodes : statFormat.Encodes encodeStat CntStat.Fits where
  cut_enc := by
    rintro ⟨name, value⟩ ⟨hname, hvalue⟩
    have hn : field (encodeStat ⟨name, value⟩) 0 2 = toBE 2 name.length :=
      field_here (by simp)
    have hv : field (encodeStat ⟨name, value⟩) 2 2 = toBE 2 value.length := by
      rw [encodeStat, field_skip 2 (by simp) (by omega), field_here (by simp)]
    have hlen : (encodeStat ⟨name, value⟩).length
        = 4 + (name.length + value.length) := by
      simp only [encodeStat, List.length_append, length_toBE]
      omega
    rw [statFormat_cut, hn, hv, ofBE_toBE_of_lt hname, ofBE_toBE_of_lt hvalue,
      hlen, if_neg (by omega), if_neg (by omega)]
    have hstart : field (encodeStat ⟨name, value⟩) 4 name.length = name := by
      rw [encodeStat, field_skip 2 (by simp) (by omega),
        field_skip 2 (by simp) (by omega), field_here rfl]
    have hend : field (encodeStat ⟨name, value⟩) (4 + name.length) value.length
        = value := by
      rw [encodeStat, field_skip 2 (by simp) (by omega),
        field_skip 2 (by simp) (by omega), field_skip name.length rfl (by omega),
        show 4 + name.length - 2 - 2 - name.length = 0 by omega, field,
        List.drop_zero, List.take_length]
    rw [hstart, hend]
  enc_cut := by
    intro s m stat hcut
    rw [statFormat_cut] at hcut
    split at hcut
    next => cases hcut
    next =>
      split at hcut
      next => cases hcut
      next hlong =>
        cases hcut
        refine ⟨⟨?_, ?_⟩, ?_⟩
        · rw [length_field (by omega)]
          exact ofBE_field_lt s 0
        · rw [length_field (by omega)]
          exact ofBE_field_lt s 2
        · rw [encodeStat, length_field (by omega), length_field (by omega),
            toBE_ofBE_field (by omega), toBE_ofBE_field (by omega),
            show 4 = 2 + 2 from rfl, ← Nat.add_assoc, take_field, take_field,
            take_field]
          simp only [field, List.drop_zero, List.append_assoc]

-- ============================================================== responses

/-- A successful `Dump`: the end of the dump, or the consumption, its
maximum and a name. -/
def refDump (r : CntResponse) (body : List UInt8) : Option CntResponse :=
  if body.length = 0 then some r
  else if body.length < 10 then none
  else if body.length < 10 + ofBE (field body 8 2) then none
  else some { r with
    currentConsumption := UInt32.ofNat (ofBE (field body 0 4))
    maxConsumption := UInt32.ofNat (ofBE (field body 4 4))
    name := field body 10 (ofBE (field body 8 2)) }

/-- The response a header and a body stand for. -/
def refBody (r : CntResponse) (body : List UInt8) : Option CntResponse :=
  if r.status ≠ CNT_STATUS_OK then some r
  else if r.command = CntCommand.get.code then
    if body.length < 4 then none
    else some { r with
      currentConsumption := UInt32.ofNat (ofBE (field body 0 4)) }
  else if r.command = CntCommand.acquire.code then
    if body.length < 4 then none
    else some { r with resources := UInt32.ofNat (ofBE (field body 0 4)) }
  else if r.command = CntCommand.stats.code then
    (statFormat.whole body).map fun stats => { r with stats := some stats }
  else if r.command = CntCommand.dump.code then refDump r body
  else some r

/-- What a whole packet says before its body is looked at. -/
def refHead (p : List UInt8) : CntResponse :=
  { serial := UInt32.ofNat (ofLE (field p 8 4))
    status := (field p 2 1).headD 0
    command := (field p 1 1).headD 0
    body := p.drop 12
    resources := 0
    currentConsumption := 0
    maxConsumption := 0
    name := []
    stats := none }

/-- A packet of the counter extension. -/
def cntHeaded : Headed UInt8 CntResponse where
  head := 12
  head_pos := Nat.zero_lt_succ _
  bodyLen h :=
    if (field h 0 1).headD 0 ≠ 0x91 then none else some (ofBE (field h 4 4))
  decode p := refBody (refHead p) (p.drop 12)

/-- The response format of the counter extension. -/
def cntFormat : Format UInt8 CntResponse := cntHeaded.format

end Yrmcds
