/-
The statistics of the counter extension.

`append_stat` keeps the records it has and the invariant of the array
whatever `realloc` does (`appendStat_spec`). The loop of
`parse_statistics` reads the body as the records' format does
(`run_parseStats`, by induction on what is left of it), so it accepts the
bodies that are a sequence of records and nothing else, and the records it
leaves are the ones written (`parseStatistics_spec`).
-/
import Yrmcds.Proofs.Recv.Decode
import Yrmcds.Spec.CounterFormat

namespace Yrmcds

open Endian Query Framing

variable {realloc : StatsRealloc}

-- ============================================================== the array

/-- What `append_stat` does: it appends the record, or reports that there
is no memory and changes nothing. -/
structure Appended (s : CntStatistics) (stat : CntStat) (e : Error)
    (s' : CntStatistics) : Prop where
  count_le : s'.count ≤ s'.capacity
  kept : ∀ i < s.count, s'.records i = s.records i
  done : (e = .ok ∧ s'.list = s.list ++ [stat]) ∨ (e = .outOfMemory ∧ s' = s)

/-- A record put behind those that are there. -/
theorem list_put {s s' : CntStatistics} {stat : CntStat}
    (hcount : s'.count = s.count + 1) (hlast : s'.records s.count = stat)
    (hkept : ∀ i < s.count, s'.records i = s.records i) :
    s'.list = s.list ++ [stat] := by
  unfold CntStatistics.list
  rw [hcount, List.range_succ, List.map_append, List.map_singleton, hlast]
  congr 1
  exact List.map_congr_left fun i hi => hkept i (List.mem_range.mp hi)

theorem appendStat_spec {s s' : CntStatistics} {stat : CntStat} {e : Error}
    (h : appendStat realloc s stat = (e, s')) (hle : s.count ≤ s.capacity) :
    Appended s stat e s' := by
  unfold appendStat at h
  dsimp only at h
  split at h
  next hfull =>
    split at h
    next =>
      cases h
      exact ⟨hle, fun i hi => rfl, .inr ⟨rfl, rfl⟩⟩
    next fresh _ =>
      cases h
      have hkept : ∀ i < s.count, (if i = s.count then stat
          else if i < s.capacity then s.records i else fresh i)
            = s.records i := by
        intro i hi
        rw [if_neg (by omega), if_pos (by omega)]
      refine ⟨?_, hkept, .inl ⟨rfl, ?_⟩⟩
      · show s.count + 1 ≤ max (s.capacity * 2) INITIAL_STATS_CAPACITY
        have hinit : INITIAL_STATS_CAPACITY = 16 := rfl
        omega
      · exact list_put rfl (if_pos rfl) hkept
  next hroom =>
    cases h
    have hkept : ∀ i < s.count, (if i = s.count then stat else s.records i)
        = s.records i := fun i hi => if_neg (by omega)
    refine ⟨?_, hkept, .inl ⟨rfl, ?_⟩⟩
    · show s.count + 1 ≤ s.capacity
      omega
    · exact list_put rfl (if_pos rfl) hkept

/-- With memory the record is appended. -/
theorem appendStat_ok (hmem : ∀ n, (realloc n).isSome) {s s' : CntStatistics}
    {stat : CntStat} {e : Error} (h : appendStat realloc s stat = (e, s')) :
    e = .ok := by
  unfold appendStat at h
  dsimp only at h
  split at h
  next =>
    split at h
    next hnone =>
      have hsome := hmem (max (s.capacity * 2) INITIAL_STATS_CAPACITY)
      rw [hnone] at hsome
      cases hsome
    next => cases h; rfl
  next => cases h; rfl

-- =============================================================== the loop

/-- The record that starts at `p`, if it ends before `e`. -/
theorem cut_stat (m : Mem) (p len : Nat) :
    statFormat.cut (m.slice p len)
      = if len < 4 then .more
        else if len < 4 + (ofBE (m.slice p 2) + ofBE (m.slice (p + 2) 2)) then
          .more
        else .frame (4 + (ofBE (m.slice p 2) + ofBE (m.slice (p + 2) 2)))
          ⟨m.slice (p + 4) (ofBE (m.slice p 2)),
            m.slice (p + 4 + ofBE (m.slice p 2)) (ofBE (m.slice (p + 2) 2))⟩ := by
  have hfield : ∀ n off l, off + l ≤ n →
      field (m.slice p n) off l = m.slice (p + off) l := by
    intro n off l h
    rw [field, Mem.drop_slice _ _ _ _ (by omega),
      Mem.take_slice _ _ _ _ (by omega)]
  rw [statFormat_cut, Mem.length_slice]
  by_cases hshort : len < 4
  · rw [if_pos hshort, if_pos hshort]
  · rw [if_neg hshort, if_neg hshort, hfield _ 0 _ (by omega),
      hfield _ 2 _ (by omega), Nat.add_zero]
    generalize ofBE (m.slice p 2) = n
    generalize ofBE (m.slice (p + 2) 2) = v
    by_cases hlong : len < 4 + (n + v)
    · rw [if_pos hlong, if_pos hlong]
    · rw [if_neg hlong, if_neg hlong, hfield _ _ _ (by omega),
        hfield _ _ _ (by omega), Nat.add_assoc p]

/-- What parsing leaves when the rest of the body reads as `rest`. -/
def ParsedAs (s : CntStatistics) (rest : Option (List CntStat))
    (out : Error × CntStatistics) : Prop :=
  out.2.count ≤ out.2.capacity
  ∧ match rest with
    | some stats => out.1 = .ok ∧ out.2.list = s.list ++ stats
    | none => out.1 = .protocolError

/-- The loop reads what is left of the body as its format does. -/
theorem run_parseStats (hmem : ∀ n, (realloc n).isSome) (m : Mem) {e p : Nat}
    {s : CntStatistics} (hp : p ≤ e) (hle : s.count ≤ s.capacity) :
    ParsedAs s (statFormat.whole (m.slice p (e - p)))
      (run m.answer (parseStats realloc e p s)) := by
  -- on what is left; every round takes at least the two lengths
  induction hleft : e - p using Nat.strongRecOn generalizing p s with
  | ind left ih =>
      have hcut := cut_stat m p left
      rw [parseStats]
      by_cases hend : p < e
      · have hne : m.slice p left ≠ [] := by
          intro hnil
          have hlen := Mem.length_slice m p left
          rw [hnil] at hlen
          simp only [List.length_nil] at hlen
          omega
        rw [if_pos hend]
        by_cases hshort : p + 4 > e
        · rw [if_pos hshort]
          rw [if_pos (by omega)] at hcut
          rw [Format.whole_of_no_frame hne fun n r hf => by
            rw [hcut] at hf
            cases hf]
          exact ⟨hle, rfl⟩
        · rw [if_neg hshort]
          rw [if_neg (by omega)] at hcut
          unfold ntoh16
          simp only [run_bind, run_query, run_pure, run_ite, answer_eq]
          generalize hn : ofBE (m.slice p 2) = n at hcut ⊢
          generalize hv : ofBE (m.slice (p + 2) 2) = v at hcut ⊢
          by_cases hlong : p + 4 + n + v > e
          · rw [if_pos hlong]
            rw [if_pos (by omega)] at hcut
            rw [Format.whole_of_no_frame hne fun n r hf => by
              rw [hcut] at hf
              cases hf]
            exact ⟨hle, rfl⟩
          · rw [if_neg hlong]
            rw [if_neg (by omega)] at hcut
            rw [Format.whole_of_frame hcut, Mem.drop_slice _ _ _ _ (by omega),
              show p + (4 + (n + v)) = p + 4 + n + v by omega]
            rcases happ : appendStat realloc s
                ⟨m.slice (p + 4) n, m.slice (p + 4 + n) v⟩ with ⟨err, s₁⟩
            obtain rfl := appendStat_ok hmem happ
            obtain ⟨hle₁, -, ⟨-, hlist⟩ | ⟨hno, -⟩⟩ := appendStat_spec happ hle
            · have hrest := ih (left - (4 + (n + v))) (by omega)
                (p := p + 4 + n + v) (by omega) hle₁ (by omega)
              dsimp only
              cases hwhole : statFormat.whole (m.slice (p + 4 + n + v)
                  (left - (4 + (n + v)))) with
              | none =>
                  rw [hwhole] at hrest
                  exact hrest
              | some stats =>
                  rw [hwhole] at hrest
                  obtain ⟨hcap, hok, hall⟩ := hrest
                  refine ⟨hcap, hok, ?_⟩
                  rw [hall, hlist, List.append_assoc]
                  rfl
            · cases hno
      · rw [if_neg hend, show left = 0 by omega]
        exact ⟨hle, rfl, (List.append_nil _).symm⟩

/-- The whole body, whatever an earlier response left in the array. -/
theorem run_parseStatistics (hmem : ∀ n, (realloc n).isSome) (m : Mem)
    (body bodyLen : Nat) (s : CntStatistics) :
    let out := run m.answer (parseStatistics realloc body bodyLen s)
    out.2.count ≤ out.2.capacity
    ∧ match statFormat.whole (m.slice body bodyLen) with
      | some stats => out.1 = .ok ∧ out.2.list = stats
      | none => out.1 = .protocolError := by
  have hrun := run_parseStats hmem m (e := body + bodyLen) (p := body)
    (s := { s with count := 0 }) (by omega) (Nat.zero_le _)
  rw [Nat.add_sub_cancel_left] at hrun
  exact hrun

/-- `parse_statistics` accepts the bodies that are a sequence of records
and reports any other, and reading is the inverse of writing: the records
it leaves are those the body was written from, whatever the array held
before. Growing keeps the array in order and the records in it. -/
theorem parseStatistics_spec (hmem : ∀ n, (realloc n).isSome) (m : Mem)
    (body bodyLen : Nat) (s : CntStatistics) :
    let bytes := m.slice body bodyLen
    let out := run m.answer (parseStatistics realloc body bodyLen s)
    (out.1 = .ok ↔ ∃ stats : List CntStat, (∀ stat ∈ stats, stat.Fits)
        ∧ bytes = stats.flatMap encodeStat)
    ∧ (out.1 ≠ .ok → out.1 = .protocolError)
    ∧ (out.1 = .ok → (∀ stat ∈ out.2.list, stat.Fits)
        ∧ out.2.list.flatMap encodeStat = bytes)
    ∧ (∀ stats : List CntStat, (∀ stat ∈ stats, stat.Fits) →
        bytes = stats.flatMap encodeStat → out.1 = .ok ∧ out.2.list = stats)
    ∧ out.2.count ≤ out.2.capacity
    ∧ ∀ (any : StatsRealloc) (old : CntStatistics) (stat : CntStat),
        old.count ≤ old.capacity →
        (appendStat any old stat).2.count ≤ (appendStat any old stat).2.capacity
        ∧ ∀ i < old.count,
          (appendStat any old stat).2.records i = old.records i := by
  intro bytes out
  obtain ⟨hcap, hout⟩ := run_parseStatistics hmem m body bodyLen s
  have hwhole : ∀ stats : List CntStat, statFormat.whole bytes = some stats
      ↔ (∀ stat ∈ stats, stat.Fits) ∧ bytes = stats.flatMap encodeStat :=
    fun stats => Format.whole_iff statFormat_encodes
  have hread : ∀ stats : List CntStat, (∀ stat ∈ stats, stat.Fits) →
      bytes = stats.flatMap encodeStat → out.1 = .ok ∧ out.2.list = stats := by
    intro stats hfits hbytes
    rw [show statFormat.whole (m.slice body bodyLen) = some stats from
      (hwhole stats).mpr ⟨hfits, hbytes⟩] at hout
    exact hout
  have hwritten : out.1 = .ok → (∀ stat ∈ out.2.list, stat.Fits)
      ∧ bytes = out.2.list.flatMap encodeStat := by
    intro hok
    cases hstats : statFormat.whole (m.slice body bodyLen) with
    | none =>
        rw [hstats] at hout
        rw [show out.1 = .protocolError from hout] at hok
        cases hok
    | some stats =>
        rw [hstats] at hout
        rw [show out.2.list = stats from hout.2]
        exact (hwhole stats).mp hstats
  refine ⟨⟨fun hok => ⟨_, hwritten hok⟩, ?_⟩, ?_, ?_, hread, hcap, ?_⟩
  · rintro ⟨stats, hfits, hbytes⟩
    exact (hread stats hfits hbytes).1
  · intro hbad
    cases hstats : statFormat.whole (m.slice body bodyLen) with
    | none =>
        rw [hstats] at hout
        exact hout
    | some stats =>
        rw [hstats] at hout
        exact absurd hout.1 hbad
  · intro hok
    exact ⟨(hwritten hok).1, (hwritten hok).2.symm⟩
  · intro any old stat hle
    have happ : Appended old stat (appendStat any old stat).1
        (appendStat any old stat).2 := appendStat_spec rfl hle
    exact ⟨happ.count_le, happ.kept⟩

/-- Two records, the second without a value, after a response that left the
array empty. -/
theorem parseStatistics_two :
    let stats : List CntStat := [⟨[110], [49, 50]⟩, ⟨[109, 110], []⟩]
    let out := run (Mem.ofList (stats.flatMap encodeStat)).answer
      (parseStatistics (fun _ => some fun _ => ⟨[], []⟩) 0 13
        ⟨fun _ => ⟨[], []⟩, 0, 0⟩)
    out.1 = .ok ∧ out.2.list = stats :=
  (parseStatistics_spec (fun _ => rfl) _ 0 13 _).2.2.2.1
    [⟨[110], [49, 50]⟩, ⟨[109, 110], []⟩] (by decide) (by decide)

end Yrmcds
