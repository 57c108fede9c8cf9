/-
What `yc keys` and `yc stat` print.

The responses to the request of a listing are its records and its end
(`responses_listing`). The loops of the two commands show such a listing
(`keys_shows`, `stat_shows`), so a process can exit with status 0 and a line
for every record, and with status 0 it has printed no other (`keys_lists`,
`stat_lists`).
-/
import Yrmcds.Proofs.Yc.Commands
import Yrmcds.Spec.ListingServer

namespace Yrmcds

open Gather Framing

namespace Yc

variable {lz : Lz4} {compression : Nat} {quiet : Bool} {sv : Lister}
  {m : RequestMessage}

-- =============================================================== listings

/-- The responses to the request of a listing. -/
theorem responses_listing (sv : Lister)
    (hm : m.command = .stat ∨ m.command = .keys) :
    sv.responder.responses [m]
      = (sv m).map (fun r => (r.answer m).response)
        ++ [(endOfListing m).response] := by
  rw [Responder.responses, List.flatMap_singleton]
  show (sv.answers m).map _ = _
  rw [Lister.answers, if_pos hm, List.map_append, List.map_map]
  rfl

-- ================================================================ showing

/-- `keys` shows a line for each record, and ends at the empty answer. -/
theorem keys_shows (m : RequestMessage) :
    Source.Lists (keysBody m.serial) (fun r => (Record.answer m r).response)
      Record.keyLine (endOfListing m).response
      (fun out => some ⟨0, out⟩) where
  shows out r := by
    have hkey : r.key.length ≠ 0 := fun h =>
      r.key_ne_nil (List.length_eq_zero_iff.mp h)
    have hserial : (r.answer m).response.serial = m.serial := rfl
    have hstatus : (r.answer m).response.status = Status.ok := rfl
    rw [keysBody, checked, if_neg (not_not_intro hstatus),
      if_neg (not_not_intro hserial)]
    exact if_neg hkey
  ends out := by
    have hserial : (endOfListing m).response.serial = m.serial := rfl
    have hstatus : (endOfListing m).response.status = Status.ok := rfl
    rw [keysBody, checked, if_neg (not_not_intro hstatus),
      if_neg (not_not_intro hserial)]
    rfl

/-- `stat` shows a line for each record with a value. -/
theorem stat_shows (m : RequestMessage) :
    Source.Lists statBody (fun r => (Record.answer m r).response)
      Record.statLine (endOfListing m).response
      (fun out => some ⟨0, out⟩) where
  shows out r := by
    have hkey : (r.answer m).response.key.length ≠ 0 := fun h =>
      r.key_ne_nil (List.length_eq_zero_iff.mp h)
    have hstatus : (r.answer m).response.status = Status.ok := rfl
    rw [statBody, checked, if_neg (not_not_intro hstatus), if_neg hkey,
      Record.statLine]
    by_cases hdata : r.data = []
    · rw [if_pos hdata, List.append_nil]
      exact if_pos (List.length_eq_zero_iff.mpr hdata)
    · rw [if_neg hdata]
      exact if_neg fun h => hdata (List.length_eq_zero_iff.mp h)
  ends out := rfl

-- ============================================================== processes

/-- A process that lists prints its server's records one by one. It can end
with all of them and status 0, and it ends otherwise only because something
outside fails it, behind the lines of a beginning of them. -/
theorem lists {name : List UInt8} {cmd : Cmd} {argv : List (List UInt8)}
    {request : Request} {body : UInt32 → Body} {line : Record → List UInt8}
    {p : Packet} (hlz : lz.Lawful)
    (hname : commands.lookup name = some (.inr cmd))
    (hplan : ∀ a, cmd.plan lz quiet argv a
      = some (.ok ⟨request, false, looped lz body⟩))
    (hpass : ∀ c block, request.passed lz c block = some p)
    (hp : p.cmd = .stat ∨ p.cmd = .keys)
    (L : Source.Lists (body 1) (fun r => (Record.answer (p.message 1) r).response)
      line (endOfListing (p.message 1)).response
      (fun out => some ⟨0, out⟩)) :
    (∃ a : Setting, ¬ Outside a
      ∧ mainNamed lz sv.responder.peer quiet compression name argv a
        = some ⟨0, (sv (p.message 1)).flatMap line⟩)
    ∧ ∀ (a : Setting) (e : Exit),
      mainNamed lz sv.responder.peer quiet compression name argv a = some e →
      e = ⟨0, (sv (p.message 1)).flatMap line⟩
      ∨ ∃ shown, shown <+: sv (p.message 1)
        ∧ e = ⟨2, shown.flatMap line⟩ ∧ Outside a := by
  have hresponses := responses_listing sv (m := p.message 1) hp
  have hsome : ∀ (a : Setting) (c : Conn), Fresh compression c →
      (request.passed lz c a.block).isSome := by
    intro a c _
    rw [hpass c]
    rfl
  constructor
  · let a : Setting := ⟨⟨.ok 3, none, [], [], [], []⟩, none, true⟩
    obtain ⟨c, q, bytes, ms, hq, -, rfl, hrun⟩ :=
      mainNamed_finishes hlz sv.responder hname (hplan a) (fun _ => rfl) (hsome a)
    obtain rfl : p = q := Option.some.inj ((hpass c _).symm.trans hq)
    obtain ⟨a', -, hout, -, hend⟩ := hrun _ (by
      dsimp only
      rw [if_neg Bool.false_ne_true, if_neg Bool.false_ne_true, hresponses]
      exact L.whole _)
    exact ⟨a', hout, hend⟩
  · intro a e h
    obtain ⟨rfl, hout⟩ | ⟨c, q, bytes, ms, hq, -, -, rfl, hend⟩ :=
      mainNamed_answered hlz hname (hplan a) (fun _ => rfl) (hsome a) h
    · exact .inr ⟨[], List.nil_prefix, rfl, hout⟩
    · obtain rfl : p = q := Option.some.inj ((hpass c _).symm.trans hq)
      dsimp only at hend
      rw [if_neg Bool.false_ne_true, if_neg Bool.false_ne_true, hresponses]
        at hend
      obtain hfold | ⟨taken, out, htaken, hfold, rfl, hout⟩ := hend
      · rw [L.whole] at hfold
        cases hfold
        exact .inl rfl
      · obtain ⟨shown, hshown, rfl⟩ := L.begun htaken hfold
        exact .inr ⟨shown, hshown, rfl, hout⟩

/-- A prefix that is not empty passes the checks. -/
theorem keys_passed (lz : Lz4) (c : Conn) (block : Bool)
    {argv : List (List UInt8)}
    (hkeys : ∀ k, argv = [k] → k ≠ [] ∧ k.length < 2 ^ 16) :
    (Request.keys (keysPrefix argv)).passed lz c block
      = some ⟨.keys, 0, keysPrefix argv, .none, .none⟩ := by
  have hpacket : ∀ {key : Ptr}, ¬ (key.isNull = true ∧ key.len ≠ 0) →
      ¬ (¬ key.isNull = true ∧ key.len = 0) → key.len ≤ 65535 →
      (Request.keys key).passed lz c block
        = some ⟨.keys, 0, key, .none, .none⟩ := by
    intro key hnull hempty hlen
    have hrej : ¬ Packet.rejected ⟨.keys, 0, key, .none, .none⟩ := by
      simp only [Packet.rejected, not_or]
      refine ⟨by decide, by omega, by decide, by decide, fun h => ?_, by decide,
        by decide⟩
      exact hnull ⟨h.2, h.1⟩
    have hbare : (Request.keys key).packet lz c block
        = .ok ⟨.keys, 0, key, .none, .none⟩ := by
      rw [Request.packet, yrmcdsKeys, if_neg (not_or.mpr ⟨hnull, hempty⟩)]
      rfl
    rw [Request.passed, hbare]
    exact if_neg hrej
  unfold keysPrefix
  split
  next k =>
    obtain ⟨hne, hlt⟩ := hkeys k rfl
    refine hpacket (fun h => by cases h.1) (fun h => ?_) ?_
    · exact hne (List.length_eq_zero_iff.mp h.2)
    · exact Nat.lt_succ_iff.mp hlt
  next => exact hpacket (by decide) (by decide) (by decide)

/-- `yc keys` prints the keys its server lists, one by one: all of them
with status 0, which can happen, and those of a beginning of the list when
something outside fails it. -/
theorem keys_lists {argv : List (List UInt8)} (hlz : lz.Lawful) (sv : Lister)
    (hkeys : ∀ k, argv = [k] → k ≠ [] ∧ k.length < 2 ^ 16) :
    let records := sv ⟨.keys, 1, 0, [], (keysPrefix argv).bytes, []⟩
    (∃ a : Setting, ¬ Outside a
      ∧ mainNamed lz sv.responder.peer quiet compression (ascii "keys") argv a
        = some ⟨0, records.flatMap Record.keyLine⟩)
    ∧ ∀ (a : Setting) (e : Exit),
      mainNamed lz sv.responder.peer quiet compression (ascii "keys") argv a
        = some e →
      e = ⟨0, records.flatMap Record.keyLine⟩
      ∨ ∃ shown, shown <+: records
        ∧ e = ⟨2, shown.flatMap Record.keyLine⟩ ∧ Outside a :=
  lists hlz rfl (fun _ => rfl) (fun c block => keys_passed lz c block hkeys)
    (.inr rfl) (keys_shows ⟨.keys, 1, 0, [], (keysPrefix argv).bytes, []⟩)

/-- The request of `stat` names its kind. -/
theorem stat_passed (lz : Lz4) {argv : List (List UInt8)} {request : Request}
    (h : statRequest argv = some request) :
    ∃ key : Ptr, key.bytes = argv.headD [] ∧ ∀ c block,
      request.passed lz c block = some ⟨.stat, 0, key, .none, .none⟩ := by
  unfold statRequest at h
  split at h
  next =>
    cases h
    exact ⟨.none, rfl, fun _ _ => rfl⟩
  next name rest =>
    split at h
    next hname =>
      cases h
      exact ⟨.buf (ascii "settings"), hname.symm, fun _ _ => rfl⟩
    next =>
      split at h
      next hname =>
        cases h
        exact ⟨.buf (ascii "items"), hname.symm, fun _ _ => rfl⟩
      next =>
        split at h
        next hname =>
          cases h
          exact ⟨.buf (ascii "sizes"), hname.symm, fun _ _ => rfl⟩
        next => cases h

/-- `yc stat` prints the statistics its server lists that have a value:
all of them with status 0, which can happen, and those of a beginning of
the list when something outside fails it. -/
theorem stat_lists {argv : List (List UInt8)} (hlz : lz.Lawful) (sv : Lister)
    (hargv : statRequest argv ≠ none) :
    let records := sv ⟨.stat, 1, 0, [], argv.headD [], []⟩
    (∃ a : Setting, ¬ Outside a
      ∧ mainNamed lz sv.responder.peer quiet compression (ascii "stat") argv a
        = some ⟨0, records.flatMap Record.statLine⟩)
    ∧ ∀ (a : Setting) (e : Exit),
      mainNamed lz sv.responder.peer quiet compression (ascii "stat") argv a
        = some e →
      e = ⟨0, records.flatMap Record.statLine⟩
      ∨ ∃ shown, shown <+: records
        ∧ e = ⟨2, shown.flatMap Record.statLine⟩ ∧ Outside a := by
  obtain ⟨request, hrequest⟩ := Option.ne_none_iff_exists'.mp hargv
  obtain ⟨key, hkey, hpass⟩ := stat_passed lz hrequest
  have hplan : ∀ a, Cmd.stat.plan lz quiet argv a
      = some (.ok ⟨request, false, looped lz fun _ => statBody⟩) := by
    intro a
    show cmdStat lz argv = _
    rw [cmdStat, hrequest]
  rw [← hkey]
  exact lists hlz rfl hplan hpass (.inl rfl)
    (stat_shows ⟨.stat, 1, 0, [], key.bytes, []⟩)

/-- Two keys behind a prefix. -/
theorem keys_lists_two :
    let sv : Lister := fun m => if m.key = ascii "u" then
        [⟨ascii "u1", [], by decide, by decide, by decide⟩,
          ⟨ascii "u23", [], by decide, by decide, by decide⟩]
      else []
    let records := sv ⟨.keys, 1, 0, [], ascii "u", []⟩
    (∃ a : Setting, ¬ Outside a
      ∧ mainNamed Lz4.literals sv.responder.peer false 16384 (ascii "keys")
        [ascii "u"] a = some ⟨0, ascii "u1\nu23\n"⟩)
    ∧ ∀ (a : Setting) (e : Exit),
      mainNamed Lz4.literals sv.responder.peer false 16384 (ascii "keys")
        [ascii "u"] a = some e →
      e = ⟨0, ascii "u1\nu23\n"⟩
      ∨ ∃ shown, shown <+: records
        ∧ e = ⟨2, shown.flatMap Record.keyLine⟩ ∧ Outside a := by
  intro sv records
  have hlines : records.flatMap Record.keyLine = ascii "u1\nu23\n" := by
    decide +kernel
  rw [← hlines]
  refine keys_lists Lz4.literals_lawful sv ?_
  intro k hk
  cases hk
  exact ⟨by decide, by decide⟩

/-- Statistics, one of them without a value. -/
theorem stat_lists_two :
    let sv : Lister := fun _ =>
      [⟨ascii "pid", ascii "7", by decide, by decide, by decide⟩,
        ⟨ascii "none", [], by decide, by decide, by decide⟩,
        ⟨ascii "time", ascii "9", by decide, by decide, by decide⟩]
    let records := sv ⟨.stat, 1, 0, [], [], []⟩
    (∃ a : Setting, ¬ Outside a
      ∧ mainNamed Lz4.literals sv.responder.peer true 16384 (ascii "stat") [] a
        = some ⟨0, ascii "pid: 7\ntime: 9\n"⟩)
    ∧ ∀ (a : Setting) (e : Exit),
      mainNamed Lz4.literals sv.responder.peer true 16384 (ascii "stat") [] a
        = some e →
      e = ⟨0, ascii "pid: 7\ntime: 9\n"⟩
      ∨ ∃ shown, shown <+: records
        ∧ e = ⟨2, shown.flatMap Record.statLine⟩ ∧ Outside a := by
  intro sv records
  have hlines : records.flatMap Record.statLine
      = ascii "pid: 7\ntime: 9\n" := by decide +kernel
  rw [← hlines]
  exact stat_lists Lz4.literals_lawful sv (by decide)

end Yc

end Yrmcds
