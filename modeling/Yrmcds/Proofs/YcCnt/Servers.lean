/-
The counter tool in front of a server.

What a server sends is the packets of its answers and nothing else: a
process finds its request's responses there (`own_peer`), and no violation
of the format (`no_violation`). So a process whose command is sent ends as
these responses say, unless an allocation or a system call failed
(`main_answered`).

And there is a way for it to end so (`main_finishes`).

A dump then prints the semaphores of the server, and with status 0 all of
them (`dump_lists`); `stats` prints its statistics (`stats_lists`).
-/
import Yrmcds.Proofs.YcCnt.Runs

namespace Yrmcds

open Endian Framing

variable {sv : CntServer} {serial : UInt32}

-- ================================================================ answers

/-- A body does not change the serial. -/
theorem refBody_serial {r r' : CntResponse} {body : List UInt8}
    (h : refBody r body = some r') : r'.serial = r.serial := by
  unfold refBody at h
  split at h
  next => cases h; rfl
  next =>
    split at h
    next =>
      split at h
      next => cases h
      next => cases h; rfl
    next =>
      split at h
      next =>
        split at h
        next => cases h
        next => cases h; rfl
      next =>
        split at h
        next =>
          obtain ⟨stats, -, rfl⟩ := Option.map_eq_some_iff.mp h
          rfl
        next =>
          split at h
          next =>
            unfold refDump at h
            split at h
            next => cases h; rfl
            next =>
              split at h
              next => cases h
              next =>
                split at h
                next => cases h
                next => cases h; rfl
          next => cases h; rfl

namespace CntServer

/-- An answer on the wire, as a packet and a response. -/
theorem cut_answer {op : CntOp} {a : CntAnswer} (ha : a ∈ sv.answers op)
    (serial : UInt32) :
    ∃ r, a.response serial = some r ∧ r.serial = serial
      ∧ cntFormat.cut (a.packet serial)
        = .frame (a.packet serial).length r := by
  have hfits := sv.fits ha
  obtain ⟨r, hr⟩ := Option.isSome_iff_exists.mp (hfits.accepted serial)
  exact ⟨r, hr, refBody_serial hr, CntAnswer.cut_packet hfits.body_lt hr⟩

/-- The answers to a request on the wire. -/
def sends (sv : CntServer) (op : CntOp) (serial : UInt32) : List UInt8 :=
  (sv.answers op).flatMap (CntAnswer.packet serial)

theorem cut_getD (sv : CntServer) (op : CntOp) (serial : UInt32) :
    ∀ a ∈ sv.answers op, cntFormat.cut (a.packet serial)
      = .frame (a.packet serial).length
        ((a.response serial).getD (a.head serial)) := by
  intro a ha
  obtain ⟨r, hr, -, hcut⟩ := sv.cut_answer ha serial
  rw [hr]
  exact hcut

/-- What a server sends is read as its responses. -/
theorem parse_sends (sv : CntServer) (op : CntOp) (serial : UInt32) :
    cntFormat.parse (sv.sends op serial) = sv.responses op serial := by
  rw [sends, (Format.parse_flatMap (sv.cut_getD op serial)).1, responses,
    ← List.filterMap_eq_map]
  refine List.filterMap_congr fun a ha => ?_
  obtain ⟨r, hr, -⟩ := sv.cut_answer ha serial
  rw [Function.comp_apply, hr]
  rfl

/-- There is no violation in it. -/
theorem no_violation (sv : CntServer) (op : CntOp) (serial : UInt32) (j : Nat) :
    cntFormat.cut (cntFormat.after j (sv.sends op serial)) ≠ .bad := by
  have hnil : cntFormat.cut [] ≠ .bad := by
    rw [cntFormat, Headed.format_cut, Headed.cut_of_short (by decide)]
    simp
  exact Format.after_flatMap (sv.cut_getD op serial) hnil j

/-- All of it answers the request. -/
theorem own_sends (sv : CntServer) (op : CntOp) (serial : UInt32) :
    YcCnt.own (sv.sends op serial) serial = sv.responses op serial := by
  rw [YcCnt.own, parse_sends]
  refine List.filter_eq_self.mpr fun r hr => ?_
  obtain ⟨a, ha, hres⟩ := List.mem_filterMap.mp hr
  obtain ⟨r', hr', hserial, -⟩ := sv.cut_answer ha serial
  obtain rfl : r' = r := Option.some.inj (hr'.symm.trans hres)
  rw [hserial]
  exact beq_self_eq_true serial

/-- A request is answered. -/
theorem peer_frame (sv : CntServer) {request : CntRequest} {p : CntPacket}
    (h : request.Sends p) (serial : UInt32) :
    sv.peer (p.frame serial) = sv.sends request.op serial := by
  have hparse := Format.parse_frame _ (p.cut_frame h serial)
  have hnil : cntRequestFormat.parse [] = [] := rfl
  rw [List.drop_length, hnil] at hparse
  rw [peer, hparse, sends]
  exact List.append_nil _

end CntServer

-- ============================================================== processes

namespace YcCnt

/-- Something outside the process failed it. -/
inductive Outside (a : Answers) : Prop where
  | server {e : Error} (h : a.server = .error e)
  | malloc (h : a.malloc = none)
  | send (h : .refused ∈ a.request)
  | recv {answer : Answer} {e : Error} (h : answer ∈ a.recv)
      (hfails : answer.Fails e)

/-- A process that is given good arguments ends as its server answers,
unless something outside fails it. -/
theorem main_answered {argv : List (List UInt8)} {a : Answers} {cmd : Cmd}
    {p : CntPacket} {e : Ending} (hmem : ∀ n, (a.realloc n).isSome)
    (hcmd : parseArgs argv = some cmd) (hp : cmd.request.packet = .ok p)
    (h : main sv.peer argv a = some e) :
    (sv.responses cmd.request.op 1).foldlM cmd.body [] = .error e
    ∨ ∃ taken out, taken <+: sv.responses cmd.request.op 1
      ∧ taken.foldlM cmd.body [] = .ok out
      ∧ e = .exited ⟨1, out⟩ ∧ Outside a := by
  obtain ⟨hmain, hstart⟩ | ⟨hmain, -⟩ | ⟨cmd', p', hcmd', hp', hcomes⟩ :=
    main_comes sv.peer argv a hmem
  · cases hmain.symm.trans h
    refine .inr ⟨[], [], List.nil_prefix, rfl, rfl, ?_⟩
    cases hstart with
    | arguments hnone => cases hnone.symm.trans hcmd
    | server hserver => exact .server hserver
    | malloc hmalloc => exact .malloc hmalloc
    | request hcmd' herr =>
        cases hcmd'.symm.trans hcmd
        cases herr.symm.trans hp
    | refused hrefused => exact .send hrefused
  · cases hmain.symm.trans h
  · cases hcmd'.symm.trans hcmd
    cases hp'.symm.trans hp
    rw [h, sv.peer_frame (CntRequest.packet_spec hp)] at hcomes
    cases hcomes with
    | done hfold => exact .inl (by rw [← sv.own_sends]; exact hfold)
    | @failed taken out err htaken hfold hreason =>
        refine .inr ⟨taken, out, by rw [← sv.own_sends]; exact htaken, hfold,
          rfl, ?_⟩
        obtain ⟨-, j, hbad⟩ | ⟨answer, hanswer, hfails⟩ := hreason
        · exact absurd hbad (sv.no_violation _ _ j)
        · exact .recv hanswer hfails

/-- There is a way for such a process to end as its server answers. -/
theorem main_finishes {argv : List (List UInt8)} {cmd : Cmd} {p : CntPacket}
    {t : Ending} (hcmd : parseArgs argv = some cmd)
    (hp : cmd.request.packet = .ok p)
    (hfold : (sv.responses cmd.request.op 1).foldlM cmd.body [] = .error t) :
    ∃ a : Answers, ¬ Outside a ∧ (∀ n, (a.realloc n).isSome)
      ∧ main sv.peer argv a = some t := by
  let realloc : StatsRealloc := fun _ => some fun _ => ⟨[], []⟩
  let buf : Mem := fun _ => 0
  obtain ⟨acks, hacks, hask⟩ := ask_finishes ⟨3, 0⟩ hp
  rw [← sv.own_sends, ← sv.peer_frame (CntRequest.packet_spec hp)] at hfold
  obtain ⟨script, hserve, hanswer⟩ :=
    answer_finishes realloc (fun _ => rfl) cmd buf hfold
  refine ⟨⟨.ok 3, some buf, acks, script, realloc⟩, fun hout => ?_, fun _ => rfl,
    ?_⟩
  · cases hout with
    | server h => cases h
    | malloc h => cases h
    | send h => exact hacks h
    | recv h hfails => exact (hserve _ h).not_fails _ hfails
  · have hargv : argv ≠ [] := by
      rintro rfl
      cases hcmd
    rw [main, if_neg hargv]
    dsimp only [yrmcdsCntConnect]
    rw [hcmd]
    dsimp only
    rw [exec_eq, command, hask]
    dsimp only [CntReceiver.connected]
    rw [Nat.zero_add]
    exact hanswer

-- ================================================================== dumps

/-- A dump shows semaphores, and ends at the empty record. -/
theorem dump_shows (serial : UInt32) :
    Source.Lists dumpBody (Semaphore.response · serial) Semaphore.line
      (endOfDump.head serial) (fun out => .exited ⟨0, out⟩) where
  shows out s := by
    have hbody : (s.response serial).body.length = 10 + s.name.length :=
      s.length_record
    have hok : (s.response serial).status = CNT_STATUS_OK := rfl
    rw [dumpBody, if_neg (not_not_intro hok), if_neg (by omega)]
    rfl
  ends out := rfl

/-- The responses to a dump. -/
theorem responses_dump {sems : List Semaphore}
    (hsv : sv.answers .dump = dumpAnswers sems) (serial : UInt32) :
    sv.responses .dump serial
      = sems.map (Semaphore.response · serial) ++ [endOfDump.head serial] := by
  rw [CntServer.responses, hsv, dumpAnswers, List.filterMap_append,
    List.filterMap_map, List.filterMap_cons, endOfDump_response,
    List.filterMap_nil]
  congr 1
  rw [← List.filterMap_eq_map]
  exact List.filterMap_congr fun s _ => s.record_response serial

/-- `yc-cnt dump` prints the semaphores of its server one by one. It can
end with all of them and status 0, and it ends otherwise only because
something outside fails it, behind the lines of a beginning of them. -/
theorem dump_lists {sems : List Semaphore}
    (hsv : sv.answers .dump = dumpAnswers sems) :
    (∃ a : Answers, ¬ Outside a ∧ (∀ n, (a.realloc n).isSome)
      ∧ main sv.peer [ascii "dump"] a
        = some (.exited ⟨0, sems.flatMap Semaphore.line⟩))
    ∧ ∀ (a : Answers) (e : Ending), (∀ n, (a.realloc n).isSome) →
      main sv.peer [ascii "dump"] a = some e →
      e = .exited ⟨0, sems.flatMap Semaphore.line⟩
      ∨ ∃ shown, shown <+: sems
        ∧ e = .exited ⟨1, shown.flatMap Semaphore.line⟩ ∧ Outside a := by
  have hcmd : parseArgs [ascii "dump"] = some .dump := rfl
  have hresponses := responses_dump hsv 1
  have L := dump_shows 1
  constructor
  · refine main_finishes hcmd rfl ?_
    show (sv.responses .dump 1).foldlM dumpBody [] = _
    rw [hresponses, L.whole]
  · intro a e hmem h
    obtain hfold | ⟨taken, out, htaken, hfold, he, hout⟩ :=
      main_answered hmem hcmd rfl h
    · have hfold : (sv.responses .dump 1).foldlM dumpBody [] = .error e := hfold
      rw [hresponses, L.whole] at hfold
      exact .inl (Except.error.inj hfold).symm
    · have htaken : taken <+: sv.responses .dump 1 := htaken
      rw [hresponses] at htaken
      obtain ⟨shown, hshown, rfl⟩ := L.begun htaken hfold
      exact .inr ⟨shown, hshown, he, hout⟩

/-- A dump of two semaphores. -/
theorem dump_lists_two :
    let sems : List Semaphore :=
      [⟨ascii "a", 1, 3, by decide⟩, ⟨ascii "bc", 0, 20, by decide⟩]
    let lines := ascii "1 3 a\n0 20 bc\n"
    (∃ a : Answers, ¬ Outside a ∧ (∀ n, (a.realloc n).isSome)
      ∧ main (dumping sems).peer [ascii "dump"] a = some (.exited ⟨0, lines⟩))
    ∧ ∀ (a : Answers) (e : Ending), (∀ n, (a.realloc n).isSome) →
      main (dumping sems).peer [ascii "dump"] a = some e →
      e = .exited ⟨0, lines⟩
      ∨ ∃ shown, shown <+: sems
        ∧ e = .exited ⟨1, shown.flatMap Semaphore.line⟩ ∧ Outside a := by
  intro sems lines
  have hlines : sems.flatMap Semaphore.line = lines := by decide +kernel
  rw [← hlines]
  exact dump_lists (show (dumping sems).answers .dump = _ from rfl)

-- ============================================================== statistics

/-- `yc-cnt stats` prints the statistics of its server, however many there
are. It can end so, and ends otherwise, with nothing printed, only because
something outside fails it. -/
theorem stats_lists {stats : List CntStat}
    (hsv : sv.answers .stats = [statsAnswer stats])
    (hfits : ∀ s ∈ stats, s.Fits) :
    (∃ a : Answers, ¬ Outside a ∧ (∀ n, (a.realloc n).isSome)
      ∧ main sv.peer [ascii "stats"] a
        = some (.exited ⟨0, stats.flatMap statLine⟩))
    ∧ ∀ (a : Answers) (e : Ending), (∀ n, (a.realloc n).isSome) →
      main sv.peer [ascii "stats"] a = some e →
      e = .exited ⟨0, stats.flatMap statLine⟩
      ∨ (e = .exited ⟨1, []⟩ ∧ Outside a) := by
  have hcmd : parseArgs [ascii "stats"] = some .stats := rfl
  have hresponses : sv.responses .stats 1
      = [{ (statsAnswer stats).head 1 with stats := some stats }] := by
    rw [CntServer.responses, hsv, List.filterMap_cons, stats_response hfits]
    rfl
  have hstop : ∀ out, Cmd.stats.body out
      { (statsAnswer stats).head 1 with stats := some stats }
      = .error (.exited ⟨0, stats.flatMap statLine⟩) := fun _ => rfl
  have hwhole : (sv.responses .stats 1).foldlM Cmd.stats.body []
      = .error (.exited ⟨0, stats.flatMap statLine⟩) := by
    rw [hresponses]
    exact Source.foldlM_cons_error [] (hstop [])
  refine ⟨main_finishes hcmd rfl hwhole, fun a e hmem h => ?_⟩
  obtain hfold | ⟨taken, out, htaken, hfold, he, hout⟩ :=
    main_answered hmem hcmd rfl h
  · exact .inl (Except.error.inj (hwhole.symm.trans hfold)).symm
  · have htaken : taken <+: sv.responses .stats 1 := htaken
    rw [hresponses] at htaken
    obtain ⟨-, rfl⟩ := Source.foldlM_unstopped (hstop []) htaken hfold
    exact .inr ⟨he, hout⟩

/-- Two statistics, one of them without a value. -/
theorem stats_lists_two :
    let stats : List CntStat := [⟨ascii "ops", ascii "12"⟩, ⟨ascii "sems", []⟩]
    let sv := reporting stats (by decide) (by decide)
    let lines := ascii "ops 12\nsems \n"
    (∃ a : Answers, ¬ Outside a ∧ (∀ n, (a.realloc n).isSome)
      ∧ main sv.peer [ascii "stats"] a = some (.exited ⟨0, lines⟩))
    ∧ ∀ (a : Answers) (e : Ending), (∀ n, (a.realloc n).isSome) →
      main sv.peer [ascii "stats"] a = some e →
      e = .exited ⟨0, lines⟩ ∨ (e = .exited ⟨1, []⟩ ∧ Outside a) := by
  intro stats sv lines
  have hlines : stats.flatMap statLine = lines := by decide +kernel
  rw [← hlines]
  exact stats_lists (show sv.answers .stats = _ from rfl) (by decide)

end YcCnt

end Yrmcds
