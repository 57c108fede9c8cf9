/-
The exit status of the commands of `yc` that change something.

Each of them awaits the answer to its last request (`changes_plan`). In
front of a server that answers every request with its verdict, it finds
there a refusal, or success (`foldlM_answers`): without `-q` in the answer
to its request, with `-q` in that to the `Noop`, which comes where no
refusal came before. So with and without `-q` it exits with 0 exactly when
the server has done what was asked (`change_exits`).

What `incr` and `decr` print is the number of the answer they await; with
`-q` that of the `Noop`, which is 0.
-/
import Yrmcds.Proofs.Yc.Commands
import Yrmcds.Spec.ChangeServer

namespace Yrmcds

open Gather Framing

namespace Yc

variable {lz : Lz4} {compression : Nat} {quiet : Bool} {cmd : Cmd}
  {argv : List (List UInt8)} {a : Setting} {plan : Plan}

-- ============================================================== the plans

/-- The commands that change something. -/
def Cmd.Changes (cmd : Cmd) : Prop :=
  cmd ∉ [.noop, .stat, .keys, .version, .quit]

instance : DecidablePred Cmd.Changes := fun cmd =>
  inferInstanceAs (Decidable (cmd ∉ _))

/-- What a command that changes something prints of the answer it
awaits. -/
def Cmd.shown (a : Setting) : Cmd → Response → Option (List UInt8)
  | incr, r | decr, r => valueLine r
  | delete, r => writeData a.stdout r.data
  | _, r => silent r

/-- The request of such a command. -/
structure Asks (lz : Lz4) (quiet : Bool) (cmd : Cmd) (request : Request) :
    Prop where
  ne_noop : ∀ {c block p}, request.packet lz c block = .ok p → p.cmd ≠ .noop
  isQuiet : ∀ {c block p}, request.packet lz c block = .ok p →
    p.cmd.isQuiet = true → quiet = true
  number : ∀ {c block p}, request.packet lz c block = .ok p → quiet = false →
    (cmd = .incr ∨ cmd = .decr ↔ p.cmd = .increment ∨ p.cmd = .decrement)

/-- A request has the command that `-q` picks. -/
theorem asks_of_pick {request : Request} (q command : Command)
    (h : ∀ {c block p}, request.packet lz c block = .ok p →
      p.cmd = pick quiet q command)
    (hne : q ≠ .noop ∧ command ≠ .noop) (hquiet : command.isQuiet = false)
    (hnumber : cmd = .incr ∨ cmd = .decr
      ↔ command = .increment ∨ command = .decrement) :
    Asks lz quiet cmd request where
  ne_noop hp := by
    rw [h hp]
    cases quiet with
    | false => exact hne.2
    | true => exact hne.1
  isQuiet hp hq := by
    rw [h hp] at hq
    cases quiet with
    | false => cases hquiet.symm.trans hq
    | true => rfl
  number hp hplain := by
    subst hplain
    rw [h hp]
    exact hnumber

/-- The plan of a command that changes something. -/
structure Plan.Changes (lz : Lz4) (quiet : Bool) (cmd : Cmd) (a : Setting)
    (plan : Plan) : Prop where
  noop : plan.noop = quiet
  loops : plan.Loops lz (awaited (cmd.shown a))
  asks : Asks lz quiet cmd plan.request

theorem store_ok {most : Nat}
    {request : Ptr → Ptr → UInt32 → UInt32 → UInt64 → Request}
    {file : Option Kernel}
    (h : store lz quiet most request argv file = some (.ok plan)) :
    ∃ key data flags expire cas, plan
      = ⟨request key data flags expire cas, quiet,
        looped lz (awaited silent)⟩ := by
  unfold store at h
  split at h
  next => cases h
  next =>
    unfold withData at h
    split at h
    next => cases h
    next => cases h
    next =>
      cases h
      exact ⟨_, _, _, _, _, rfl⟩

theorem concat_ok {request : Ptr → Ptr → Request} {file : Option Kernel}
    (h : concat lz quiet request argv file = some (.ok plan)) :
    ∃ key data, plan
      = ⟨request key data, quiet, looped lz (awaited silent)⟩ := by
  unfold concat at h
  split at h
  next =>
    unfold withData at h
    split at h
    next => cases h
    next => cases h
    next =>
      cases h
      exact ⟨_, _, rfl⟩
  next => cases h

theorem keyed_ok {request : Ptr → Request}
    {shown : Response → Option (List UInt8)}
    (h : keyed lz quiet request shown argv = some (.ok plan)) :
    ∃ key, plan = ⟨request key, quiet, looped lz (awaited shown)⟩ := by
  unfold keyed at h
  split at h
  next =>
    cases h
    exact ⟨_, rfl⟩
  next => cases h

theorem count_ok {request : Ptr → UInt64 → Request}
    {request2 : Ptr → UInt64 → UInt64 → UInt32 → Request}
    (h : count lz quiet request request2 argv = some (.ok plan)) :
    ∃ r, plan = ⟨r, quiet, looped lz (awaited valueLine)⟩
      ∧ ((∃ key value, r = request key value)
        ∨ ∃ key value initial expire, r = request2 key value initial expire) := by
  unfold count at h
  split at h
  next =>
    cases h
    exact ⟨_, rfl, .inl ⟨_, _, rfl⟩⟩
  next =>
    cases h
    exact ⟨_, rfl, .inr ⟨_, _, _, _, rfl⟩⟩
  next =>
    cases h
    exact ⟨_, rfl, .inr ⟨_, _, _, _, rfl⟩⟩
  next => cases h

theorem flush_ok {delay : UInt32} {p : Packet}
    (h : yrmcdsFlush delay quiet = .ok p) :
    p.cmd = pick quiet .flushQ .flush := by
  unfold yrmcdsFlush at h
  split at h
  next =>
    cases h
    rfl
  next =>
    cases h
    rfl

/-- A command that changes something sends one request for it and awaits
an answer. -/
theorem changes_plan (hcmd : cmd.Changes)
    (h : cmd.plan lz quiet argv a = some (.ok plan)) :
    plan.Changes lz quiet cmd a := by
  cases cmd with
  | noop => exact absurd hcmd (by decide)
  | stat => exact absurd hcmd (by decide)
  | keys => exact absurd hcmd (by decide)
  | version => exact absurd hcmd (by decide)
  | quit => exact absurd hcmd (by decide)
  | touch =>
      have h : cmdTouch lz quiet argv = _ := h
      unfold cmdTouch at h
      split at h
      next =>
        cases h
        refine ⟨rfl, fun _ => rfl, asks_of_pick .touch .touch (fun hp => ?_)
          (by decide) rfl (by decide)⟩
        rw [(keyCommand_ok hp).1]
        cases quiet <;> rfl
      next => cases h
  | set =>
      rw [Cmd.plan, cmdSet] at h
      obtain ⟨_, _, _, _, _, rfl⟩ := store_ok h
      exact ⟨rfl, fun _ => rfl, asks_of_pick .setQ .set
        (fun hp => (sendData_ok hp).1) (by decide) rfl (by decide)⟩
  | replace =>
      rw [Cmd.plan, cmdReplace] at h
      obtain ⟨_, _, _, _, _, rfl⟩ := store_ok h
      exact ⟨rfl, fun _ => rfl, asks_of_pick .replaceQ .replace
        (fun hp => (sendData_ok hp).1) (by decide) rfl (by decide)⟩
  | add =>
      rw [Cmd.plan, cmdAdd] at h
      obtain ⟨_, _, _, _, _, rfl⟩ := store_ok h
      exact ⟨rfl, fun _ => rfl, asks_of_pick .addQ .add
        (fun hp => (sendData_ok hp).1) (by decide) rfl (by decide)⟩
  | rau =>
      rw [Cmd.plan, cmdRau] at h
      obtain ⟨_, _, _, _, _, rfl⟩ := store_ok h
      exact ⟨rfl, fun _ => rfl, asks_of_pick .rauQ .rau
        (fun hp => (sendData_ok hp).1) (by decide) rfl (by decide)⟩
  | incr =>
      rw [Cmd.plan, cmdIncr] at h
      obtain ⟨_, rfl, ⟨_, _, rfl⟩ | ⟨_, _, _, _, rfl⟩⟩ := count_ok h
      · exact ⟨rfl, fun _ => rfl, asks_of_pick .incrementQ .increment
          (fun hp => (keyCommand_ok hp).1) (by decide) rfl (by decide)⟩
      · exact ⟨rfl, fun _ => rfl, asks_of_pick .incrementQ .increment
          (fun hp => (keyCommand_ok hp).1) (by decide) rfl (by decide)⟩
  | decr =>
      rw [Cmd.plan, cmdDecr] at h
      obtain ⟨_, rfl, ⟨_, _, rfl⟩ | ⟨_, _, _, _, rfl⟩⟩ := count_ok h
      · exact ⟨rfl, fun _ => rfl, asks_of_pick .decrementQ .decrement
          (fun hp => (keyCommand_ok hp).1) (by decide) rfl (by decide)⟩
      · exact ⟨rfl, fun _ => rfl, asks_of_pick .decrementQ .decrement
          (fun hp => (keyCommand_ok hp).1) (by decide) rfl (by decide)⟩
  | append =>
      rw [Cmd.plan, cmdAppend] at h
      obtain ⟨_, _, rfl⟩ := concat_ok h
      exact ⟨rfl, fun _ => rfl, asks_of_pick .appendQ .append
        (fun hp => (concatCommand_ok hp).1) (by decide) rfl (by decide)⟩
  | prepend =>
      rw [Cmd.plan, cmdPrepend] at h
      obtain ⟨_, _, rfl⟩ := concat_ok h
      exact ⟨rfl, fun _ => rfl, asks_of_pick .prependQ .prepend
        (fun hp => (concatCommand_ok hp).1) (by decide) rfl (by decide)⟩
  | delete =>
      rw [Cmd.plan, cmdDelete] at h
      obtain ⟨_, rfl⟩ := keyed_ok h
      exact ⟨rfl, fun _ => rfl, asks_of_pick .deleteQ .delete
        (fun hp => (keyCommand_ok hp).1) (by decide) rfl (by decide)⟩
  | lock =>
      rw [Cmd.plan, cmdLock] at h
      obtain ⟨_, rfl⟩ := keyed_ok h
      exact ⟨rfl, fun _ => rfl, asks_of_pick .lockQ .lock
        (fun hp => (keyCommand_ok hp).1) (by decide) rfl (by decide)⟩
  | unlock =>
      rw [Cmd.plan, cmdUnlock] at h
      obtain ⟨_, rfl⟩ := keyed_ok h
      exact ⟨rfl, fun _ => rfl, asks_of_pick .unlockQ .unlock
        (fun hp => (keyCommand_ok hp).1) (by decide) rfl (by decide)⟩
  | unlockall =>
      cases h
      exact ⟨rfl, fun _ => rfl, asks_of_pick .unlockAllQ .unlockAll
        (fun hp => by cases hp; rfl) (by decide) rfl (by decide)⟩
  | flush =>
      cases h
      exact ⟨rfl, fun _ => rfl, asks_of_pick .flushQ .flush
        (fun hp => flush_ok hp) (by decide) rfl (by decide)⟩

-- ============================================================ the answers

section Awaited

variable {shown : Response → Option (List UInt8)} {serial : UInt32}
  {r : Response}

theorem awaited_refused (h : r.status ≠ Status.ok) :
    awaited shown serial [] r = .error (some ⟨3, []⟩) := by
  rw [awaited, checked, if_pos h]

theorem awaited_own (hok : r.status = Status.ok) (hserial : r.serial = serial) :
    awaited shown serial [] r
      = .error ((shown r).map fun bs => ⟨0, bs⟩) := by
  rw [awaited, checked, if_neg (not_not_intro hok), if_pos hserial]
  rfl

theorem awaited_other (hok : r.status = Status.ok) (hserial : r.serial ≠ serial) :
    awaited shown serial [] r = .ok [] := by
  rw [awaited, checked, if_neg (not_not_intro hok), if_neg hserial]

/-- A command that awaits an answer prints nothing before. -/
theorem awaited_silent {rs : List Response} {out : List UInt8}
    (h : rs.foldlM (awaited shown serial) [] = .ok out) : out = [] := by
  induction rs with
  | nil =>
      cases h
      rfl
  | cons r rs ih =>
      by_cases hok : r.status = Status.ok
      · by_cases hserial : r.serial = serial
        · rw [Source.foldlM_cons_error rs (awaited_own hok hserial)] at h
          cases h
        · rw [Source.foldlM_cons_ok rs (awaited_other hok hserial)] at h
          exact ih h
      · rw [Source.foldlM_cons_error rs (awaited_refused hok)] at h
        cases h

end Awaited

namespace Judge

variable (sv : Judge) {m : RequestMessage}

theorem good_status : (sv.good m).response.status = Status.ok := by
  unfold good
  split
  next => rfl
  next => rfl

theorem good_serial : (sv.good m).response.serial = m.serial := by
  unfold good
  split
  next => rfl
  next => rfl

/-- The answer that is awaited. -/
def last (quiet : Bool) (m : RequestMessage) : Response :=
  (sv.good (if quiet then noopPacket.message 2 else m)).response

/-- What a command finds that awaits an answer: a refusal, or success. -/
theorem foldlM_answers (quiet : Bool) (shown : Response → Option (List UInt8))
    (hne : m.command ≠ .noop) (hserial : m.serial = 1)
    (hquiet : m.command.isQuiet = true → quiet = true) :
    (sv.responder.responses
        (m :: if quiet then [noopPacket.message 2] else [])).foldlM
        (awaited shown (if quiet then 2 else 1)) []
      = .error (if sv.verdict m = Status.ok then
          (shown (sv.last quiet m)).map fun bs => ⟨0, bs⟩
        else some ⟨3, []⟩) := by
  have hresponses : sv.responder.responses
      (m :: if quiet then [noopPacket.message 2] else [])
      = (sv.answers m).map Reply.response
        ++ if quiet then [sv.last quiet m] else [] := by
    rw [Responder.responses, List.flatMap_cons, List.map_append]
    cases quiet with
    | false => rfl
    | true => rfl
  rw [hresponses, answers, if_neg hne]
  by_cases hok : sv.verdict m = Status.ok
  · rw [if_neg (not_not_intro hok), if_pos hok]
    cases quiet with
    | false =>
        have hplain : ¬ m.command.isQuiet = true := fun h => by cases hquiet h
        rw [if_neg hplain]
        exact Source.foldlM_cons_error _
          (awaited_own sv.good_status (sv.good_serial.trans hserial))
    | true =>
        have hlast : awaited shown 2 [] (sv.last true m)
            = .error ((shown (sv.last true m)).map fun bs => ⟨0, bs⟩) :=
          awaited_own sv.good_status sv.good_serial
        by_cases hq : m.command.isQuiet = true
        · rw [if_pos hq]
          exact Source.foldlM_cons_error _ hlast
        · -- the answer of a command that has no quiet form is skipped
          have hother : awaited shown 2 [] (sv.good m).response = .ok [] := by
            refine awaited_other sv.good_status ?_
            rw [sv.good_serial, hserial]
            decide
          rw [if_neg hq]
          exact (Source.foldlM_cons_ok _ hother).trans
            (Source.foldlM_cons_error _ hlast)
  · rw [if_pos hok, if_neg hok]
    exact Source.foldlM_cons_error _ (awaited_refused hok)

end Judge

-- ============================================================== processes

/-- What a command prints when the server has done what was asked and
counts `n`. -/
def Cmd.printed (quiet : Bool) (n : UInt64) : Cmd → List UInt8
  | incr | decr => ascii (toString (if quiet then 0 else n).toNat) ++ [10]
  | _ => []

/-- Of a response without data it is the value, or nothing. -/
theorem shown_of_data {r : Response} (hdata : r.data = []) (cmd : Cmd) :
    cmd.shown a r = some (cmd.printed false r.value) := by
  cases cmd with
  | delete =>
      show writeData a.stdout r.data = _
      rw [hdata]
      cases a.stdout with
      | nil => rfl
      | cons ack acks => cases ack <;> rfl
  | _ => rfl

/-- The answer that is awaited shows it. -/
theorem shown_last {lz : Lz4} {request : Request} {c : Conn} {block : Bool}
    {p : Packet} (sv : Judge) (hasks : Asks lz quiet cmd request)
    (hp : request.packet lz c block = .ok p) :
    cmd.shown a (sv.last quiet (p.message 1))
      = some (cmd.printed quiet (sv.value (p.message 1))) := by
  have hdata : ∀ m, (sv.good m).response.data = [] := by
    intro m
    unfold Judge.good
    split
    next => rfl
    next => rfl
  rw [Judge.last, shown_of_data (hdata _)]
  cases quiet with
  | true => cases cmd <;> rfl
  | false =>
      have hnumber := hasks.number hp rfl
      rw [if_neg Bool.false_ne_true]
      by_cases hcount : cmd = .incr ∨ cmd = .decr
      · have hvalue : (sv.good (p.message 1)).response.value
            = sv.value (p.message 1) := by
          rw [Judge.good]
          exact congrArg (Response.value ∘ Reply.response)
            (if_pos (hnumber.mp hcount))
        rw [hvalue]
      · cases cmd with
        | incr => exact absurd (.inl rfl) hcount
        | decr => exact absurd (.inr rfl) hcount
        | _ => rfl

/-- A command of `yc` that changes something exits with status 0 and what
it prints exactly when the server has done what it asked for, and with 3
when the server has not, with `-q` and without. It can exit so, and exits
otherwise only because something outside fails it. -/
theorem change_exits (hlz : lz.Lawful) (sv : Judge) (hcmd : cmd.Changes)
    {name : List UInt8} (hname : commands.lookup name = some (.inr cmd))
    (hplan : cmd.plan lz quiet argv a = some (.ok plan))
    (hpass : ∀ c, Fresh compression c →
      (plan.request.passed lz c a.block).isSome) :
    (∃ (a' : Setting) (bytes : List UInt8) (m : RequestMessage)
      (rest : List RequestMessage), a.Alike a' ∧ ¬ Outside a'
      ∧ written lz quiet compression name argv a' = some bytes
      ∧ requestFormat.parse bytes = m :: rest
      ∧ mainNamed lz sv.responder.peer quiet compression name argv a'
        = some (if sv.verdict m = Status.ok then
            ⟨0, cmd.printed quiet (sv.value m)⟩
          else ⟨3, []⟩))
    ∧ ∀ e, mainNamed lz sv.responder.peer quiet compression name argv a
        = some e →
      (e = ⟨2, []⟩ ∧ Outside a)
      ∨ ∃ bytes m rest, written lz quiet compression name argv a = some bytes
        ∧ requestFormat.parse bytes = m :: rest
        ∧ e = if sv.verdict m = Status.ok then
            ⟨0, cmd.printed quiet (sv.value m)⟩
          else ⟨3, []⟩ := by
  obtain ⟨hnoop, hloops, hasks⟩ := changes_plan hcmd hplan
  -- what the answers to its requests come to
  have hfold : ∀ {c : Conn} {p : Packet},
      plan.request.passed lz c a.block = some p →
      (sv.responder.responses
          (p.message 1 :: if plan.noop then [noopPacket.message 2] else [])).foldlM
          (awaited (cmd.shown a) (if plan.noop then 2 else 1)) []
        = .error (some (if sv.verdict (p.message 1) = Status.ok then
            ⟨0, cmd.printed quiet (sv.value (p.message 1))⟩
          else ⟨3, []⟩)) := by
    intro c p hp
    have hpacket := (passed_packet hp).1
    rw [hnoop, sv.foldlM_answers quiet _ (hasks.ne_noop hpacket) rfl
      (hasks.isQuiet hpacket), shown_last sv hasks hpacket]
    split <;> rfl
  constructor
  · obtain ⟨c, p, bytes, ms, hp, hparse, rfl, hrun⟩ :=
      mainNamed_finishes hlz sv.responder hname hplan hloops hpass
    obtain ⟨a', halike, hout, hwritten, hend⟩ := hrun _ (hfold hp)
    exact ⟨a', bytes, _, _, halike, hout, hwritten, hparse, hend⟩
  · intro e h
    obtain hout | ⟨c, p, bytes, ms, hp, hbytes, hparse, rfl, hend⟩ :=
      mainNamed_answered hlz hname hplan hloops hpass h
    · exact .inl hout
    · obtain hdone | ⟨taken, out, -, htaken, rfl, hout⟩ := hend
      · refine .inr ⟨bytes, _, _, hbytes, hparse, ?_⟩
        have hexit := Except.error.inj (hdone.symm.trans (hfold hp))
        exact Option.some.inj hexit
      · obtain rfl := awaited_silent htaken
        exact .inl ⟨rfl, hout⟩

/-- `yc -q incr k 5` where the counter is 42 then prints 0. -/
theorem change_exits_incr :
    let sv : Judge := ⟨fun _ => Status.ok, fun _ => 42, fun _ => [],
      fun _ => Nat.zero_le _⟩
    let a : Setting := ⟨⟨.ok 3, some fun _ => 0, [.took 45], [.took 24],
      [.bytes 24], []⟩, none, true⟩
    let argv : List (List UInt8) := [[107], [53]]
    (∃ (a' : Setting) (bytes : List UInt8) (m : RequestMessage)
      (rest : List RequestMessage), a.Alike a' ∧ ¬ Outside a'
      ∧ written Lz4.literals true 16384 (ascii "incr") argv a' = some bytes
      ∧ requestFormat.parse bytes = m :: rest
      ∧ mainNamed Lz4.literals sv.responder.peer true 16384 (ascii "incr") argv
        a' = some ⟨0, ascii "0\n"⟩)
    ∧ ∀ e, mainNamed Lz4.literals sv.responder.peer true 16384 (ascii "incr")
        argv a = some e →
      (e = ⟨2, []⟩ ∧ Outside a)
      ∨ ∃ bytes m rest,
        written Lz4.literals true 16384 (ascii "incr") argv a = some bytes
        ∧ requestFormat.parse bytes = m :: rest ∧ e = ⟨0, ascii "0\n"⟩ := by
  intro sv a argv
  have hexit : ∀ m, (if sv.verdict m = Status.ok then
      ⟨0, Cmd.incr.printed true (sv.value m)⟩ else ⟨3, []⟩)
      = (⟨0, ascii "0\n"⟩ : Exit) := fun _ =>
    show (⟨0, Cmd.incr.printed true 42⟩ : Exit) = _ by decide
  have hexits := change_exits Lz4.literals_lawful sv (by decide)
    (show commands.lookup (ascii "incr") = some (.inr .incr) from rfl)
    (show Cmd.incr.plan Lz4.literals true argv a = some (.ok _) from rfl)
    (show ∀ c, Fresh 16384 c → _ from fun _ _ => rfl)
  simp only [hexit] at hexits
  exact hexits

end Yc

end Yrmcds
