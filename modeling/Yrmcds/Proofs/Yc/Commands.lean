/-
Runs of the commands of `yc`.

A command that sends has its requests on the wire (`sendAll_ok`), or it
ends with status 2 for a reason (`sendAll_error`). Behind that it receives:
a command with one response in a loop of one round (`single_eq`), so that
every command folds its body over the responses of its stream
(`looped_comes`).
-/
import Yrmcds.Model.YcCommands
import Yrmcds.Proofs.Recv.Source
import Yrmcds.Proofs.Wire.Requests
import Yrmcds.Proofs.Yc.Quiet
import Yrmcds.Spec.Replies

namespace Yrmcds

open Gather Framing

namespace Yc

variable {lz : Lz4} {compression : Nat} {quiet block : Bool} {c : Conn}
  {request : Request} {p : Packet} {a : Setting} {sent : Requested}

-- ================================================================ sending

/-- A call that got past the checks has its packet. -/
theorem passed_packet (h : request.passed lz c block = some p) :
    request.packet lz c block = .ok p ∧ ¬ p.rejected := by
  unfold Request.passed at h
  cases hq : request.packet lz c block with
  | error e =>
      rw [hq] at h
      cases h
  | ok q =>
      rw [hq] at h
      dsimp only at h
      split at h
      next => cases h
      next hrej =>
        cases h
        exact ⟨rfl, hrej⟩

/-- It is one `send_command`. -/
theorem passed_exec (h : request.passed lz c block = some p)
    (acks : List Ack) :
    SendCall.exec lz c ⟨request, block, acks⟩ = sendCommand c p acks := by
  rw [SendCall.exec, (passed_packet h).1]

/-- A call that did not fails with an error. -/
theorem not_passed_exec (h : request.passed lz c block = none)
    (acks : List Ack) :
    ∃ e, (SendCall.exec lz c ⟨request, block, acks⟩).result = some e
      ∧ e ≠ .ok := by
  unfold Request.passed at h
  rw [SendCall.exec]
  cases hq : request.packet lz c block with
  | error e => exact ⟨e, rfl, Request.packet_error hq⟩
  | ok q =>
      rw [hq] at h
      dsimp only at h
      split at h
      next hrej =>
        dsimp only
        rw [sendCommand, if_pos hrej]
        exact ⟨.badArgument, rfl, by simp⟩
      next => cases h

theorem send_of_error {acks : List Ack} {e : Error}
    (hres : (SendCall.exec lz c ⟨request, block, acks⟩).result = some e)
    (hne : e ≠ .ok) : send lz block c request acks = some (.error e) := by
  unfold send
  dsimp only
  rw [hres]
  cases e with
  | ok => exact absurd rfl hne
  | _ => rfl

/-- A request that returns OK has been sent. -/
theorem send_sent (hp : request.passed lz c block = some p) {acks : List Ack}
    (hok : (sendCommand c p acks).result = some .ok) :
    send lz block c request acks = some (.ok (asked c p)) := by
  have hrej := (passed_packet hp).2
  have hwritten := (sendCommand_spec acks hrej).of_ok hok
  unfold send
  rw [passed_exec hp]
  dsimp only
  rw [hok, hwritten, sendCommand, if_neg hrej]
  rfl

theorem send_ok {acks : List Ack}
    (h : send lz block c request acks = some (.ok sent)) :
    ∃ p, request.passed lz c block = some p ∧ sent = asked c p := by
  cases hp : request.passed lz c block with
  | none =>
      obtain ⟨e, hres, hne⟩ := not_passed_exec hp acks
      rw [send_of_error hres hne] at h
      cases h
  | some p =>
      have hok : (sendCommand c p acks).result = some .ok := by
        unfold send at h
        rw [passed_exec hp] at h
        dsimp only at h
        split at h
        next => cases h
        next hok => exact hok
        next => cases h
      rw [send_sent hp hok] at h
      cases h
      exact ⟨p, rfl, rfl⟩

theorem send_error {acks : List Ack} {e : Error}
    (h : send lz block c request acks = some (.error e)) :
    request.passed lz c block = none ∨ .refused ∈ acks := by
  cases hp : request.passed lz c block with
  | none => exact .inl rfl
  | some p =>
      refine .inr ?_
      by_contra hacks
      have hrej := (passed_packet hp).2
      have hexec := passed_exec hp acks
      unfold send at h
      rw [hexec] at h
      dsimp only at h
      split at h
      next => cases h
      next => cases h
      next e' hne hres =>
        have hok := (sendCommand_spec acks hrej).ok_of_returns hacks
          (by rw [hres]; simp)
        rw [hres] at hok
        cases hok
        exact hne rfl

theorem noop_passed (lz : Lz4) (block : Bool) (c : Conn) :
    Request.noop.passed lz c block = some noopPacket := rfl

/-- What a command leaves on the wire. -/
theorem sendAll_ok (h : sendAll lz quiet request c a = some (.ok sent)) :
    ∃ p, request.passed lz c a.block = some p
      ∧ sent = requested quiet c p := by
  unfold sendAll at h
  split at h
  next first hfirst =>
    obtain ⟨p, hp, rfl⟩ := send_ok hfirst
    refine ⟨p, hp, ?_⟩
    split at h
    next hquiet =>
      rw [requested, if_pos hquiet]
      split at h
      next noop hnoop =>
        obtain ⟨q, hq, rfl⟩ := send_ok hnoop
        cases (noop_passed lz a.block _).symm.trans hq
        cases h
        rfl
      next r hne => exact absurd h (hne _)
    next hquiet =>
      cases h
      rw [requested, if_neg hquiet]
  next r hne => exact absurd h (hne _)

/-- Why requests may not be on the wire. -/
inductive Unsent (lz : Lz4) (request : Request) (c : Conn) (a : Setting) :
    Prop where
  | argument (h : request.passed lz c a.block = none)
  | refused (h : .refused ∈ a.request)
  | refusedNoop (h : .refused ∈ a.noop)

theorem sendAll_error {e : Error}
    (h : sendAll lz quiet request c a = some (.error e)) :
    Unsent lz request c a := by
  unfold sendAll at h
  split at h
  next first hfirst =>
    split at h
    next =>
      split at h
      next => cases h
      next r hne =>
        obtain hnone | hrefused := send_error h
        · cases (noop_passed lz a.block _).symm.trans hnone
        · exact .refusedNoop hrefused
    next => cases h
  next r hne =>
    obtain hnone | hrefused := send_error h
    · exact .argument hnone
    · exact .refused hrefused

/-- There is a way for a request to be sent. -/
theorem send_finishes (hp : request.passed lz c block = some p) :
    ∃ acks, .refused ∉ acks
      ∧ send lz block c request acks = some (.ok (asked c p)) := by
  refine ⟨[.took (p.frame (c.serial + 1)).length], ?_, ?_⟩
  · rw [List.mem_singleton]
    intro h
    cases h
  · exact send_sent hp (sendCommand_spec _ (passed_packet hp).2).ok_of_all

/-- There is a way for the requests to be sent. -/
theorem sendAll_finishes (hp : request.passed lz c block = some p)
    (quiet : Bool) :
    ∃ acks noop, .refused ∉ acks ∧ .refused ∉ noop
      ∧ ∀ a : Setting, a.block = block → a.request = acks → a.noop = noop →
        sendAll lz quiet request c a = some (.ok (requested quiet c p)) := by
  obtain ⟨acks, hacks, hfirst⟩ := send_finishes hp
  obtain ⟨noop, hnoop, hsecond⟩ :=
    send_finishes (noop_passed lz block (asked c p).conn)
  refine ⟨acks, noop, hacks, hnoop, fun a hblock ha ha' => ?_⟩
  rw [sendAll, hblock, ha, ha', hfirst]
  cases quiet with
  | false => rfl
  | true =>
      dsimp only
      rw [if_pos rfl, hsecond]
      rfl

-- ============================================================== receiving

theorem nextResponse_eq (lz : Lz4) :
    nextResponse lz = fun x => recvCall lz x.1 x.2 := by
  funext x
  rw [nextResponse, recvCall]
  cases yrmcdsRecv lz x.1 x.2 with
  | none => rfl
  | some out =>
      obtain ⟨res, x'⟩ := out
      cases res with
      | ok r => rfl
      | err e => rfl

/-- The body of a command with one response. -/
def once (shown : Response → List UInt8) : Body := fun _ r =>
  .error (if r.status ≠ Status.ok then some ⟨3, []⟩ else some ⟨0, shown r⟩)

/-- One response is a loop that stops in its first round. -/
theorem single_eq (lz : Lz4) (shown : Response → List UInt8) (fuel : Nat)
    (serial : UInt32) (x : Conn × Kernel) :
    single lz shown (fuel + 1) serial x
      = looped lz (fun _ => once shown) (fuel + 1) serial x :=
  Source.once_eq_loop (nextResponse lz) failed _ fuel [] x

/-- A connection that nothing has been received on, in front of a
stream. -/
abbrev Going (lz : Lz4) (compression : Nat) (stream : List UInt8)
    (script : List Answer) : Conn × Kernel → Prop :=
  GoneOn (responseFormat lz compression) Conn.rx
    (fun c => c.BufOk ∧ c.compressSize = compression) stream script

/-- What a loop of a command comes to in front of a stream. -/
abbrev Comes (lz : Lz4) (compression : Nat) (body : Body)
    (stream : List UInt8) (script : List Answer) :
    Option (Option Exit) → Prop :=
  Source.Comes ((responseFormat lz compression).parse stream)
    (Reason (responseFormat lz compression) stream script)
    (∃ x, Going lz compression stream script x ∧ nextResponse lz x = none)
    failed body []

/-- A command folds its body over the responses of its stream. -/
theorem looped_comes (hlz : lz.Lawful) (body : UInt32 → Body)
    (hc : Live compression c) {stream : List UInt8}
    (hpending : c.pending ++ stream = stream) (script : List Answer)
    (serial : UInt32) :
    Comes lz compression (body serial) stream script
      (looped lz body (c.used + stream.length + 1) serial
        (c, ⟨stream, script⟩)) := by
  have D := (recvCall_receives hlz compression).delivers stream script
  rw [← nextResponse_eq] at D
  have hgone : Going lz compression stream script (c, ⟨stream, script⟩) :=
    ⟨⟨hc.ok, hc.compressSize⟩, fun hd => absurd (hc.valid.symm.trans hd) (by simp),
      ⟨0, hpending⟩, List.suffix_refl _⟩
  have hunread : (c.rx ⟨stream, script⟩).unread = stream := hpending
  have hfew := hgone.length_parse_le
  have hcomes : Source.Comes
      ((responseFormat lz compression).parse (c.rx ⟨stream, script⟩).unread)
      (Reason (responseFormat lz compression) stream script)
      (∃ x, Going lz compression stream script x ∧ nextResponse lz x = none)
      failed (body serial) []
      (looped lz body (c.used + stream.length + 1) serial
        (c, ⟨stream, script⟩)) :=
    D.comes (fun h => h) (fun hx hnone => ⟨_, hx, hnone⟩) [] hgone (by omega)
  rw [hunread] at hcomes
  exact hcomes

/-- There is a way for a loop of a command to end as these responses
say. -/
theorem looped_finishes (hlz : lz.Lawful) (body : UInt32 → Body)
    (hc : Live compression c) {stream : List UInt8}
    (hpending : c.pending ++ stream = stream) {serial : UInt32}
    {t : Option Exit}
    (hfold : ((responseFormat lz compression).parse stream).foldlM
      (body serial) [] = .error t) :
    ∃ script, Serving script
      ∧ looped lz body (c.used + stream.length + 1) serial
        (c, ⟨stream, script⟩) = some t := by
  have V := recvCall_provides hlz compression
  rw [← nextResponse_eq] at V
  have hunread : (c.rx ⟨stream, []⟩).unread = stream := hpending
  have hfew := (responseFormat lz compression).length_parse_le stream
  have hfuel : ((responseFormat lz compression).parse
      (c.rx ⟨stream, []⟩).unread).length < c.used + stream.length + 1 := by
    rw [hunread]
    omega
  rw [← hunread] at hfold
  obtain ⟨script, x', hserve, hloop⟩ :=
    V.loop_of_fold failed (x := (c, stream))
      ⟨⟨hc.ok, hc.compressSize⟩, hc.valid⟩ hfold hfuel
  exact ⟨script, hserve, congrArg (Option.map Prod.fst) hloop⟩

-- ============================================================== a command

variable {peer : Peer} {body : UInt32 → Body} {plan : Plan} {cmd : Cmd}
  {name : List UInt8} {argv : List (List UInt8)} {e : Exit}

/-- A plan with a loop for a body. -/
def Plan.Loops (lz : Lz4) (body : UInt32 → Body) (plan : Plan) : Prop :=
  ∀ fuel, plan.receive (fuel + 1) = looped lz body (fuel + 1)

/-- The commands that receive once. -/
theorem loops_single (lz : Lz4) (request : Request) (noop : Bool)
    (shown : Response → List UInt8) :
    Plan.Loops lz (fun _ => once shown) ⟨request, noop, single lz shown⟩ := by
  intro fuel
  funext serial x
  exact single_eq lz shown fuel serial x

/-- A command on a fresh connection has its requests on the wire and comes
to what the answers to them say, or it ends before. -/
theorem Plan.run_comes (hlz : lz.Lawful) (hc : Fresh compression c)
    (hloops : plan.Loops lz body) :
    (plan.run lz peer c a = some ⟨2, []⟩ ∧ Unsent lz plan.request c a)
    ∨ (plan.run lz peer c a = none
      ∧ sendAll lz plan.noop plan.request c a = none)
    ∨ ∃ p t, plan.request.passed lz c a.block = some p
      ∧ plan.written lz c a = some (requested plan.noop c p).written
      ∧ plan.run lz peer c a = t.join
      ∧ Comes lz compression (body (requested plan.noop c p).serial)
        (peer (requested plan.noop c p).written) a.recv t := by
  rw [Plan.run, Plan.written]
  cases hsend : sendAll lz plan.noop plan.request c a with
  | none => exact .inr (.inl ⟨rfl, rfl⟩)
  | some res =>
      cases res with
      | error e => exact .inl ⟨rfl, sendAll_error hsend⟩
      | ok sent =>
          obtain ⟨p, hp, rfl⟩ := sendAll_ok hsend
          obtain ⟨hlive, hunread⟩ := requested_conn hc plan.noop p
          refine .inr (.inr ⟨p, _, hp, rfl, rfl, ?_⟩)
          rw [hloops]
          exact looped_comes hlz body hlive (hunread _) a.recv _

/-- There is a way for a command to end as the answers to its requests
say. -/
theorem Plan.run_finishes (hlz : lz.Lawful) (hc : Fresh compression c)
    (hloops : plan.Loops lz body)
    (hp : plan.request.passed lz c block = some p) {t : Option Exit}
    (hfold : ((responseFormat lz compression).parse
        (peer (requested plan.noop c p).written)).foldlM
        (body (requested plan.noop c p).serial) [] = .error t) :
    ∃ acks noop script, .refused ∉ acks ∧ .refused ∉ noop ∧ Serving script
      ∧ ∀ a : Setting, a.block = block → a.request = acks → a.noop = noop →
        a.recv = script → plan.run lz peer c a = t
          ∧ plan.written lz c a = some (requested plan.noop c p).written := by
  obtain ⟨hlive, hunread⟩ := requested_conn hc plan.noop p
  obtain ⟨acks, noop, hacks, hnoop, hsend⟩ := sendAll_finishes hp plan.noop
  obtain ⟨script, hserve, hloop⟩ :=
    looped_finishes hlz body hlive (hunread _) hfold
  refine ⟨acks, noop, script, hacks, hnoop, hserve,
    fun a hblock ha ha' hrecv => ?_⟩
  rw [Plan.run, Plan.written, hsend a hblock ha ha']
  dsimp only
  rw [hloops, hrecv, hloop]
  exact ⟨rfl, rfl⟩

-- ================================================================== main

/-- Something outside the process failed it. -/
inductive Outside (a : Setting) : Prop where
  | server {e : Error} (h : a.server = .error e)
  | malloc (h : a.malloc = none)
  | send (h : .refused ∈ a.request)
  | sendNoop (h : .refused ∈ a.noop)
  | recv {answer : Answer} {e : Error} (h : answer ∈ a.recv)
      (hfails : answer.Fails e)

/-- What a process has written when it receives. -/
def written (lz : Lz4) (quiet : Bool) (compression : Nat) (name : List UInt8)
    (argv : List (List UInt8)) (a : Setting) : Option (List UInt8) :=
  match yrmcdsConnect a.server a.malloc, commands.lookup name with
  | .ok c, some (.inr cmd) =>
      match cmd.plan lz quiet argv a with
      | some (.ok plan) =>
          plan.written lz (yrmcdsSetCompression c compression).2 a
      | _ => none
  | _, _ => none

/-- A command is what `main` comes to on a fresh connection. -/
theorem mainNamed_exec (hname : commands.lookup name = some (.inr cmd))
    (h : mainNamed lz peer quiet compression name argv a = some e) :
    (e = ⟨2, []⟩ ∧ Outside a)
    ∨ ∃ c, Fresh compression c ∧ cmd.exec lz peer quiet argv c a = some e
      ∧ ∀ plan, cmd.plan lz quiet argv a = some (.ok plan) →
        written lz quiet compression name argv a = plan.written lz c a := by
  rw [mainNamed] at h
  cases hconn : yrmcdsConnect a.server a.malloc with
  | error err =>
      rw [hconn] at h
      cases h
      refine .inl ⟨rfl, ?_⟩
      unfold yrmcdsConnect at hconn
      split at hconn
      next hserver => exact .server hserver
      next hmalloc => exact .malloc hmalloc
      next => cases hconn
  | ok c =>
      rw [hconn, hname] at h
      refine .inr ⟨_, fresh_of_connect hconn compression, h, fun plan hplan => ?_⟩
      rw [written, hconn, hname]
      dsimp only
      rw [hplan]

/-- The requests on the wire. -/
theorem parse_requested (hp : ¬ p.rejected) (hserial : c.serial = 0)
    (quiet : Bool) :
    requestFormat.parse (requested quiet c p).written
      = p.message 1 :: if quiet then [noopPacket.message 2] else [] := by
  have hparse : ∀ calls : List (Packet × UInt32),
      (∀ call ∈ calls, ¬ call.1.rejected) →
      requestFormat.parse (calls.flatMap fun call => call.1.frame call.2)
        = calls.map fun call => call.1.message call.2 := fun calls h =>
    (Format.parse_flatMap fun call hm => call.1.cut_frame (h call hm) call.2).1
  have hone : c.serial + 1 = 1 := by rw [hserial]; rfl
  cases quiet with
  | false =>
      have hread := hparse [(p, 1)] (List.forall_mem_singleton.mpr hp)
      rw [List.flatMap_singleton] at hread
      show requestFormat.parse (p.frame (c.serial + 1)) = _
      rw [hone]
      exact hread
  | true =>
      have hread := hparse [(p, 1), (noopPacket, 2)]
        (List.forall_mem_cons.mpr
          ⟨hp, List.forall_mem_singleton.mpr (by decide)⟩)
      rw [List.flatMap_cons, List.flatMap_singleton] at hread
      show requestFormat.parse (p.frame (c.serial + 1)
        ++ noopPacket.frame (c.serial + 1 + 1)) = _
      rw [hone]
      exact hread

/-- A process whose arguments are good has its requests on the wire and
ends as the answers to them say, unless something outside fails it. -/
theorem mainNamed_comes (hlz : lz.Lawful)
    (hname : commands.lookup name = some (.inr cmd))
    (hplan : cmd.plan lz quiet argv a = some (.ok plan))
    (hloops : plan.Loops lz body)
    (hpass : ∀ c, Fresh compression c →
      (plan.request.passed lz c a.block).isSome)
    (h : mainNamed lz peer quiet compression name argv a = some e) :
    (e = ⟨2, []⟩ ∧ Outside a)
    ∨ ∃ c p bytes, plan.request.passed lz c a.block = some p
      ∧ written lz quiet compression name argv a = some bytes
      ∧ requestFormat.parse bytes
        = p.message 1 :: (if plan.noop then [noopPacket.message 2] else [])
      ∧ Comes lz compression (body (if plan.noop then 2 else 1)) (peer bytes)
        a.recv (some (some e)) := by
  obtain hout | ⟨c, hc, hrun, hwritten⟩ := mainNamed_exec hname h
  · exact .inl hout
  · rw [Cmd.exec, hplan] at hrun
    obtain ⟨hend, hunsent⟩ | ⟨hend, -⟩ | ⟨p, t, hp, hbytes, hend, hcomes⟩ :=
      Plan.run_comes hlz hc hloops
    · cases hend.symm.trans hrun
      refine .inl ⟨rfl, ?_⟩
      cases hunsent with
      | argument hnone =>
          have hsome := hpass c hc
          rw [hnone] at hsome
          cases hsome
      | refused hrefused => exact .send hrefused
      | refusedNoop hrefused => exact .sendNoop hrefused
    · cases hend.symm.trans hrun
    · obtain rfl := Option.join_eq_some_iff.mp (hend.symm.trans hrun)
      rw [requested_serial hc.serial] at hcomes
      exact .inr ⟨c, p, _, hp, (hwritten plan hplan).trans hbytes,
        parse_requested (passed_packet hp).2 hc.serial plan.noop, hcomes⟩

/-- The same file, output and memory for data: all a plan looks at. -/
structure Setting.Alike (a a' : Setting) : Prop where
  file : a'.file = a.file
  stdout : a'.stdout = a.stdout
  block : a'.block = a.block

theorem Setting.Alike.plan_eq {a a' : Setting} (h : a.Alike a') (cmd : Cmd) :
    cmd.plan lz quiet argv a' = cmd.plan lz quiet argv a := by
  unfold Cmd.plan
  rw [h.file, h.stdout]

/-- In front of a server there is a way for a process to end as the answers
to its requests say. -/
theorem mainNamed_finishes (hlz : lz.Lawful) (sv : Responder)
    (hname : commands.lookup name = some (.inr cmd))
    (hplan : cmd.plan lz quiet argv a = some (.ok plan))
    (hloops : plan.Loops lz body)
    (hpass : ∀ c, Fresh compression c →
      (plan.request.passed lz c a.block).isSome) :
    ∃ c p bytes ms, plan.request.passed lz c a.block = some p
      ∧ requestFormat.parse bytes = ms
      ∧ ms = p.message 1 :: (if plan.noop then [noopPacket.message 2] else [])
      ∧ ∀ t, (sv.responses ms).foldlM (body (if plan.noop then 2 else 1)) []
          = .error t →
        ∃ a' : Setting, a.Alike a' ∧ ¬ Outside a'
          ∧ written lz quiet compression name argv a' = some bytes
          ∧ mainNamed lz sv.peer quiet compression name argv a' = t := by
  let buf : Mem := fun _ => 0
  have hconn : yrmcdsConnect (.ok 3) (some buf) = .ok (Conn.connected 3 buf) :=
    rfl
  have hc := fresh_of_connect hconn compression
  obtain ⟨p, hp⟩ := Option.isSome_iff_exists.mp (hpass _ hc)
  have hparse := parse_requested (passed_packet hp).2 hc.serial plan.noop
  refine ⟨_, p, _, _, hp, hparse, rfl, fun t hfold => ?_⟩
  rw [← hparse, ← sv.parse_peer lz compression,
    ← requested_serial hc.serial plan.noop p] at hfold
  obtain ⟨acks, noop, script, hacks, hnoop, hserve, hrun⟩ :=
    Plan.run_finishes hlz hc hloops hp hfold
  let a' : Setting := { a with
    server := .ok 3
    malloc := some buf
    request := acks
    noop := noop
    recv := script }
  have halike : a.Alike a' := ⟨rfl, rfl, rfl⟩
  obtain ⟨hrun, hwritten⟩ := hrun a' rfl rfl rfl rfl
  have hplan' := (halike.plan_eq cmd).trans hplan
  refine ⟨a', halike, fun hout => ?_, ?_, ?_⟩
  · cases hout with
    | server h => cases h
    | malloc h => cases h
    | send h => exact hacks h
    | sendNoop h => exact hnoop h
    | recv h hfails => exact (hserve _ h).not_fails _ hfails
  · rw [written, show yrmcdsConnect a'.server a'.malloc = _ from hconn, hname]
    dsimp only
    rw [hplan']
    exact hwritten
  · rw [mainNamed, show yrmcdsConnect a'.server a'.malloc = _ from hconn, hname]
    dsimp only
    rw [Cmd.exec, hplan']
    exact hrun

/-- In front of a server that is what its responses say. -/
theorem mainNamed_answered (hlz : lz.Lawful) {sv : Responder}
    (hname : commands.lookup name = some (.inr cmd))
    (hplan : cmd.plan lz quiet argv a = some (.ok plan))
    (hloops : plan.Loops lz body)
    (hpass : ∀ c, Fresh compression c →
      (plan.request.passed lz c a.block).isSome)
    (h : mainNamed lz sv.peer quiet compression name argv a = some e) :
    (e = ⟨2, []⟩ ∧ Outside a)
    ∨ ∃ c p bytes ms, plan.request.passed lz c a.block = some p
      ∧ written lz quiet compression name argv a = some bytes
      ∧ requestFormat.parse bytes = ms
      ∧ ms = p.message 1 :: (if plan.noop then [noopPacket.message 2] else [])
      ∧ ((sv.responses ms).foldlM (body (if plan.noop then 2 else 1)) []
          = .error (some e)
        ∨ ∃ taken out, taken <+: sv.responses ms
          ∧ taken.foldlM (body (if plan.noop then 2 else 1)) [] = .ok out
          ∧ e = ⟨2, out⟩ ∧ Outside a) := by
  obtain hout | ⟨c, p, bytes, hp, hbytes, hparse, hcomes⟩ :=
    mainNamed_comes hlz hname hplan hloops hpass h
  · exact .inl hout
  · refine .inr ⟨c, p, bytes, _, hp, hbytes, hparse, rfl, ?_⟩
    rw [← hparse, ← sv.parse_peer lz compression]
    generalize hr : some (some e) = result at hcomes
    cases hcomes with
    | done hfold =>
        cases hr
        exact .inl hfold
    | failed htaken hfold hwhy =>
        cases hr
        refine .inr ⟨_, _, htaken, hfold, rfl, ?_⟩
        obtain ⟨-, j, hbad⟩ | ⟨answer, hanswer, hfails⟩ := hwhy
        · exact absurd hbad (sv.no_violation lz compression bytes j)
        · exact .recv hanswer hfails
    | blocked => cases hr

end Yc

end Yrmcds
