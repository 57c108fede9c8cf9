/-
Whole lives of a connection, and how it is handed over.

`wire_refines` takes the simulation of the calls to runs of any operations:
what they do to the bytes, they do on the link, up to what the link does
not look at. So the results about links are results about bytes, and those
of handing a connection over become these. A constructor that is told its
persistent connection is fine gets one with nothing unread on it, neither
in the receive buffer nor in the socket, whatever its former users did,
unless one of them tore a frame (`run_checked_clean`); and a destructor that
does not close the connection leaves one like that (`run_drained_clean`).
-/
import Yrmcds.Proofs.Client.Delivery
import Yrmcds.Proofs.Wire.Exchanges

namespace Yrmcds

open Scripted

variable {lz : Lz4}

-- =============================================================== two levels

/-- What comes of an operation on a link. -/
inductive LinkResult where
  | error (e : Error)
  | sent (r : Except Failure UInt32)
  | received (r : Except Failure Reply)
  | checked (e : Error) (status : Status)
  | drained (good : Bool)

/-- An operation on a link. -/
def WireOp.link : WireOp → Call Event Link LinkResult
  | .setCompression threshold => do
      let e ← linkCall fun events l =>
        let r := l.setCompression threshold
        some (r.1, r.2, events)
      return .error e
  | .setTimeout timeout => do
      let e ← linkCall fun events l => l.setTimeout timeout events
      return .error e
  | .send o request => do
      let r ← linkCall fun events l => l.send request.kind (.client o) events
      return .sent r
  | .recv o => do
      let r ← linkCall fun events l => l.recv (.client o) events
      return .received r
  | .checkPersistentConnection timeout => do
      let r ← linkCall fun events l => l.checkPersistentConnection timeout events
      return .checked r.1 r.2
  | .unlockAndDrain timeout => do
      let r ← linkCall fun events l => l.unlockAndDrain timeout events
      return .drained r

/-- Operations in order. -/
def Link.run : List WireOp → Call Event Link (List LinkResult) :=
  Scripted.each WireOp.link

/-- The results of an operation on the two levels. -/
def SameResult : WireResult → LinkResult → Prop
  | .error e, .error e' => e = e'
  | .sent r, .sent r' => SameSent r r'
  | .received r, .received r' => SameReceived r r'
  | .checked e status, .checked e' status' => e = e' ∧ status = status'
  | .drained good, .drained good' => good = good'
  | _, _ => False

theorem perform_simulates (hlz : lz.Lawful) (op : WireOp) :
    Simulates Shows SameResult (op.perform lz) op.link := by
  cases op with
  | setCompression threshold =>
      refine (setCompression_simulates threshold).bind ?_
      intro e e' he
      exact .pure he
  | setTimeout timeout =>
      refine (setTimeout_simulates timeout).bind ?_
      intro e e' he
      exact .pure he
  | send o request =>
      refine (send_simulates request (.client o)).bind ?_
      intro r r' hr
      exact .pure hr
  | recv o =>
      refine (recv_simulates hlz (.client o)).bind ?_
      intro r r' hr
      exact .pure hr
  | checkPersistentConnection timeout =>
      refine (checkPersistentConnection_simulates hlz timeout).bind ?_
      intro r r' hr
      subst hr
      exact .pure ⟨rfl, rfl⟩
  | unlockAndDrain timeout =>
      refine (unlockAndDrain_simulates hlz timeout).bind ?_
      intro r r' hr
      exact .pure hr

/-- What any operations do on the bytes of a new connection, they do on a
new link, in the same order and with the same results; and what the bytes
show in the end is that link. -/
theorem wire_refines (hlz : lz.Lawful) {server : Except Error Int}
    {malloc : Option Mem} {c : Conn}
    (hconn : yrmcdsConnect server malloc = .ok c) (fd : Nat)
    {ops : List WireOp} {events rest : List WireEvent}
    {results : List WireResult} {w : Wire}
    (h : Wire.run lz ops events (.connected c) = some (results, w, rest)) :
    ∃ events' results' l,
      Link.run ops events' (.connected fd) = some (results', l, [])
        ∧ List.Forall₂ SameResult results results' ∧ Shows w l := by
  have hsim := Simulates.each (perform_simulates hlz) ops
  obtain ⟨events', results', l, hrun, hsame, hs⟩ :=
    hsim _ _ _ _ _ h _ (shows_connected hconn fd)
  have hrun := hrun []
  rw [List.append_nil] at hrun
  exact ⟨events', results', l, hrun, hsame, hs⟩

/-- A noop response. -/
def noopReply (serial : UInt8) : List UInt8 :=
  [0x81, 0x0a, 0, 0, 0, 0, 0, 0, 0, 0, 0, 0, serial, 0, 0, 0, 0, 0, 0, 0, 0, 0,
    0, 0]

/-- Two objects send a noop each and receive once. The call of the first
takes in a part of the other's response, the call of the other fails. -/
def twoNoops : List WireOp :=
  [.send 0 .noop, .send 1 .noop, .recv 0, .recv 1]

def twoNoopsEvents : List WireEvent :=
  [.send true [.took 24] [noopReply 1],
    .send true [.took 10, .took 14] [noopReply 2],
    .recv [.bytes 30], .recv [.error]]

theorem wire_refines_two :
    ∃ results w rest, Wire.run Lz4.literals twoNoops twoNoopsEvents
          (.connected (Conn.connected 3 fun _ => 0)) = some (results, w, rest)
      ∧ w.conn.pending.length = 6
      ∧ ∃ events' results' l,
        Link.run twoNoops events' (.connected 3) = some (results', l, [])
          ∧ List.Forall₂ SameResult results results' ∧ Shows w l := by
  obtain ⟨results, w, rest, hrun, hp⟩ := exists_of_any
    (x := Wire.run Lz4.literals twoNoops twoNoopsEvents
      (.connected (Conn.connected 3 fun _ => 0)))
    (p := fun out => out.2.1.conn.pending.length == 6) (by decide +kernel)
  exact ⟨results, w, rest, hrun, eq_of_beq hp, wire_refines Lz4.literals_lawful
    (show yrmcdsConnect (.ok 3) (some fun _ => 0) = .ok _ from rfl) 3 hrun⟩

-- ================================================== how many were requested

namespace Link

/-- Serials are in order, and at most `n` requests have been made. -/
def Counted (n : Nat) (l : Link) : Prop :=
  InOrder l ∧ l.log.length ≤ n

theorem Counted.mono {n : Nat} (l : Link) (h : Counted n l) :
    Counted (n + 1) l :=
  ⟨h.1, Nat.le_succ_of_le h.2⟩

/-- The scope of a call that sends nothing. -/
abbrev Scope.silent (party : Party) (events : List Event) : Scope :=
  ⟨fun _ => False, True, party, events⟩

theorem Steps.log_silent {party : Party} {events : List Event} {l l' : Link}
    (h : Steps (.silent party events) l l') : l'.log = l.log :=
  h.keep (I := fun l' => l'.log = l.log)
    (fun hs hl => by
      cases hs with
      | timeouts => exact hl
      | lost hk => exact hk.elim
      | garbled hk => exact hk.elim
      | sent hk => exact hk.elim
      | failed => exact hl
      | received => exact hl) rfl

/-- A call that sends nothing makes no requests. -/
theorem silent_counted {α : Type} {party : Party} {call : LinkCall α}
    (h : ∀ events, LinkCall.Within (.silent party events) call) (n : Nat) :
    Leads (Counted n) (Counted n) (linkCall call) := by
  intro events l a l' rest hrun hl
  have hsteps : Steps (.silent party events) l l' :=
    (h events (List.suffix_refl _) hrun).1
  refine ⟨hsteps.inOrder hl.1, ?_⟩
  rw [hsteps.log_silent]
  exact hl.2

/-- A command function makes one. -/
theorem send_counted (kind : Kind) (sender : Party) (n : Nat) :
    Leads (Counted n) (Counted (n + 1))
      (linkCall fun events l => l.send kind sender events) := by
  intro events l res l' rest hrun hl
  have hsent : Sent kind sender l events res l' rest := send_cases hrun
  have hsteps : Steps ⟨(kind = ·), False, sender, events⟩ l l' :=
    (hsent.steps rfl (List.suffix_refl _)).1
  refine ⟨hsteps.inOrder hl.1, ?_⟩
  have hone : ∀ q, (l.log ++ [q]).length ≤ n + 1 := by
    intro q
    rw [List.length_append]
    exact Nat.succ_le_succ hl.2
  cases hsent with
  | refused => exact Nat.le_succ_of_le hl.2
  | lost => exact hone _
  | complete => exact hone _
  | garbled => exact hone _

theorem setTimeout_counted (timeout : Int) (n : Nat) :
    Leads (Counted n) (Counted n)
      (linkCall fun events l => l.setTimeout timeout events) := by
  have hsteps : ∀ events, LinkCall.Within (.silent .extension events)
      (fun events l => l.setTimeout timeout events) :=
    fun _ => setTimeout_within timeout trivial
  exact silent_counted hsteps n

theorem drainUntil_counted (serial : UInt32) (n : Nat) :
    Leads (Counted n) (Counted n)
      (linkCall fun events l => l.drainUntil serial events) := by
  have hsteps : ∀ events, LinkCall.Within (.silent .extension events)
      (fun events l => l.drainUntil serial events) :=
    fun _ => drainUntil_within serial rfl
  exact silent_counted hsteps n

theorem unlockAndDrain_counted (timeout : Int) (n : Nat) :
    Leads (Counted n) (Counted (n + 1))
      (linkCall fun events l => l.unlockAndDrain timeout events) := by
  rw [unlockAndDrain_eq]
  refine (setTimeout_counted timeout n).bind fun e => ?_
  refine (send_counted _ _ n).bind fun res => ?_
  cases res with
  | error e => exact .pure fun l hl => hl
  | ok serial =>
      refine (drainUntil_counted serial (n + 1)).bind fun r => ?_
      cases r with
      | error e => exact .pure fun l hl => hl
      | ok r => exact .pure fun l hl => hl

theorem checkPersistentConnection_counted (timeout : Int) (n : Nat) :
    Leads (Counted n) (Counted (n + 1))
      (linkCall fun events l => l.checkPersistentConnection timeout events) := by
  rw [checkPersistentConnection_eq]
  refine (setTimeout_counted 1 n).bind fun e => ?_
  by_cases he : e ≠ .ok
  · rw [if_pos he]
    exact .pure fun l hl => hl.mono
  · rw [if_neg he]
    refine (send_counted _ _ n).bind fun res => ?_
    cases res with
    | error e => exact .pure fun l hl => hl
    | ok serial =>
        refine (drainUntil_counted serial (n + 1)).bind fun r => ?_
        cases r with
        | error e => exact .pure fun l hl => hl
        | ok r =>
            dsimp only
            by_cases hr : r.status ≠ Status.ok
            · rw [if_pos hr]
              exact .pure fun l hl => hl
            · rw [if_neg hr]
              refine (setTimeout_counted timeout (n + 1)).bind fun e => ?_
              exact .pure fun l hl => hl

/-- An operation makes at most one request. -/
theorem op_counted (op : WireOp) (n : Nat) :
    Leads (Counted n) (Counted (n + 1)) op.link := by
  cases op with
  | setCompression threshold =>
      intro events l res l' rest hrun hl
      cases hrun
      exact ⟨⟨hl.1.serial, hl.1.request, hl.1.answers⟩, Nat.le_succ_of_le hl.2⟩
  | setTimeout timeout =>
      refine (setTimeout_counted timeout n).bind fun e => ?_
      exact .pure Counted.mono
  | send o request =>
      refine (send_counted _ _ n).bind fun r => ?_
      exact .pure fun l hl => hl
  | recv o =>
      have hsteps : ∀ events, LinkCall.Within (.silent (.client o) events)
          (fun events l => l.recv (.client o) events) :=
        fun events => recv_within (.silent (.client o) events)
      refine (silent_counted hsteps n).bind fun r => ?_
      exact .pure Counted.mono
  | checkPersistentConnection timeout =>
      refine (checkPersistentConnection_counted timeout n).bind fun r => ?_
      exact .pure fun l hl => hl
  | unlockAndDrain timeout =>
      refine (unlockAndDrain_counted timeout n).bind fun r => ?_
      exact .pure fun l hl => hl

/-- Serials have not come round in a life of fewer than 2^32 operations. -/
theorem run_few {fd : Nat} {ops : List WireOp} {events rest : List Event}
    {results : List LinkResult} {l : Link} (hfew : ops.length < 2 ^ 32)
    (h : Link.run ops events (.connected fd) = some (results, l, rest)) :
    InOrder l ∧ FewOutstanding l := by
  have hcounted : Counted (0 + ops.length) l :=
    Leads.each op_counted ops 0 _ _ _ _ _ h
      ⟨inOrder_connected fd, Nat.zero_le _⟩
  refine ⟨hcounted.1, fun r hr => ?_⟩
  have := hcounted.2
  omega

-- ============================================================= still healthy

/-- A response is not received from a connection that is poisoned. -/
theorem DrainedUntil.valid {serial : UInt32} {l l' : Link} {r : Reply}
    {events rest : List Event}
    (h : DrainedUntil serial l events (.ok r) l' rest) :
    l'.invalid = false := by
  generalize hx : Except.ok r = x at h
  induction h with
  | failed => cases hx
  | skipped _ _ _ ih => exact ih hx
  | found hr =>
      cases hr with
      | reply hv => simpa using hv

theorem Exchanged.valid {kind : Kind} {l l' : Link} {r : Reply}
    {events rest : List Event} (h : Exchanged kind l events (.ok r) l' rest) :
    l'.invalid = false := by
  cases h with
  | drained _ hd => exact hd.valid

end Link

-- ================================================================ handing over

/-- Nothing is unread on a connection, neither in its receive buffer nor on
its way, and it is not poisoned. -/
structure Wire.Clean (w : Wire) : Prop where
  pending : w.conn.pending = []
  stream : w.stream = []
  valid : w.conn.invalid = false

theorem Shows.clean {w : Wire} {l : Link} (h : Shows w l)
    (hfloating : l.floating = []) (hvalid : l.invalid = false) : w.Clean := by
  have hinv : w.conn.invalid = false := h.invalid.symm.trans hvalid
  obtain ⟨packets, hunread, hall⟩ := h.replies hinv
  rw [hfloating] at hall
  cases hall
  obtain ⟨hpending, hstream⟩ := List.append_eq_nil_iff.mp hunread
  exact ⟨hpending, hstream, hinv⟩

/-- A persistent connection that passes the check is clean and has its
timeouts, whatever was done with it before, unless a frame was torn. -/
theorem run_checked_clean (hlz : lz.Lawful) {server : Except Error Int}
    {malloc : Option Mem} {c : Conn}
    (hconn : yrmcdsConnect server malloc = .ok c)
    {ops : List WireOp} {events rest rest' : List WireEvent}
    {results : List WireResult} {w w' : Wire} {timeout : Int}
    (hfew : ops.length < 2 ^ 32)
    (h : Wire.run lz ops events (.connected c) = some (results, w, rest))
    (hwhole : w.torn = false)
    (hcheck : Wire.checkPersistentConnection lz timeout rest w
      = some ((.ok, Status.ok), w', rest')) :
    w'.Clean ∧ w'.rcvTimeout = timeout ∧ w'.sndTimeout = timeout := by
  obtain ⟨events', results', l, hrun, -, hs⟩ := wire_refines hlz hconn 0 h
  obtain ⟨hord, hw⟩ := Link.run_few hfew hrun
  obtain ⟨events₁, e, l', hlink, he, hs'⟩ :=
    checkPersistentConnection_simulates hlz timeout _ _ _ _ _ hcheck l hs
  subst he
  replace hlink : l.checkPersistentConnection timeout (events₁ ++ [])
      = some ((.ok, Status.ok), l', []) := hlink []
  obtain ⟨r, hd⟩ := Link.checkPersistentConnection_good hord hw
    (hs.whole hwhole) hlink
  refine ⟨hs'.clean hd.floating ?_, hs'.rcvTimeout.symm.trans hd.rcvTimeout,
    hs'.sndTimeout.symm.trans hd.sndTimeout⟩
  obtain ⟨_, _, _, _, hx, rfl⟩ := Link.checkPersistentConnection_ok hlink
  exact hx.valid

/-- The check receives what is left of the second response before its own. -/
def twoNoopsChecked : List WireEvent :=
  twoNoopsEvents ++ [.sockopt true, .sockopt true,
    .send true [.took 24] [noopReply 3], .recv [.bytes 20], .recv [.bytes 22],
    .sockopt true, .sockopt true]

theorem run_checked_clean_two :
    ∃ results w rest w' rest', Wire.run Lz4.literals twoNoops twoNoopsChecked
          (.connected (Conn.connected 3 fun _ => 0)) = some (results, w, rest)
      ∧ Wire.checkPersistentConnection Lz4.literals 5 rest w
        = some ((.ok, Status.ok), w', rest')
      ∧ w'.Clean ∧ w'.rcvTimeout = 5 ∧ w'.sndTimeout = 5 := by
  obtain ⟨results, w, rest, hrun, hp⟩ := exists_of_any
    (x := Wire.run Lz4.literals twoNoops twoNoopsChecked
      (.connected (Conn.connected 3 fun _ => 0)))
    (p := fun out => decide (out.2.1.torn = false)
      && (Wire.checkPersistentConnection Lz4.literals 5 out.2.2 out.2.1).any
        fun out => decide (out.1 = (Error.ok, Status.ok))) (by decide +kernel)
  rw [Bool.and_eq_true, decide_eq_true_eq] at hp
  obtain ⟨hwhole, hp⟩ := hp
  obtain ⟨a, w', rest', hcheck, ha⟩ := exists_of_any hp
  obtain rfl : a = (.ok, Status.ok) := of_decide_eq_true ha
  exact ⟨results, w, rest, w', rest', hrun, hcheck,
    run_checked_clean Lz4.literals_lawful
      (show yrmcdsConnect (.ok 3) (some fun _ => 0) = .ok _ from rfl)
      (by decide) hrun hwhole hcheck⟩

/-- What the exchange of a destructor leaves behind when it ends well, be
the timeouts set or not. -/
theorem Link.unlockAndDrain_empty {timeout : Int} {l l' : Link}
    {events rest : List Event} (hord : InOrder l) (hw : FewOutstanding l)
    (hwhole : l.torn = none)
    (h : l.unlockAndDrain timeout events = some (true, l', rest)) :
    l'.floating = [] ∧ l'.invalid = false := by
  obtain ⟨e, l₁, events₁, x, hset, hx, hgood⟩ := unlockAndDrain_cases h
  obtain ⟨rcv, snd, rfl⟩ := hset.frame
  obtain ⟨r, rfl, -⟩ := hgood rfl
  refine ⟨?_, hx.valid⟩
  rw [(hx.eq (hord.timeouts rcv snd) hw hwhole Kind.unlockAll_once).2]

/-- A connection that a destructor leaves open is clean, whatever was done
with it before, unless a frame was torn. -/
theorem run_drained_clean (hlz : lz.Lawful) {server : Except Error Int}
    {malloc : Option Mem} {c : Conn}
    (hconn : yrmcdsConnect server malloc = .ok c)
    {ops : List WireOp} {events rest rest' : List WireEvent}
    {results : List WireResult} {w w' : Wire} {timeout : Int}
    (hfew : ops.length < 2 ^ 32)
    (h : Wire.run lz ops events (.connected c) = some (results, w, rest))
    (hwhole : w.torn = false)
    (hdrain : Wire.unlockAndDrain lz timeout rest w = some (true, w', rest')) :
    w'.Clean := by
  obtain ⟨events', results', l, hrun, -, hs⟩ := wire_refines hlz hconn 0 h
  obtain ⟨hord, hw⟩ := Link.run_few hfew hrun
  obtain ⟨events₁, good, l', hlink, hgood, hs'⟩ :=
    unlockAndDrain_simulates hlz timeout _ _ _ _ _ hdrain l hs
  subst hgood
  replace hlink : l.unlockAndDrain timeout (events₁ ++ []) = some (true, l', [])
    := hlink []
  obtain ⟨hfloating, hvalid⟩ := Link.unlockAndDrain_empty hord hw
    (hs.whole hwhole) hlink
  exact hs'.clean hfloating hvalid

/-- The same in a destructor, where the timeouts cannot be set. -/
def twoNoopsDrained : List WireEvent :=
  twoNoopsEvents ++ [.sockopt false, .send true [.took 24] [noopReply 3],
    .recv [.bytes 20], .recv [.bytes 22]]

theorem run_drained_clean_two :
    ∃ results w rest w' rest', Wire.run Lz4.literals twoNoops twoNoopsDrained
          (.connected (Conn.connected 3 fun _ => 0)) = some (results, w, rest)
      ∧ Wire.unlockAndDrain Lz4.literals 5 rest w = some (true, w', rest')
      ∧ w'.Clean := by
  obtain ⟨results, w, rest, hrun, hp⟩ := exists_of_any
    (x := Wire.run Lz4.literals twoNoops twoNoopsDrained
      (.connected (Conn.connected 3 fun _ => 0)))
    (p := fun out => decide (out.2.1.torn = false)
      && (Wire.unlockAndDrain Lz4.literals 5 out.2.2 out.2.1).any
        fun out => out.1) (by decide +kernel)
  rw [Bool.and_eq_true, decide_eq_true_eq] at hp
  obtain ⟨hwhole, hp⟩ := hp
  obtain ⟨good, w', rest', hdrain, hgood⟩ := exists_of_any hp
  obtain rfl : good = true := hgood
  exact ⟨results, w, rest, w', rest', hrun, hdrain,
    run_drained_clean Lz4.literals_lawful
      (show yrmcdsConnect (.ok 3) (some fun _ => 0) = .ok _ from rfl)
      (by decide) hrun hwhole hdrain⟩

end Yrmcds
