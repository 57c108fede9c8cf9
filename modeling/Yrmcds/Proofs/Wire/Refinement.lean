/-
The bytes refine the link.

`Shows` relates a connection and its socket to a `Link`: the same serial,
settings and health; the unread bytes, in the receive buffer and still to
come, are the packets of the floating responses in their order; and the
bytes sent are the complete requests of the log. Whatever a call does to
the bytes, the call of the link does with an event that says how it went
(`send_simulates`, `recv_simulates`), and so do the exchanges that are made
of them.

# Why an event is enough

A failed `yrmcds_recv` may have moved bytes into the buffer, but the unread
stream is the same before and after. A call that returns takes exactly the
packet in front, since every packet says its own length. A violation poisons
the connection on both levels, and from then on nothing is asked of the
bytes.
-/
import Yrmcds.Model.Wire
import Yrmcds.Proofs.Recv.Outcome
import Yrmcds.Proofs.Wire.Requests

namespace Yrmcds

open Endian Scripted

variable {lz : Lz4}

-- ============================================================== packets

/-- A packet carries a response. -/
structure Carries (p : List UInt8) (r : Reply) : Prop where
  delimited : Delimited p
  serial : packetSerial p = r.serial
  status : packetStatus p = r.status

/-- A response says what the header of its packet says. -/
theorem refDecode_header {compressSize : Nat} {p : List UInt8} {r : Response}
    (h : refDecode lz compressSize p = some r) :
    r.serial = packetSerial p ∧ r.status = packetStatus p := by
  unfold refDecode at h
  dsimp only at h
  split at h
  next => cases h
  next =>
    split at h
    next => cases h
    next =>
      split at h
      next =>
        split at h
        next =>
          cases h
          exact ⟨rfl, rfl⟩
        next => cases h
      next =>
        split at h
        next =>
          cases h
          exact ⟨rfl, rfl⟩
        next => cases h

/-- A packet in front of a stream is what a call takes, if it takes
anything. -/
theorem refCut_packet {compressSize n : Nat} {p rest : List UInt8}
    {r : Response} (hp : Delimited p)
    (h : refCut lz compressSize (p ++ rest) = .frame n r) :
    n = p.length ∧ r.serial = packetSerial p ∧ r.status = packetStatus p := by
  obtain ⟨hlen, hbody⟩ := hp
  have hfield : field (p ++ rest) 8 4 = (p.drop 8).take 4 :=
    field_append rest (by omega)
  rw [refCut] at h
  split at h
  next => cases h
  next =>
    split at h
    next => cases h
    next totalLen hhead =>
      have htotal : 24 + totalLen = p.length := by
        unfold refHeader at hhead
        rw [hfield] at hhead
        split at hhead
        next => cases hhead
        next =>
          split at hhead
          next => cases hhead
          next =>
            cases hhead
            omega
      rw [htotal, List.take_left] at h
      split at h
      next => cases h
      next =>
        split at h
        next hdec =>
          cases h
          exact ⟨rfl, refDecode_header hdec⟩
        next => cases h

theorem refCut_nil {compressSize : Nat} :
    refCut lz compressSize [] = .more := rfl

-- ============================================================= the relation

/-- The bytes show the link. -/
structure Shows (w : Wire) (l : Link) : Prop where
  buf : w.conn.BufOk
  serial : l.serial = w.conn.serial
  count : l.serial = UInt32.ofNat l.log.length
  invalid : l.invalid = w.conn.invalid
  compressSize : l.compressSize = w.conn.compressSize
  rcvTimeout : l.rcvTimeout = w.rcvTimeout
  sndTimeout : l.sndTimeout = w.sndTimeout
  torn : l.torn.isSome = w.torn
  first : ∀ n, l.torn = some n → n ≤ l.log.length
  requests : w.torn = false → Reads w.sent l.log
  replies : w.conn.invalid = false →
    ∃ packets, w.conn.pending ++ w.stream = packets.flatten
      ∧ List.Forall₂ Carries packets l.floating

/-- What two calls return is the same, as far as the link looks. -/
def SameSent : Except Error UInt32 → Except Failure UInt32 → Prop
  | .ok serial, .ok serial' => serial = serial'
  | .error e, .error e' => e = e'.val
  | _, _ => False

def SameReceived : RecvResult → Except Failure Reply → Prop
  | .ok r, .ok r' => r.serial = r'.serial ∧ r.status = r'.status
  | .err e, .error e' => e = e'.val
  | _, _ => False

/-- A call of the link, as one of the scripted calls. -/
abbrev linkCall {α : Type} (call : LinkCall α) : Call Event Link α := call

theorem shows_connected {server : Except Error Int} {malloc : Option Mem}
    {c : Conn} (hconn : yrmcdsConnect server malloc = .ok c) (fd : Nat) :
    Shows (.connected c) (.connected fd) := by
  obtain ⟨hok, -, -⟩ := connected_spec hconn 0 ⟨[], []⟩
  unfold yrmcdsConnect at hconn
  split at hconn
  next => cases hconn
  next => cases hconn
  next =>
    cases hconn
    exact ⟨⟨hok.last_le, hok.used_le, hok.recv_le⟩, rfl, rfl, rfl, rfl, rfl,
      rfl, rfl, nofun, fun _ => reads_nil, fun _ => ⟨[], rfl, .nil⟩⟩

-- ============================================================= the settings

theorem setCompression_simulates (threshold : Nat) :
    Simulates Shows Eq (Wire.setCompression threshold)
      (linkCall fun events l =>
        let r := l.setCompression threshold
        some (r.1, r.2, events)) := by
  intro events w e w' rest h l hs
  cases h
  refine ⟨[], _, _, fun tail => rfl, rfl, ?_⟩
  exact ⟨⟨hs.buf.last_le, hs.buf.used_le, hs.buf.recv_le⟩, hs.serial, hs.count,
    hs.invalid, rfl, hs.rcvTimeout, hs.sndTimeout, hs.torn, hs.first,
    hs.requests, hs.replies⟩

/-- Setting an option shows on both levels, or on neither. -/
theorem Shows.timeouts {w : Wire} {l : Link} (h : Shows w l) (rcv snd : Int) :
    Shows { w with rcvTimeout := rcv, sndTimeout := snd }
      { l with rcvTimeout := rcv, sndTimeout := snd } :=
  ⟨h.buf, h.serial, h.count, h.invalid, h.compressSize, rfl, rfl, h.torn,
    h.first, h.requests, h.replies⟩

theorem setsockopt_cases {set : Wire → Wire} {events rest : List WireEvent}
    {w w' : Wire} {ok : Bool}
    (h : Wire.setsockopt set events w = some (ok, w', rest)) :
    events = .sockopt ok :: rest ∧ w' = if ok then set w else w := by
  unfold Wire.setsockopt at h
  split at h
  next => cases h; exact ⟨rfl, rfl⟩
  next => cases h; exact ⟨rfl, rfl⟩
  next => cases h

theorem setTimeout_simulates (timeout : Int) :
    Simulates Shows Eq (Wire.setTimeout timeout)
      (linkCall fun events l => l.setTimeout timeout events) := by
  intro events w e w' rest h l hs
  unfold Wire.setTimeout at h
  by_cases hneg : timeout < 0
  · rw [if_pos hneg, pure_eq] at h
    cases h
    refine ⟨[], .badArgument, l, fun tail => ?_, rfl, hs⟩
    exact if_pos hneg
  · rw [if_neg hneg] at h
    obtain ⟨rcv, w₁, events₁, hrcv, h⟩ := bind_eq_some.mp h
    obtain ⟨rfl, rfl⟩ := setsockopt_cases hrcv
    cases rcv with
    | false =>
        cases h
        refine ⟨[.sockopt false], .systemError, l, fun tail => ?_, rfl, hs⟩
        show l.setTimeout timeout (.sockopt false :: tail) = _
        rw [Link.setTimeout, if_neg hneg]
    | true =>
        obtain ⟨snd, w₂, events₂, hsnd, h⟩ := bind_eq_some.mp h
        obtain ⟨rfl, rfl⟩ := setsockopt_cases hsnd
        cases snd with
        | false =>
            cases h
            refine ⟨[.sockopt true, .sockopt false], .systemError,
              { l with rcvTimeout := timeout }, fun tail => ?_, rfl, ?_⟩
            · show l.setTimeout timeout (.sockopt true :: .sockopt false :: tail)
                = _
              rw [Link.setTimeout, if_neg hneg]
            · have hall := hs.timeouts timeout w.sndTimeout
              rw [← hs.sndTimeout] at hall
              exact ⟨hall.buf, hall.serial, hall.count, hall.invalid,
                hall.compressSize, rfl, hs.sndTimeout, hall.torn, hall.first,
                hall.requests, hall.replies⟩
        | true =>
            cases h
            refine ⟨[.sockopt true, .sockopt true], .ok,
              { l with rcvTimeout := timeout, sndTimeout := timeout },
              fun tail => ?_, rfl, hs.timeouts timeout timeout⟩
            show l.setTimeout timeout (.sockopt true :: .sockopt true :: tail) = _
            rw [Link.setTimeout, if_neg hneg]

-- ================================================================= sending

/-- The packets a server answers carry the responses of the link. -/
theorem carries_answers {serial : UInt32} {request : Nat}
    {replies : List (List UInt8)}
    (h : ∀ p ∈ replies, Delimited p ∧ packetSerial p = serial) :
    List.Forall₂ Carries replies ((replies.map packetStatus).map fun status =>
      ⟨serial, status, request⟩) := by
  induction replies with
  | nil => exact .nil
  | cons p replies ih =>
      obtain ⟨hp, hserial⟩ := h p (List.mem_cons_self ..)
      refine .cons ⟨hp, hserial, rfl⟩ (ih ?_)
      intro p' hp'
      exact h p' (List.mem_cons_of_mem _ hp')

/-- Taking a serial leaves the receive side alone. -/
theorem Shows.counted {w : Wire} {l : Link} (h : Shows w l) (q : SentRequest)
    (sent : List UInt8) {first : Option Nat}
    (hfirst : first = l.torn ∨ first = some l.log.length)
    (hreads : first = none → Reads sent (l.log ++ [q])) :
    Shows { w with
        conn := { w.conn with serial := w.conn.serial + 1 }
        sent, torn := first.isSome }
      { l with serial := l.serial + 1, torn := first, log := l.log ++ [q] } := by
  refine ⟨⟨h.buf.last_le, h.buf.used_le, h.buf.recv_le⟩, ?_, ?_, h.invalid,
    h.compressSize, h.rcvTimeout, h.sndTimeout, rfl, fun n hn => ?_,
    fun ht => hreads (by simpa using ht), h.replies⟩
  · show l.serial + 1 = w.conn.serial + 1
    rw [h.serial]
  · show l.serial + 1 = UInt32.ofNat (l.log ++ [q]).length
    rw [h.count, List.length_append, List.length_singleton, UInt32.ofNat_add]
    rfl
  · rw [List.length_append]
    obtain rfl | rfl := hfirst
    · exact Nat.le_add_right_of_le (h.first n hn)
    · cases hn
      exact Nat.le_add_right _ _

/-- What the server answers is floating, behind the rest. -/
theorem Shows.answered {w : Wire} {l : Link} (h : Shows w l)
    {replies : List (List UInt8)} {floating : List Reply}
    (hc : List.Forall₂ Carries replies floating) :
    Shows { w with stream := w.stream ++ replies.flatten }
      { l with floating := l.floating ++ floating } := by
  refine ⟨h.buf, h.serial, h.count, h.invalid, h.compressSize, h.rcvTimeout,
    h.sndTimeout, h.torn, h.first, h.requests, fun hinv => ?_⟩
  obtain ⟨packets, hunread, hall⟩ := h.replies hinv
  refine ⟨packets ++ replies, ?_, List.rel_append hall hc⟩
  show w.conn.pending ++ (w.stream ++ replies.flatten) = _
  rw [← List.append_assoc, hunread, List.flatten_append]

/-- Packets behind a torn frame, as responses to the request just sent. -/
def garbledReplies (l : Link) (replies : List (List UInt8)) : List Reply :=
  replies.map fun p => ⟨packetSerial p, packetStatus p, l.log.length⟩

theorem carries_garbled (l : Link) {replies : List (List UInt8)}
    (h : AnyAnswer replies) :
    List.Forall₂ Carries replies (garbledReplies l replies) := by
  unfold garbledReplies
  rw [List.forall₂_map_right_iff, List.forall₂_same]
  exact fun p hp => ⟨h p hp, rfl, rfl⟩

theorem Shows.whole {w : Wire} {l : Link} (h : Shows w l)
    (ht : w.torn = false) : l.torn = none := by
  rw [← Option.not_isSome_iff_eq_none, h.torn, ht]
  exact Bool.false_ne_true

/-- Behind a torn frame the server may answer anything on both levels. -/
theorem Shows.garbled {w : Wire} {l : Link} (h : Shows w l)
    (ht : w.torn = true) (kind : Kind) (sender : Party) {sent : List UInt8}
    {replies : List (List UInt8)} (hr : AnyAnswer replies) (ok : Bool) :
    ∃ l', (∀ tail, l.send kind sender
          (.garbled ok (garbledReplies l replies) :: tail)
        = some (if ok then .ok (l.serial + 1)
            else .error ⟨.systemError, Error.noConfusion⟩, l', tail))
      ∧ Shows { w with
          conn := { w.conn with serial := w.conn.serial + 1 }
          sent, stream := w.stream ++ replies.flatten } l' := by
  obtain ⟨first, hfirst⟩ := Option.isSome_iff_exists.mp (h.torn.trans ht)
  have hg : l.Garbles (garbledReplies l replies) = true := by
    simp [Link.Garbles, garbledReplies, hfirst, h.first first hfirst]
  refine ⟨{ l with
    serial := l.serial + 1
    log := l.log ++ [⟨kind, sender, .garbled, []⟩]
    floating := l.floating ++ garbledReplies l replies }, fun tail => ?_, ?_⟩
  · rw [Link.send]
    exact if_pos hg
  · have hcounted := h.counted ⟨kind, sender, .garbled, []⟩ sent (.inl rfl)
      fun hno => by cases hno.symm.trans hfirst
    rw [h.torn] at hcounted
    exact hcounted.answered (carries_garbled l hr)

/-- A request that was sent completely, and not behind a torn frame. -/
theorem Shows.complete {w : Wire} {l : Link} (h : Shows w l)
    (ht : w.torn = false) (kind : Kind) (sender : Party) {p : Packet}
    {replies : List (List UInt8)} (hrej : ¬ p.rejected)
    (hkind : (p.message (w.conn.serial + 1)).kind = kind)
    (hans : kind.answeredBy (w.conn.serial + 1) replies) :
    ∃ l', (∀ tail, l.send kind sender (.sent (replies.map packetStatus) :: tail)
        = some (.ok (l.serial + 1), l', tail))
      ∧ Shows { w with
          conn := { w.conn with serial := w.conn.serial + 1 }
          sent := w.sent ++ p.frame (w.conn.serial + 1)
          stream := w.stream ++ replies.flatten } l' := by
  have hnone := h.whole ht
  have hserial : w.conn.serial + 1 = UInt32.ofNat (l.log.length + 1) := by
    rw [← h.serial, h.count, UInt32.ofNat_add]
    rfl
  refine ⟨{ l with
    serial := l.serial + 1
    log := l.log ++ [⟨kind, sender, .complete, replies.map packetStatus⟩]
    floating := l.floating ++ (replies.map packetStatus).map fun status =>
      ⟨l.serial + 1, status, l.log.length⟩ }, fun tail => ?_, ?_⟩
  · rw [Link.send]
    exact if_pos ⟨hnone, hans.2⟩
  · have hcounted := h.counted
      ⟨kind, sender, .complete, replies.map packetStatus⟩
      (w.sent ++ p.frame (w.conn.serial + 1)) (.inl rfl) fun _ => by
        rw [hserial] at hkind ⊢
        exact (h.requests ht).sent rfl hrej hkind
    rw [h.torn] at hcounted
    apply hcounted.answered
    apply carries_answers
    rw [h.serial]
    exact hans.1

/-- A command function that fails, but for what comes of the bytes behind a
torn frame. -/
theorem Shows.failed {w : Wire} {l : Link} (h : Shows w l) (kind : Kind)
    (sender : Party) (written : List UInt8)
    (hwhole : w.torn = true → written = []) :
    ∃ event l', (∀ tail, l.send kind sender (event :: tail)
        = some (.error ⟨.systemError, Error.noConfusion⟩, l', tail))
      ∧ Shows { w with
          conn := { w.conn with serial := w.conn.serial + 1 }
          sent := w.sent ++ written
          torn := w.torn || !written.isEmpty } l' := by
  by_cases hw : written = []
  · subst hw
    have hcounted := h.counted ⟨kind, sender, .lost, []⟩ w.sent
      (.inl rfl) fun hno => by
        have ht : w.torn = false := by rw [← h.torn, hno]; rfl
        exact (h.requests ht).lost nofun
    rw [h.torn] at hcounted
    refine ⟨.sendFailed, { l with
      serial := l.serial + 1
      log := l.log ++ [⟨kind, sender, .lost, []⟩] }, fun tail => rfl, ?_⟩
    rw [List.append_nil, List.isEmpty_nil, Bool.not_true, Bool.or_false]
    exact hcounted
  · have ht : w.torn = false := Bool.eq_false_iff.mpr fun ht => hw (hwhole ht)
    have hnone := h.whole ht
    have hcounted := h.counted ⟨kind, sender, .lost, []⟩
      (w.sent ++ written) (.inr rfl) nofun
    refine ⟨.sendTorn, { l with
      serial := l.serial + 1
      torn := some l.log.length
      log := l.log ++ [⟨kind, sender, .lost, []⟩] }, fun tail => ?_, ?_⟩
    · rw [Link.send, hnone]
      rfl
    · rw [show (w.torn || !written.isEmpty) = true by simp [hw]]
      exact hcounted

/-- A command function is one of the link, for any sender. -/
theorem send_simulates (request : Request) (sender : Party) :
    Simulates Shows SameSent (Wire.send lz request)
      (linkCall fun events l => l.send request.kind sender events) := by
  intro events w res w' rest h l hs
  unfold Wire.send at h
  split at h
  next malloc acks replies events =>
    dsimp only at h
    generalize hcall : SendCall.mk request malloc acks = call at h
    have hreq : call.request = request := by rw [← hcall]
    have hends := SendCall.exec_ends lz w.conn call
    split at h
    next => cases h
    next hok =>
      -- the whole frame has been written
      cases hends (by rw [hok]; exact Option.some_ne_none _) with
      | refused he hearly =>
          rw [hearly] at hok
          injection hok with hok
          exact absurd hok he
      | failed hres =>
          rw [hres] at hok
          cases hok
      | @sent p hrej hkind _ hconn hwritten =>
          rw [hconn, hwritten] at h
          rw [hreq] at hkind
          split at h
          next ht =>
            split at h
            next hr =>
              cases h
              obtain ⟨l', hlink, hs'⟩ := hs.garbled ht request.kind sender hr
                true
              refine ⟨[_], _, l', fun tail => hlink tail, ?_, hs'⟩
              rw [← hs.serial]
              rfl
            next => cases h
          next ht =>
            split at h
            next hans =>
              cases h
              obtain ⟨l', hlink, hs'⟩ := hs.complete
                (Bool.eq_false_iff.mpr ht) request.kind sender hrej hkind hans
              refine ⟨[_], _, l', fun tail => hlink tail, ?_, hs'⟩
              show w.conn.serial + 1 = l.serial + 1
              rw [hs.serial]
            next => cases h
    next e hne hres =>
      cases hends (by rw [hres]; exact Option.some_ne_none _) with
      | refused he hearly =>
          rw [hearly] at hres h
          cases hres
          cases h
          refine ⟨[.refused ⟨e, he⟩], .error ⟨e, he⟩, l, fun tail => rfl, rfl,
            ?_⟩
          show Shows { w with sent := w.sent ++ [] } l
          rw [List.append_nil]
          exact hs
      | failed hfail hconn =>
          rw [hres] at hfail
          cases hfail
          rw [hconn] at h
          generalize (call.exec lz w.conn).written = written at h
          split at h
          next hempty =>
            cases h
            obtain ⟨event, l', hlink, hs'⟩ := hs.failed request.kind sender
              written fun _ => by simpa using hempty
            rw [hempty, Bool.not_true, Bool.or_false] at hs'
            exact ⟨[event], _, l', fun tail => hlink tail, rfl, hs'⟩
          next hempty =>
            split at h
            next ht =>
              split at h
              next hr =>
                cases h
                obtain ⟨l', hlink, hs'⟩ := hs.garbled ht request.kind sender hr
                  false
                exact ⟨[_], _, l', fun tail => hlink tail, rfl, hs'⟩
              next => cases h
            next ht =>
              cases h
              obtain ⟨event, l', hlink, hs'⟩ := hs.failed request.kind sender
                written fun hno => absurd hno ht
              rw [Bool.eq_false_iff.mpr hempty, Bool.not_false, Bool.or_true]
                at hs'
              exact ⟨[event], _, l', fun tail => hlink tail, rfl, hs'⟩
      | sent _ _ hok =>
          rw [hres] at hok
          injection hok with hok
          exact absurd hok hne
  next => cases h

-- =============================================================== receiving

/-- `yrmcds_recv` is the link's, for any receiver. -/
theorem recv_simulates (hlz : lz.Lawful) (receiver : Party) :
    Simulates Shows SameReceived (Wire.recv lz)
      (linkCall fun events l => l.recv receiver events) := by
  intro events w res w' rest h l hs
  unfold Wire.recv at h
  split at h
  next script events =>
    split at h
    next => cases h
    next res c' k' hcall =>
      cases h
      have hspec := yrmcdsRecv_spec hlz hcall hs.buf
      have hserial := yrmcdsRecv_serial hcall
      cases hinv : w.conn.invalid with
      | true =>
          rw [yrmcdsRecv, if_pos hinv] at hcall
          cases hcall
          refine ⟨[], .error ⟨.protocolError, Error.noConfusion⟩, l, fun tail => ?_, rfl, hs⟩
          exact if_pos (by rw [hs.invalid, hinv])
      | false =>
          have hvalid : ¬ l.invalid = true := by
            rw [hs.invalid, hinv]
            exact Bool.false_ne_true
          obtain ⟨packets, hunread, hall⟩ := hs.replies hinv
          -- a link that has received, or failed to
          have hshows : ∀ {invalid floating taken}, invalid = c'.invalid →
              (c'.invalid = false → ∃ packets,
                c'.pending ++ k'.stream = packets.flatten
                ∧ List.Forall₂ Carries packets floating) →
              Shows { w with conn := c', stream := k'.stream }
                { l with invalid, floating, taken } :=
            fun hdead hreplies =>
              ⟨hspec.ok, hs.serial.trans hserial.symm, hs.count, hdead,
                hs.compressSize.trans hspec.compressSize.symm, hs.rcvTimeout,
                hs.sndTimeout, hs.torn, hs.first, hs.requests, hreplies⟩
          cases yrmcdsRecv_ends hlz hs.buf hinv hcall with
          | @returned n r _ _ hcut hdead hrest =>
              dsimp only at hcut hrest
              rw [hunread] at hcut hrest
              generalize hfloating : l.floating = replies at hall
              cases hall with
              | nil =>
                  rw [List.flatten_nil, refCut_nil] at hcut
                  cases hcut
              | @cons p reply packets floating hc hall =>
                  rw [List.flatten_cons] at hcut hrest
                  obtain ⟨rfl, hser, hstat⟩ := refCut_packet hc.delimited hcut
                  rw [List.drop_left] at hrest
                  refine ⟨[.reply], .ok reply, { l with
                    floating
                    taken := l.taken ++ [(reply, receiver)] },
                    fun tail => ?_, ⟨hser.trans hc.serial,
                      hstat.trans hc.status⟩, ?_⟩
                  · show l.recv receiver (.reply :: tail) = _
                    rw [Link.recv, if_neg hvalid, hfloating]
                  · refine hshows ?_ fun _ => ⟨packets, hrest, hall⟩
                    rw [hdead]
                    simpa using hvalid
          | refused hcut hdead =>
              refine ⟨[.recvFailed ⟨.protocolError, Error.noConfusion⟩],
                .error ⟨.protocolError, Error.noConfusion⟩, { l with invalid := true },
                fun tail => ?_, rfl, ?_⟩
              · show l.recv receiver (.recvFailed _ :: tail) = _
                rw [Link.recv, if_neg hvalid]
                rfl
              · refine hshows hdead.symm fun hgood => ?_
                rw [hdead] at hgood
                cases hgood
          | @failed _ _ e _ a he _ ha hgood hrest =>
              have hne : e ≠ .ok := by
                intro heq
                subst heq
                cases a <;> exact ha
              have hbeq : (e == .protocolError) = false := by
                simpa using he
              refine ⟨[.recvFailed ⟨e, hne⟩], .error ⟨e, hne⟩,
                { l with invalid := e == .protocolError }, fun tail => ?_, rfl,
                ?_⟩
              · show l.recv receiver (.recvFailed _ :: tail) = _
                rw [Link.recv, if_neg hvalid]
              · refine hshows ?_ fun _ =>
                  ⟨packets, hrest.trans hunread, hall⟩
                rw [hgood]
                exact hbeq
  next => cases h

end Yrmcds
