/-
The senders among each other.

`Inv` is what holds between any two steps when no `writev` fails: outside
the mutex nobody has anything half done, and what its holder has done so
far follows from where it is (`SendPc.Inside`). The bytes on the socket are
then the frames of the calls that have returned, in the order in which
they did, and a piece of the holder's. Which packets these are is kept
apart, thread by thread (`log_step`).
-/
import Yrmcds.Proofs.Send.Requests
import Yrmcds.Proofs.Threads.Receiver

namespace Yrmcds

open Endian Gather Framing Run

variable {T : Type} {lz : Lz4}

-- ============================================================= what is sent

/-- The bytes of a numbered command. -/
def numberedFrame (e : Packet × UInt32) : List UInt8 := e.1.frame e.2

/-- What a numbered command says. -/
def numberedMessage (e : Packet × UInt32) : RequestMessage := e.1.message e.2

/-- A server reads frames in a row one by one. -/
theorem whole_frames {es : List (Packet × UInt32)}
    (h : ∀ e ∈ es, ¬ e.1.rejected) :
    requestFormat.whole (es.flatMap numberedFrame)
      = some (es.map numberedMessage) := by
  induction es with
  | nil => rfl
  | cons e es ih =>
      have hcut : requestFormat.cut (numberedFrame e)
          = .frame (numberedFrame e).length (numberedMessage e) :=
        e.1.cut_frame (h e (List.mem_cons_self ..)) e.2
      rw [List.flatMap_cons, Format.whole_of_frame
        (requestFormat.frame_append (es.flatMap numberedFrame) hcut),
        List.drop_left, ih fun e he => h e (List.mem_cons_of_mem _ he)]
      rfl

/-- Fewer than 2^32 apart, two serials differ. -/
theorem serial_ne {base : UInt32} {i j : Nat} (hlt : i < j)
    (hnear : j - i < 2 ^ 32) :
    base + UInt32.ofNat (i + 1) ≠ base + UInt32.ofNat (j + 1) := by
  intro heq
  have hmod := congrArg UInt32.toNat (UInt32.add_right_inj base |>.mp heq)
  rw [UInt32.toNat_ofNat', UInt32.toNat_ofNat'] at hmod
  omega

/-- What a step adds to the calls of `t` that passed every check. -/
def ThreadAct.passed [DecidableEq T] (lz : Lz4) (c : Conn) (t : T) : ThreadAct T → Option Packet
  | .call u request malloc =>
      if u = t then request.passed lz c malloc else none
  | _ => none

/-- What a request is made into depends on the connection only by its
compression setting. -/
theorem Request.packet_congr (c c' : Conn) (malloc : Bool) (request : Request)
    (h : c'.compressSize = c.compressSize) :
    request.packet lz c' malloc = request.packet lz c malloc := by
  cases request <;> first
    | rfl
    | simp only [Request.packet, yrmcdsSet, yrmcdsReplace, yrmcdsAdd,
        yrmcdsReplaceUnlock, sendData, h]

theorem Request.passed_of_refused {c : Conn} {request : Request} {malloc : Bool}
    {e : Error} (h : request.Refused lz c malloc e) :
    request.passed lz c malloc = none := by
  unfold Request.passed
  rcases h with h | ⟨p, h, hrej, -⟩
  · rw [h]
  · rw [h]
    exact if_pos hrej

theorem Request.passed_of_ok {c : Conn} {request : Request} {malloc : Bool}
    {p : Packet} (h : request.packet lz c malloc = .ok p) (hrej : ¬ p.rejected) :
    request.passed lz c malloc = some p := by
  unfold Request.passed
  rw [h]
  exact if_neg hrej

namespace Threads

/-- The commands that have been sent, in the order in which their calls
returned. -/
def sent (w : Threads T) : List (Packet × UInt32) :=
  w.returned.filterMap (·.sent)

/-- Their bytes. -/
def frames (w : Threads T) : List UInt8 := w.sent.flatMap numberedFrame

/-- The serial after all of them. -/
def nextSerial (base : UInt32) (w : Threads T) : UInt32 :=
  base + UInt32.ofNat (w.sent.length + 1)

end Threads

-- ============================================================ the invariant

/-- A thread that does not have the mutex. -/
def SendPc.Outside : SendPc → Prop
  | .idle | .lock _ => True
  | _ => False

/-- A `writev` loop in the middle of a frame: `before` was on the socket
when it started. -/
def Writing (frame before wire : List UInt8) (iov : List (List UInt8))
    (iovcnt : Nat) : Prop :=
  ∃ segs junk part, iov = segs ++ junk ∧ iovcnt = segs.length
    ∧ (∀ s ∈ segs, s ≠ []) ∧ wire = before ++ part
    ∧ part ++ segs.flatten = frame

/-- How far the thread with the mutex has come with the call that is to
get `serial`, by where it is. -/
def SendPc.Inside (serial : UInt32) (before : List UInt8) (c : UInt32)
    (wire : List UInt8) : SendPc → Prop
  | .idle | .lock _ => False
  | .load _ => c + 1 = serial ∧ wire = before
  | .store _ sum => sum = serial ∧ wire = before
  | .fill _ => c = serial ∧ wire = before
  | .report _ header => c = serial ∧ header = serial ∧ wire = before
  | .write p out iov iovcnt =>
      c = serial ∧ out = serial
        ∧ Writing (p.frame serial) before wire iov iovcnt
  | .unlock p out ret =>
      c = serial ∧ out = serial ∧ ret = .ok ∧ wire = before ++ p.frame serial

/-- A piece of the frame at most has been written. -/
theorem SendPc.Inside.part {serial c : UInt32} {before wire : List UInt8}
    {pc : SendPc} (h : pc.Inside serial before c wire) :
    ∃ p part, pc.packet = some p ∧ wire = before ++ part
      ∧ part <+: p.frame serial := by
  cases pc with
  | idle => exact h.elim
  | lock p => exact h.elim
  | load p => exact ⟨p, [], rfl, by rw [h.2, List.append_nil], List.nil_prefix⟩
  | store p sum =>
      exact ⟨p, [], rfl, by rw [h.2, List.append_nil], List.nil_prefix⟩
  | fill p => exact ⟨p, [], rfl, by rw [h.2, List.append_nil], List.nil_prefix⟩
  | report p header =>
      exact ⟨p, [], rfl, by rw [h.2.2, List.append_nil], List.nil_prefix⟩
  | write p out iov iovcnt =>
      obtain ⟨-, -, segs, junk, part, -, -, -, hwire, hframe⟩ := h
      exact ⟨p, part, rfl, hwire, ⟨_, hframe⟩⟩
  | unlock p out ret => exact ⟨p, _, rfl, h.2.2.2, List.prefix_refl _⟩

/-- A `writev` takes a further piece of the frame. -/
theorem Writing.took {frame before wire : List UInt8}
    {iov iov' : List (List UInt8)} {iovcnt iovcnt' n : Nat}
    (h : Writing frame before wire iov iovcnt)
    (hadv : advance iov iovcnt n = some (iov', iovcnt')) :
    Writing frame before (wire ++ (iov.take iovcnt).flatten.take n) iov'
      iovcnt' := by
  obtain ⟨segs, junk, part, rfl, rfl, hne, rfl, rfl⟩ := h
  obtain ⟨junk', hspec⟩ := advance_spec segs junk n hne
  rw [hspec] at hadv
  cases hadv
  refine ⟨consume segs n, junk', part ++ segs.flatten.take n, rfl, rfl,
    consume_nonempty hne n, ?_, ?_⟩
  · rw [List.take_left, List.append_assoc]
  · rw [consume_flatten, List.append_assoc, List.take_append_drop]

namespace Threads

/-- What holds between any two steps when no `writev` fails. -/
structure Inv (base : UInt32) (w : Threads T) : Prop where
  serials : ∀ i e, w.sent[i]? = some e → e.2 = base + UInt32.ofNat (i + 1)
  passed : ∀ e ∈ w.sent, ¬ e.1.rejected
  done : ∀ r ∈ w.returned, r.sent ≠ none → r.result = .ok
  accepted : ∀ t p, (w.senders t).packet = some p → ¬ p.rejected
  outside : ∀ t, w.owner ≠ some t → (w.senders t).Outside
  free : w.owner = none →
    w.conn.serial + 1 = w.nextSerial base ∧ w.wire = w.frames
  held : ∀ t, w.owner = some t →
    (w.senders t).Inside (w.nextSerial base) w.frames w.conn.serial w.wire

theorem inv_start (c : Conn) (k : Kernel) :
    Inv c.serial (start c k : Threads T) where
  serials i e h := by cases h
  passed e h := by cases h
  done r h := by cases h
  accepted t p h := by cases h
  outside t h := trivial
  free h := ⟨rfl, rfl⟩
  held t h := by cases h

variable {base : UInt32} {w : Threads T} {t : T}

/-- Whoever is past the mutex has it. -/
theorem Inv.owner_of_inside (hw : Inv base w) (h : ¬ (w.senders t).Outside) :
    w.owner = some t :=
  Classical.byContradiction fun hne => h (hw.outside t hne)

/-- The serial after another. -/
theorem ofNat_succ (base : UInt32) (n : Nat) :
    base + UInt32.ofNat n + 1 = base + UInt32.ofNat (n + 1) := by
  rw [UInt32.ofNat_add, UInt32.add_assoc]
  rfl

/-- A call that returns early leaves everything as it is. -/
theorem Inv.refused (hw : Inv base w) (e : Error) :
    Inv base (w.return_ ⟨t, e, none⟩) := by
  have hsent : (w.return_ ⟨t, e, none⟩).sent = w.sent := by
    simp [sent, return_, List.filterMap_append]
  have hnext : (w.return_ ⟨t, e, none⟩).nextSerial base = w.nextSerial base := by
    rw [nextSerial, hsent, nextSerial]
  have hframes : (w.return_ ⟨t, e, none⟩).frames = w.frames := by
    rw [frames, hsent, frames]
  refine ⟨?_, ?_, fun r hr hne => ?_, hw.accepted, hw.outside, ?_, ?_⟩
  · rw [hsent]
    exact hw.serials
  · rw [hsent]
    exact hw.passed
  · rcases List.mem_append.mp hr with hr | hr
    · exact hw.done r hr hne
    · rw [List.mem_singleton.mp hr] at hne
      exact absurd rfl hne
  · rw [hnext, hframes]
    exact hw.free
  · rw [hnext, hframes]
    exact hw.held

variable [DecidableEq T]

theorem goto_same (w : Threads T) (t : T) (pc : SendPc) :
    (w.goto t pc).senders t = pc := if_pos rfl

theorem goto_other (w : Threads T) {t u : T} (pc : SendPc) (h : u ≠ t) :
    (w.goto t pc).senders u = w.senders u := if_neg h

/-- The holder of the mutex moves on. -/
theorem Inv.moved (hw : Inv base w) {pc : SendPc} {serial : UInt32}
    {wire : List UInt8} (hown : w.owner = some t)
    (hpacket : pc.packet = (w.senders t).packet)
    (hin : pc.Inside (w.nextSerial base) w.frames serial wire) :
    Inv base (w.moved t pc serial wire) where
  serials := hw.serials
  passed := hw.passed
  done := hw.done
  accepted u p hp := by
    change ((w.goto t pc).senders u).packet = some p at hp
    by_cases hu : u = t
    · subst hu
      rw [goto_same, hpacket] at hp
      exact hw.accepted u p hp
    · rw [goto_other w pc hu] at hp
      exact hw.accepted u p hp
  outside u hu := by
    have hne : u ≠ t := by
      rintro rfl
      exact hu hown
    show ((w.goto t pc).senders u).Outside
    rw [goto_other w pc hne]
    exact hw.outside u hu
  free h := by rw [show w.owner = none from h] at hown; cases hown
  held u hu := by
    obtain rfl : t = u := Option.some.inj (hown.symm.trans hu)
    show ((w.goto t pc).senders t).Inside _ _ _ _
    rw [goto_same]
    exact hin

/-- A call that passes the checks waits outside. -/
theorem Inv.called (hw : Inv base w) {p : Packet} (hidle : w.senders t = .idle)
    (hp : ¬ p.rejected) : Inv base (w.goto t (.lock p)) where
  serials := hw.serials
  passed := hw.passed
  done := hw.done
  accepted u q hq := by
    by_cases hu : u = t
    · subst hu
      rw [goto_same] at hq
      cases hq
      exact hp
    · rw [goto_other w _ hu] at hq
      exact hw.accepted u q hq
  outside u hown := by
    by_cases hu : u = t
    · subst hu
      rw [goto_same]
      trivial
    · rw [goto_other w _ hu]
      exact hw.outside u hown
  free := hw.free
  held u hown := by
    have hu : u ≠ t := by
      rintro rfl
      have hin := hw.held u hown
      rw [hidle] at hin
      exact hin
    rw [goto_other w _ hu]
    exact hw.held u hown

/-- Taking the mutex. -/
theorem Inv.locked (hw : Inv base w) {p : Packet} (hpc : w.senders t = .lock p)
    (hfree : w.owner = none) :
    Inv base { w.goto t (.load p) with owner := some t } where
  serials := hw.serials
  passed := hw.passed
  done := hw.done
  accepted u q hq := by
    change ((w.goto t (.load p)).senders u).packet = some q at hq
    by_cases hu : u = t
    · subst hu
      rw [goto_same] at hq
      exact hw.accepted u q (by rw [hpc]; exact hq)
    · rw [goto_other w _ hu] at hq
      exact hw.accepted u q hq
  outside u hown := by
    have hu : u ≠ t := by
      rintro rfl
      exact hown rfl
    show ((w.goto t (.load p)).senders u).Outside
    rw [goto_other w _ hu]
    exact hw.outside u (by rw [hfree]; exact (Option.some_ne_none u).symm)
  free h := by cases h
  held u hown := by
    cases hown
    show ((w.goto t (.load p)).senders t).Inside _ _ _ _
    rw [goto_same]
    exact hw.free hfree

/-- Releasing the mutex: the frame is complete. -/
theorem Inv.unlocked (hw : Inv base w) {p : Packet} {out : UInt32} {ret : Error}
    (hpc : w.senders t = .unlock p out ret) :
    Inv base { w.goto t .idle with
      owner := none
      returned := w.returned ++ [⟨t, ret, some (p, out)⟩] } := by
  have hown := hw.owner_of_inside (t := t) (by rw [hpc]; exact id)
  have hin := hw.held t hown
  rw [hpc] at hin
  obtain ⟨hc, hout, hret, hwire⟩ := hin
  have hsent : ({ w.goto t .idle with
      owner := none
      returned := w.returned ++ [⟨t, ret, some (p, out)⟩] } : Threads T).sent
      = w.sent ++ [(p, out)] := by
    simp [sent, List.filterMap_append]
  refine ⟨?_, ?_, fun r hr hne => ?_, fun u q hq => ?_, fun u hu => ?_,
    fun _ => ⟨?_, ?_⟩, fun u hu => by cases hu⟩
  · rw [hsent]
    intro i e he
    rcases Nat.lt_trichotomy i w.sent.length with hi | hi | hi
    · rw [List.getElem?_append_left hi] at he
      exact hw.serials i e he
    · rw [hi, List.getElem?_concat_length] at he
      cases he
      rw [hi]
      exact hout
    · rw [List.getElem?_eq_none (by
        rw [List.length_append, List.length_singleton]; omega)] at he
      cases he
  · rw [hsent]
    intro e he
    rcases List.mem_append.mp he with he | he
    · exact hw.passed e he
    · rw [List.mem_singleton.mp he]
      exact hw.accepted t p (by rw [hpc]; rfl)
  · rcases List.mem_append.mp hr with hr | hr
    · exact hw.done r hr hne
    · rw [List.mem_singleton.mp hr]
      exact hret
  · change ((w.goto t .idle).senders u).packet = some q at hq
    by_cases hu : u = t
    · subst hu
      rw [goto_same] at hq
      cases hq
    · rw [goto_other w _ hu] at hq
      exact hw.accepted u q hq
  · show ((w.goto t .idle).senders u).Outside
    by_cases hu' : u = t
    · subst hu'
      rw [goto_same]
      trivial
    · rw [goto_other w _ hu']
      refine hw.outside u ?_
      rw [hown]
      rintro heq
      exact hu' (Option.some.inj heq).symm
  · rw [nextSerial, hsent, List.length_append, List.length_singleton,
      ← ofNat_succ]
    show w.conn.serial + 1 = _
    rw [hc]
    rfl
  · rw [frames, hsent, List.flatMap_append, List.flatMap_singleton]
    show w.wire = w.frames ++ p.frame out
    rw [hwire, hout]

/-- A step of the receiver leaves the serial alone. -/
theorem recvStep_serial {pc pc' : RecvPc} {c c' : Conn} {k k' : Kernel}
    {res : Option RecvResult}
    (h : recvStep lz pc c k = some (pc', c', k', res)) :
    c'.serial = c.serial := by
  have hsame : recvStep lz pc (c.withSerial c.serial) k = _ :=
    recvStep_withSerial c k c.serial pc
  rw [show c.withSerial c.serial = c from rfl, h] at hsame
  injection hsame with hsame
  injection hsame with _ hsame
  injection hsame with hsame
  rw [hsame]
  rfl

theorem inv_step {w' : Threads T} {a : ThreadAct T} (hw : Inv base w)
    (ha : ∀ t, a ≠ .writev t .refused) (h : step lz w a = .ok w') :
    Inv base w' := by
  have hmove : ∀ {t : T} {pc pc' : SendPc} {serial : UInt32}
      {wire : List UInt8}, w.senders t = pc → ¬ pc.Outside →
      pc'.packet = pc.packet →
      (pc.Inside (w.nextSerial base) w.frames w.conn.serial w.wire →
        pc'.Inside (w.nextSerial base) w.frames serial wire) →
      Inv base (w.moved t pc' serial wire) := by
    intro t pc pc' serial wire hpc hin hpacket hstep
    subst hpc
    have hown := hw.owner_of_inside hin
    exact hw.moved hown hpacket (hstep (hw.held t hown))
  cases step_does h with
  | refused => exact hw.refused _
  | accepted idle packet accepted => exact hw.called idle accepted
  | lock pc free => exact hw.locked pc free
  | load pc =>
      refine hmove pc id rfl fun hin => ?_
      exact hin
  | store pc =>
      refine hmove pc id rfl fun hin => ?_
      exact hin
  | fill pc =>
      refine hmove pc id rfl fun hin => ?_
      exact ⟨hin.1, hin.1, hin.2⟩
  | @report t p header pc =>
      refine hmove pc id rfl fun hin => ?_
      obtain ⟨hc, rfl, hwire⟩ := hin
      obtain ⟨hflat, hne⟩ := p.iov_spec
        (hw.accepted t p (by rw [pc]; rfl)) (w.nextSerial base)
      exact ⟨hc, hc, p.iov _, _, [], rfl, rfl, hne,
        by rw [hwire, List.append_nil], hflat⟩
  | leave pc =>
      refine hmove pc id rfl fun hin => ?_
      obtain ⟨hc, hout, segs, junk, part, hiov, hcnt, hne, hwire, hframe⟩ := hin
      refine ⟨hc, hout, rfl, ?_⟩
      rw [hwire, ← hframe, List.length_eq_zero_iff.mp hcnt.symm,
        List.flatten_nil, List.append_nil]
  | unlock pc => exact hw.unlocked pc
  | again => exact hw
  | @fail t => exact absurd rfl (ha t)
  | took pc le advanced =>
      refine hmove pc id rfl fun hin => ?_
      exact ⟨hin.1, hin.2.1, hin.2.2.took advanced⟩
  | recv received =>
      refine ⟨hw.serials, hw.passed, hw.done, hw.accepted, hw.outside, ?_, ?_⟩
      · intro hfree
        show (_ : Conn).serial + 1 = _ ∧ _
        rw [recvStep_serial received]
        exact hw.free hfree
      · intro t hown
        show (w.senders t).Inside _ _ (_ : Conn).serial _
        rw [recvStep_serial received]
        exact hw.held t hown

-- ============================================================ who sent what

/-- The packets that `t` has sent, in the order of its calls. -/
def sentBy (w : Threads T) (t : T) : List Packet :=
  w.returned.filterMap fun r =>
    if r.thread = t then r.sent.map Prod.fst else none

/-- The packets of the calls of `t` that got as far as the mutex. -/
def log (w : Threads T) (t : T) : List Packet :=
  w.sentBy t ++ (w.senders t).packet.toList

/-- Moving on within a call is no new call. -/
theorem log_congr {w' : Threads T} (u : T)
    (hreturned : w'.returned = w.returned)
    (hpacket : (w'.senders u).packet = (w.senders u).packet) :
    w'.log u = w.log u := by
  rw [log, log, sentBy, sentBy, hreturned, hpacket]

theorem goto_packet {pc : SendPc} (hpacket : pc.packet = (w.senders t).packet)
    (u : T) : ((w.goto t pc).senders u).packet = (w.senders u).packet := by
  by_cases hu : u = t
  · rw [hu, goto_same, hpacket]
  · rw [goto_other w pc hu]

/-- A step adds a call to the log of its thread if it is one that passes
every check, and nothing to any other. -/
theorem log_step {w' : Threads T} {a : ThreadAct T} {c : Conn}
    (hcs : w.conn.compressSize = c.compressSize)
    (h : step lz w a = .ok w') (u : T) :
    w'.log u = w.log u ++ (a.passed lz c u).toList := by
  have hmove : ∀ {t : T} {pc pc' : SendPc} {serial : UInt32}
      {wire : List UInt8}, w.senders t = pc → pc'.packet = pc.packet →
      (w.moved t pc' serial wire).log u = w.log u ++ [] := by
    intro t pc pc' serial wire hpc hpacket
    subst hpc
    rw [List.append_nil]
    exact log_congr u rfl (goto_packet hpacket u)
  cases step_does h with
  | @refused t request malloc e idle refused =>
      have hnone : (ThreadAct.call t request malloc).passed lz c u = none := by
        rw [Request.Refused, Request.packet_congr c _ malloc request hcs] at refused
        rw [ThreadAct.passed, Request.passed_of_refused refused, ite_self]
      rw [hnone, Option.toList_none, List.append_nil]
      simp [log, sentBy, return_, List.filterMap_append]
  | @accepted t request malloc p idle packet accepted =>
      rw [Request.packet_congr c _ malloc request hcs] at packet
      rw [ThreadAct.passed, Request.passed_of_ok packet accepted, log, log]
      show w.sentBy u ++ ((w.goto t (.lock p)).senders u).packet.toList = _
      by_cases hu : u = t
      · subst hu
        rw [goto_same, idle, if_pos rfl]
        simp [SendPc.packet]
      · rw [goto_other w _ hu, if_neg (Ne.symm hu), Option.toList_none,
          List.append_nil]
  | @lock t p pc free =>
      show _ = w.log u ++ []
      rw [List.append_nil]
      exact log_congr u rfl (goto_packet (by rw [pc]; rfl) u)
  | load pc => exact hmove pc rfl
  | store pc => exact hmove pc rfl
  | fill pc => exact hmove pc rfl
  | report pc => exact hmove pc rfl
  | leave pc => exact hmove pc rfl
  | @unlock t p out ret pc =>
      show _ = w.log u ++ []
      rw [List.append_nil, log, log]
      show List.filterMap _ (w.returned ++ [⟨t, ret, some (p, out)⟩])
        ++ ((w.goto t .idle).senders u).packet.toList = _
      by_cases hu : u = t
      · subst hu
        rw [goto_same, pc]
        simp [SendPc.packet, sentBy, List.filterMap_append]
      · rw [goto_other w _ hu]
        simp [sentBy, List.filterMap_append, Ne.symm hu]
  | again => exact (List.append_nil _).symm
  | fail pc => exact hmove pc rfl
  | took pc le advanced => exact hmove pc rfl
  | recv =>
      show _ = w.log u ++ []
      rw [List.append_nil]
      exact log_congr u rfl rfl

/-- The receiver's invariant and the compression setting are kept by every
step. -/
theorem receiver_step {w' : Threads T} {a : ThreadAct T} {compressSize : Nat}
    (hw : w.receiver.Ok w.conn ∧ w.conn.compressSize = compressSize)
    (h : step lz w a = .ok w') :
    w'.receiver.Ok w'.conn ∧ w'.conn.compressSize = compressSize := by
  have hserial : ∀ serial, w.receiver.Ok { w.conn with serial } := by
    intro serial
    obtain ⟨hok, -⟩ := hw
    cases hpc : w.receiver with
    | idle =>
        rw [hpc] at hok
        exact ⟨hok.last_le, hok.used_le, hok.recv_le⟩
    | loop body =>
        rw [hpc] at hok
        exact ⟨hok.last_le, hok.used_le, hok.recv_le⟩
    | again body =>
        rw [hpc] at hok
        exact ⟨⟨hok.1.last_le, hok.1.used_le, hok.1.recv_le⟩, hok.2⟩
  cases step_does h with
  | recv received =>
      obtain ⟨hok, hcs⟩ := recvStep_ok received hw.1
      exact ⟨hok, hcs.trans hw.2⟩
  | _ => exact ⟨hserial _, hw.2⟩

/-- The log of a thread in a run is its calls that pass every check. -/
theorem log_run {w' : Threads T} {c : Conn} {acts : List (ThreadAct T)}
    (hw : w.receiver.Ok w.conn ∧ w.conn.compressSize = c.compressSize)
    (h : exec (step lz) w acts = .ok w') (u : T) :
    w'.log u = w.log u ++ acts.filterMap (ThreadAct.passed lz c u) := by
  induction acts generalizing w with
  | nil =>
      cases h
      exact (List.append_nil _).symm
  | cons a acts ih =>
      rw [exec] at h
      split at h
      next w₁ ha =>
        rw [ih (receiver_step hw ha) h, log_step hw.2 ha, List.append_assoc]
        congr 1
        rw [List.filterMap_cons]
        cases ThreadAct.passed lz c u a <;> rfl
      next => cases h

/-- Sending from many threads is safe next to one receiver. On the socket
are the frames of the calls that have returned and a piece of the one whose
sender has the mutex, and a server reads from them the requests that were
made, each with the serial that its caller got. Every call that passes the
checks is one of these, or still going on; one that does not leaves
everything as it is. Serials fewer than 2^32 apart differ. The receiver's
results are those of a run in which nothing is sent, and those of
`yrmcds_recv` called as often. -/
theorem threads_safe {server : Except Error Int} {malloc : Option Mem}
    {c₀ : Conn} (hconn : yrmcdsConnect server malloc = .ok c₀) (threshold : Nat)
    (k : Kernel) (acts : List (ThreadAct T)) (w : Threads T)
    (hrun : exec (step lz) (start (yrmcdsSetCompression c₀ threshold).2 k) acts
      = .ok w)
    (hok : ∀ t, ThreadAct.writev t .refused ∉ acts) :
    let c := (yrmcdsSetCompression c₀ threshold).2
    (∃ part, w.wire = w.sent.flatMap (fun e => e.1.frame e.2) ++ part
      ∧ (w.owner = none → part = [])
      ∧ ∀ t, w.owner = some t → ∃ p, (w.senders t).packet = some p
        ∧ part <+: p.frame (c.serial + UInt32.ofNat (w.sent.length + 1)))
    ∧ (w.owner = none →
      w.conn.serial = c.serial + UInt32.ofNat w.sent.length)
    ∧ requestFormat.whole (w.sent.flatMap fun e => e.1.frame e.2)
      = some (w.sent.map fun e => e.1.message e.2)
    ∧ (∀ t, acts.filterMap (ThreadAct.passed lz c t)
      = w.sentBy t ++ (w.senders t).packet.toList)
    ∧ (∀ i j e e', w.sent[i]? = some e → w.sent[j]? = some e' → i < j →
      j - i < 2 ^ 32 → e.2 ≠ e'.2)
    ∧ (∀ t request malloc, w.senders t = .idle →
      request.Refused lz c malloc .badArgument →
      step lz w (.call t request malloc)
        = .ok (w.return_ ⟨t, .badArgument, none⟩))
    ∧ (∀ r ∈ w.returned, r.result = .badArgument → r.sent = none)
    ∧ (∃ v, exec (step lz) (start c k) (acts.filter ThreadAct.isRecv) = .ok v
      ∧ v.results = w.results)
    ∧ w.results = (recvCalls lz w.results.length c k).map (·.result) := by
  intro c
  obtain ⟨hbuf, -, -⟩ := connected_spec hconn threshold k
  have hinv : Inv c.serial w :=
    exec_inv (I := Inv c.serial) (P := fun _ a => ∀ t, a ≠ .writev t .refused)
      (fun w a w' hw ha hstep => inv_step hw ha hstep) (inv_start c k)
      (guarded_of_forall fun a ha t heq => hok t (by rw [← heq]; exact ha)) hrun
  have hrecv : w.receiver.Ok w.conn ∧ w.conn.compressSize = c.compressSize :=
    exec_inv (P := fun _ _ => True)
      (I := fun w : Threads T =>
        w.receiver.Ok w.conn ∧ w.conn.compressSize = c.compressSize)
      (fun w a w' hw _ hstep => receiver_step hw hstep)
      (show (start c k : Threads T).receiver.Ok c ∧ _ from ⟨hbuf, rfl⟩)
      guarded_true hrun
  refine ⟨?_, fun hown => ?_, whole_frames hinv.passed, fun t => ?_, ?_, ?_, ?_,
    recv_alone hrun, results_recvCalls hbuf hrun⟩
  · rcases hown : w.owner with _ | t
    · refine ⟨[], ?_, fun _ => rfl, fun t ht => by cases ht⟩
      rw [List.append_nil]
      exact (hinv.free hown).2
    · obtain ⟨p, part, hp, hwire, hpart⟩ := (hinv.held t hown).part
      refine ⟨part, hwire, fun hnone => (by cases hnone), fun u hu => ?_⟩
      cases hu
      exact ⟨p, hp, hpart⟩
  · have hnext := (hinv.free hown).1
    rw [nextSerial, ← ofNat_succ] at hnext
    exact (UInt32.add_left_inj 1).mp hnext
  · have hlog := log_run (u := t)
      (show (start c k : Threads T).receiver.Ok c
        ∧ c.compressSize = c.compressSize from ⟨hbuf, rfl⟩) hrun
    exact hlog.symm
  · intro i j e e' hi hj hlt hnear
    rw [hinv.serials i e hi, hinv.serials j e' hj]
    exact serial_ne hlt hnear
  · intro t request malloc hidle hrefused
    rw [Request.Refused, ← Request.packet_congr _ w.conn malloc request hrecv.2]
      at hrefused
    rw [step, hidle]
    dsimp only
    unfold call
    rcases hrefused with hpacket | ⟨p, hpacket, hrej, -⟩
    · rw [hpacket]
    · rw [hpacket]
      dsimp only
      rw [if_pos hrej]
  · intro r hr hbad
    refine Classical.byContradiction fun hne => ?_
    rw [hinv.done r hr hne] at hbad
    cases hbad

/-- Two senders take turns, a third call is rejected, and the receiver's
first `recv()` is interrupted. -/
theorem threads_safe_two :
    ∃ w : Threads Bool, w.wire = w.sent.flatMap (fun e => e.1.frame e.2)
      ∧ w.sent.map (·.2) = [1, 2] := by
  let k : Kernel := ⟨[], [.eintr]⟩
  let acts : List (ThreadAct Bool) :=
    [.call false .noop true, .call true .version true, .recv, .go true,
      .go true, .recv, .go true, .go true, .go true, .writev true (.took 10),
      .recv, .writev true .again, .writev true (.took 14), .go true, .go true,
      .call true (.get .none false) true, .go false, .go false, .go false,
      .go false, .go false, .writev false (.took 24), .go false, .go false]
  obtain ⟨w, hrun, hend⟩ := exists_of_ends
    (show ends (exec (step Lz4.literals)
      (start (yrmcdsSetCompression (Conn.connected 3 fun _ => 0) 0).2 k) acts)
      (fun w => w.owner.isNone && w.sent.map (·.2) == [1, 2]) = true by decide)
  rw [Bool.and_eq_true, beq_iff_eq] at hend
  obtain ⟨⟨part, hwire, hpart, -⟩, -⟩ := threads_safe
    (show yrmcdsConnect (.ok 3) (some fun _ => 0) = .ok _ from rfl) 0 k acts w
    hrun (by simp [acts])
  rw [hpart (Option.isNone_iff_eq_none.mp hend.1), List.append_nil] at hwire
  exact ⟨w, hwire, hend.2⟩

end Threads

end Yrmcds
