/-
A run of a retrieval, from the bytes it sends to the bytes it writes.

When nothing outside fails it, its requests go out whole
(`sendRequests_sound`), its loop ends with what `Awaits` says of the
peer's answer, and the data of that is written (`writeData_sound`). So
what it prints is read off the answer (`prints_of_awaits`), and the two
halves of `Prints` are the two halves of each step: what a step that
returns has done (`_sound`), and that there is a way for it to return
(`_finishes`).
-/
import Yrmcds.Proofs.Send.Sync
import Yrmcds.Proofs.Yc.Loop
import Yrmcds.Spec.ObjectServer

namespace Yrmcds

open Gather Framing

namespace Yc

variable {lz : Lz4} {compression : Nat} {quiet : Bool} {c : Conn}
  {request : Request} {p : Packet}

-- =============================================================== requests

/-- A request is to go out as this packet. -/
structure Request.Becomes (lz : Lz4) (request : Request) (p : Packet) :
    Prop where
  packet : ∀ c, request.packet lz c true = .ok p
  passes : ¬ p.rejected

/-- What an accepted request leaves. -/
def asked (c : Conn) (p : Packet) : Requested where
  conn := { c with serial := c.serial + 1 }
  serial := c.serial + 1
  written := p.frame (c.serial + 1)

theorem Request.Becomes.exec (hp : Request.Becomes lz request p)
    (c : Conn) (acks : List Ack) :
    SendCall.exec lz c ⟨request, true, acks⟩ = sendCommand c p acks := by
  rw [SendCall.exec, hp.packet]

/-- A request that returns OK has been sent. -/
theorem ask_eq (hp : Request.Becomes lz request p) {acks : List Ack}
    (hok : (sendCommand c p acks).result = some .ok) :
    ask lz c request acks = some (.ok (asked c p)) := by
  have hwritten := (sendCommand_spec acks hp.passes).of_ok hok
  have hserial : (sendCommand c p acks).serial = some (c.serial + 1) := by
    rw [sendCommand, if_neg hp.passes]
  have hconn : (sendCommand c p acks).conn
      = { c with serial := c.serial + 1 } := by
    rw [sendCommand, if_neg hp.passes]
  unfold ask
  rw [hp.exec]
  dsimp only
  rw [hok, hwritten, hserial, hconn]
  rfl

/-- A request that nobody refuses and that returns has been sent. -/
theorem ask_sound (hp : Request.Becomes lz request p) {acks : List Ack}
    {r : Except Error Requested} (hacks : .refused ∉ acks)
    (h : ask lz c request acks = some r) : r = .ok (asked c p) := by
  have hret : (sendCommand c p acks).result ≠ none := by
    intro hnone
    unfold ask at h
    rw [hp.exec] at h
    dsimp only at h
    rw [hnone] at h
    cases h
  have hok := (sendCommand_spec acks hp.passes).ok_of_returns hacks hret
  rw [ask_eq hp hok] at h
  injection h with h
  exact h.symm

/-- There is a way for a request to be sent. -/
theorem ask_finishes (lz : Lz4) (hp : Request.Becomes lz request p)
    (c : Conn) :
    ∃ acks, .refused ∉ acks
      ∧ ask lz c request acks = some (.ok (asked c p)) := by
  refine ⟨[.took (p.frame (c.serial + 1)).length], ?_, ?_⟩
  · rw [List.mem_singleton]
    intro h
    cases h
  · exact ask_eq hp (sendCommand_spec _ hp.passes).ok_of_all

/-- The packet of a `Noop`. -/
def noopPacket : Packet := ⟨.noop, 0, .none, .none, .none⟩

theorem noop_becomes : Request.Becomes lz .noop noopPacket where
  packet _ := rfl
  passes := by decide

/-- What a retrieval leaves when its requests have been sent: with `-q` the
serial is that of the `Noop`. -/
def requested (quiet : Bool) (c : Conn) (p : Packet) : Requested :=
  if quiet then
    let noop := asked (asked c p).conn noopPacket
    { noop with written := (asked c p).written ++ noop.written }
  else asked c p

/-- Requests that nobody refuses and that return have been sent. -/
theorem sendRequests_sound (hp : Request.Becomes lz request p)
    {a : Answers} {r : Except Error Requested}
    (hrequest : .refused ∉ a.request) (hnoop : .refused ∉ a.noop)
    (h : sendRequests lz quiet request c a = some r) :
    r = .ok (requested quiet c p) := by
  unfold sendRequests at h
  split at h
  next first hfirst =>
    cases ask_sound hp hrequest hfirst
    cases quiet with
    | false =>
        cases h
        rfl
    | true =>
        rw [if_pos rfl] at h
        split at h
        next noop hask =>
          cases ask_sound noop_becomes hnoop hask
          cases h
          rfl
        next hne =>
          cases ask_sound noop_becomes hnoop h
          exact absurd h (hne _)
  next hne =>
    cases ask_sound hp hrequest h
    exact absurd h (hne _)

/-- There is a way for the requests to be sent. -/
theorem sendRequests_finishes (hp : Request.Becomes lz request p)
    (quiet : Bool) (c : Conn) :
    ∃ acks noop, .refused ∉ acks ∧ .refused ∉ noop
      ∧ ∀ a : Answers, a.request = acks → a.noop = noop →
        sendRequests lz quiet request c a
          = some (.ok (requested quiet c p)) := by
  obtain ⟨acks, hacks, hfirst⟩ := ask_finishes lz hp c
  obtain ⟨noop, hnoop, hsecond⟩ :=
    ask_finishes lz noop_becomes (asked c p).conn
  refine ⟨acks, noop, hacks, hnoop, fun a ha ha' => ?_⟩
  rw [sendRequests, ha, ha', hfirst]
  cases quiet with
  | false => rfl
  | true =>
      dsimp only
      rw [if_pos rfl, hsecond]
      rfl

-- ================================================================ output

/-- `write_data` to an output that takes everything. -/
theorem writeData_sound {acks : List Ack} {bs out : List UInt8}
    (hacks : ∀ ack ∈ acks, ∃ n, ack = .took n)
    (h : writeData acks bs = some out) : out = bs := by
  induction acks generalizing bs out with
  | nil =>
      cases bs with
      | nil => cases h; rfl
      | cons b bs => cases h
  | cons ack acks ih =>
      cases bs with
      | nil => cases ack <;> cases h <;> rfl
      | cons b bs =>
          obtain ⟨n, rfl⟩ := hacks ack (List.mem_cons_self ..)
          rw [writeData] at h
          split at h
          next =>
            rw [Option.map_eq_some_iff] at h
            obtain ⟨rest, hrest, rfl⟩ := h
            rw [ih (fun ack hm => hacks ack (List.mem_cons_of_mem _ hm)) hrest,
              List.take_append_drop]
          next => cases h

theorem writeData_all (bs : List UInt8) :
    writeData [.took bs.length] bs = some bs := by
  cases bs with
  | nil => rfl
  | cons b bs =>
      rw [writeData, if_pos (Nat.le_refl _), List.drop_length,
        List.take_length, writeData, Option.map_some, List.append_nil]

/-- What a retrieval writes when its loop has ended. -/
def printed : Except Nat Response → List UInt8
  | .ok r => r.data
  | .error _ => []

-- ========================================================== one retrieval

/-- A connection nothing has been sent or received on. -/
structure Fresh (compression : Nat) (c : Conn) : Prop where
  live : Live compression c
  pending : c.pending = []
  serial : c.serial = 0

theorem fresh_of_connect {server : Except Error Int} {malloc : Option Mem}
    (h : yrmcdsConnect server malloc = .ok c) (compression : Nat) :
    Fresh compression (yrmcdsSetCompression c compression).2 := by
  obtain ⟨hok, hrx, hcs⟩ := connected_spec h compression ⟨[], []⟩
  injection hrx with hpending _ hvalid
  refine ⟨⟨hok, hvalid, hcs⟩, hpending, ?_⟩
  unfold yrmcdsConnect at h
  split at h
  next => cases h
  next => cases h
  next => cases h; rfl

/-- Sending changes nothing on the receive side. -/
theorem requested_conn (hc : Fresh compression c) (quiet : Bool)
    (p : Packet) :
    Live compression (requested quiet c p).conn
      ∧ ∀ stream, (requested quiet c p).conn.pending ++ stream = stream := by
  obtain ⟨⟨⟨hlast, hused, hrecv⟩, hvalid, hcs⟩, hpending, -⟩ := hc
  have hunread : ∀ stream, c.pending ++ stream = stream := by
    intro stream
    rw [hpending, List.nil_append]
  cases quiet with
  | false => exact ⟨⟨⟨hlast, hused, hrecv⟩, hvalid, hcs⟩, hunread⟩
  | true => exact ⟨⟨⟨hlast, hused, hrecv⟩, hvalid, hcs⟩, hunread⟩

section Retrieve

variable {peer : Peer} {out : Except Nat Response}

/-- A retrieval that nobody fails and that exits has written what its loop
is to end with. -/
theorem retrieve_sound (hlz : lz.Lawful) (hp : Request.Becomes lz request p)
    (hc : Fresh compression c)
    (hw : Awaits lz compression (requested quiet c p).serial
      (peer (requested quiet c p).written) out)
    {a : Answers} {exit : Exit} (ha : a.Succeed)
    (h : retrieve lz peer quiet request c a = some exit) :
    exit.stdout = printed out := by
  obtain ⟨hlive, hunread⟩ := requested_conn hc quiet p
  unfold retrieve at h
  split at h
  next => cases h
  next e hsend => cases sendRequests_sound hp ha.request ha.noop hsend
  next sent hsend =>
    cases sendRequests_sound hp ha.request ha.noop hsend
    dsimp only at h
    split at h
    next => cases h
    next status hloop =>
      cases h
      cases recvLoop_sound hlz hw hlive ha.recv (hunread _) hloop
      rfl
    next r hloop =>
      cases recvLoop_sound hlz hw hlive ha.recv (hunread _) hloop
      rw [Option.map_eq_some_iff] at h
      obtain ⟨bs, hbs, rfl⟩ := h
      exact writeData_sound ha.stdout hbs

/-- There is a way for a retrieval to exit. -/
theorem retrieve_finishes (hlz : lz.Lawful)
    (hp : Request.Becomes lz request p) (hc : Fresh compression c)
    (hw : Awaits lz compression (requested quiet c p).serial
      (peer (requested quiet c p).written) out) (fd : Int) (buf : Mem) :
    ∃ a exit, a.Succeed ∧ a.server = .ok fd ∧ a.malloc = some buf
      ∧ retrieve lz peer quiet request c a = some exit := by
  obtain ⟨hlive, hunread⟩ := requested_conn hc quiet p
  obtain ⟨acks, noop, hacks, hnoop, hsend⟩ := sendRequests_finishes hp quiet c
  have hfuel : (peer (requested quiet c p).written).length
      < (requested quiet c p).conn.used
        + (peer (requested quiet c p).written).length + 1 := by omega
  obtain ⟨script, hscript, hloop⟩ :=
    recvLoop_finishes hlz hw hlive (hunread _) hfuel
  have hstdout : ∀ ack ∈ [Ack.took (printed out).length], ∃ n, ack = .took n :=
    List.forall_mem_singleton.mpr ⟨_, rfl⟩
  let a : Answers :=
    ⟨.ok fd, some buf, acks, noop, script, [.took (printed out).length]⟩
  have ha : a.Succeed := ⟨rfl, rfl, hacks, hnoop, hscript, hstdout⟩
  cases out with
  | error status =>
      refine ⟨a, ⟨status, []⟩, ha, rfl, rfl, ?_⟩
      rw [retrieve, hsend a rfl rfl]
      dsimp only
      rw [hloop]
  | ok r =>
      refine ⟨a, ⟨0, r.data⟩, ha, rfl, rfl, ?_⟩
      rw [retrieve, hsend a rfl rfl]
      dsimp only
      rw [hloop]
      dsimp only
      rw [show a.stdout = [.took r.data.length] from rfl, writeData_all]
      rfl

/-- A retrieval prints what its loop is to end with. -/
theorem prints_of_awaits (hlz : lz.Lawful) (hp : Request.Becomes lz request p)
    {cmd : Retrieve} {argv : List (List UInt8)}
    (hexec : ∀ c a, cmd.exec lz peer quiet argv c a
      = retrieve lz peer quiet request c a)
    (hw : ∀ c : Conn, c.serial = 0 →
      Awaits lz compression (requested quiet c p).serial
        (peer (requested quiet c p).written) out) :
    Prints (main lz peer quiet compression cmd argv) (printed out) := by
  have hmain : ∀ (a : Answers) (c : Conn),
      yrmcdsConnect a.server a.malloc = .ok c →
        main lz peer quiet compression cmd argv a
          = retrieve lz peer quiet request
            (yrmcdsSetCompression c compression).2 a := by
    intro a c hconn
    rw [main, hconn, ← hexec]
    rfl
  constructor
  · have hconn : yrmcdsConnect (.ok 3) (some fun _ => 0)
        = .ok (Conn.connected 3 fun _ => 0) := rfl
    have hfresh := fresh_of_connect hconn compression
    obtain ⟨a, exit, ha, hserver, hmalloc, hrun⟩ :=
      retrieve_finishes hlz hp hfresh (hw _ hfresh.serial) 3 fun _ => 0
    refine ⟨a, exit, ha, ?_⟩
    rw [hmain a _ (by rw [hserver, hmalloc]; exact hconn)]
    exact hrun
  · intro a exit ha hrun
    cases hconn : yrmcdsConnect a.server a.malloc with
    | error e =>
        have hserver := ha.server
        have hmalloc := ha.malloc
        unfold yrmcdsConnect at hconn
        split at hconn
        next hs => rw [hs] at hserver; cases hserver
        next hm => rw [hm] at hmalloc; cases hmalloc
        next => cases hconn
    | ok c =>
        have hfresh := fresh_of_connect hconn compression
        rw [hmain a c hconn] at hrun
        exact retrieve_sound hlz hp hfresh (hw _ hfresh.serial) ha hrun

end Retrieve

end Yc

end Yrmcds
