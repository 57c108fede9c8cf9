/-
What the command line tool of the counter extension talks to, and what it
is to print there.

A server answers each request with packets that carry its serial, any
number of them, and all of them packets a reader accepts. What a command
prints is then a matter of the responses to its request: `Cmd.body` prints
one after the other until a response ends the command (`Cmd.ends`).

A dump lists the semaphores of a server, a record for each, and ends with a
record that is empty (`dumpAnswers`); statistics are the body of a single
answer (`statsAnswer`).
-/
import Yrmcds.Model.YcCnt
import Yrmcds.Spec.CounterFormat
import Yrmcds.Spec.RequestFormat

namespace Yrmcds

open Endian Framing
open Yc (text)

-- ================================================================= bodies

section Bodies

variable {r : CntResponse} (body : List UInt8)

/-- A good response to `Dump` is a record. -/
theorem refBody_dump (hs : r.status = CNT_STATUS_OK)
    (hc : r.command = CntCommand.dump.code) :
    refBody r body = refDump r body := by
  unfold refBody
  rw [if_neg (not_not_intro hs), hc, if_neg (by decide), if_neg (by decide),
    if_neg (by decide), if_pos rfl]

/-- A good response to `Stats` is a stream of statistics. -/
theorem refBody_stats (hs : r.status = CNT_STATUS_OK)
    (hc : r.command = CntCommand.stats.code) :
    refBody r body = (statFormat.whole body).map fun stats =>
      { r with stats := some stats } := by
  unfold refBody
  rw [if_neg (not_not_intro hs), hc, if_neg (by decide), if_neg (by decide),
    if_pos rfl]

end Bodies

-- ================================================================ answers

/-- An answer of a server. -/
structure CntAnswer where
  command : CntCommand
  status : UInt8
  body : List UInt8

namespace CntAnswer

/-- The answer on the wire. -/
def packet (serial : UInt32) (a : CntAnswer) : List UInt8 :=
  [0x91, a.command.code, a.status, 0] ++ (toBE 4 a.body.length
    ++ (toLE 4 serial.toNat ++ a.body))

/-- What the header says. -/
def head (serial : UInt32) (a : CntAnswer) : CntResponse where
  serial
  status := a.status
  command := a.command.code
  body := a.body
  resources := 0
  currentConsumption := 0
  maxConsumption := 0
  name := []
  stats := none

/-- The response a reader is to make of it. -/
def response (serial : UInt32) (a : CntAnswer) : Option CntResponse :=
  refBody (a.head serial) a.body

/-- The body fits its length field, and a reader accepts it. -/
structure Fits (a : CntAnswer) : Prop where
  body_lt : a.body.length < 2 ^ 32
  accepted : ∀ serial, (a.response serial).isSome

theorem length_packet (serial : UInt32) (a : CntAnswer) :
    (a.packet serial).length = 12 + a.body.length := by
  simp only [packet, List.length_append, length_toBE, length_toLE,
    List.length_cons, List.length_nil]
  omega

/-- The answer is one packet, and says what it was written for. -/
theorem cut_packet {a : CntAnswer} {serial : UInt32} {r : CntResponse}
    (hlt : a.body.length < 2 ^ 32) (hr : a.response serial = some r) :
    cntFormat.cut (a.packet serial) = .frame (a.packet serial).length r := by
  have hlen : field (a.packet serial) 4 4 = toBE 4 a.body.length := by
    rw [packet, field_skip 4 rfl (by omega), field_here (by simp)]
  have hserial : field (a.packet serial) 8 4 = toLE 4 serial.toNat := by
    rw [packet, field_skip 4 rfl (by omega), field_skip 4 (by simp) (by omega),
      field_here (by simp)]
  have hbody : (a.packet serial).drop 12 = a.body := by
    rw [packet, ← List.append_assoc, ← List.append_assoc]
    exact List.drop_left' (by simp)
  have hhead : refHead (a.packet serial) = a.head serial := by
    rw [refHead, hserial, hbody, ofLE_toLE_of_lt serial.toNat_lt,
      UInt32.ofNat_toNat]
    rfl
  rw [cntFormat, Headed.format_cut]
  refine Headed.cut_frame (length_packet serial a) ?_ ?_
  · show (if (field ((a.packet serial).take 12) 0 1).headD 0 ≠ 0x91 then none
      else some (ofBE (field ((a.packet serial).take 12) 4 4))) = _
    rw [field_take (by decide), field_take (by decide), hlen,
      ofBE_toBE_of_lt (w := 4) hlt, if_neg (by simp [packet, field])]
  · show refBody (refHead (a.packet serial)) ((a.packet serial).drop 12) = _
    rw [hhead, hbody]
    exact hr

end CntAnswer

/-- A server: its answers to each operation. -/
structure CntServer where
  answers : CntOp → List CntAnswer
  fits : ∀ {op a}, a ∈ answers op → a.Fits

namespace CntServer

/-- The server as a peer: the requests it reads, answered in order. -/
def peer (sv : CntServer) : Yc.Peer := fun bytes =>
  (cntRequestFormat.parse bytes).flatMap fun m =>
    (sv.answers m.op).flatMap (CntAnswer.packet m.serial)

/-- The responses to a request. -/
def responses (sv : CntServer) (op : CntOp) (serial : UInt32) :
    List CntResponse :=
  (sv.answers op).filterMap (CntAnswer.response serial)

end CntServer

-- ============================================================ what is shown

namespace YcCnt

/-- The request of a command. -/
def Cmd.request : Cmd → CntRequest
  | noop => .noop
  | get name => .get (.buf name)
  | acquire name resources initial => .acquire (.buf name) resources initial
  | release name resources => .release (.buf name) resources
  | stats => .stats
  | dump => .dump

/-- How a command ends that has one response, and that was good. -/
def Cmd.shown : Cmd → CntResponse → Ending
  | noop, r => shownOk r
  | get _, r => .exited ⟨0, decimal r.currentConsumption ++ [10]⟩
  | acquire _ _ _, r => .exited ⟨0, decimal r.resources ++ [10]⟩
  | release _ _, r => shownOk r
  | stats, r => shownStats r
  | dump, _ => .exited ⟨0, []⟩

/-- What a command does with a response. -/
def Cmd.body (cmd : Cmd) (out : List UInt8) (r : CntResponse) :
    Except Ending (List UInt8) :=
  match cmd with
  | dump => dumpBody out r
  | cmd => .error (if r.status = CNT_STATUS_OK then cmd.shown r else refused [] r)

-- ================================================================== dumps

/-- A semaphore. -/
structure Semaphore where
  name : List UInt8
  current : UInt32
  maximum : UInt32
  name_lt : name.length < 2 ^ 16

namespace Semaphore

/-- The record of a semaphore. -/
def record (s : Semaphore) : CntAnswer where
  command := .dump
  status := CNT_STATUS_OK
  body := toBE 4 s.current.toNat ++ (toBE 4 s.maximum.toNat
    ++ (toBE 2 s.name.length ++ s.name))

/-- The response that is read of it. -/
def response (s : Semaphore) (serial : UInt32) : CntResponse :=
  { s.record.head serial with
    currentConsumption := s.current
    maxConsumption := s.maximum
    name := s.name }

/-- The line that is printed of it. -/
def line (s : Semaphore) : List UInt8 :=
  decimal s.current ++ [32] ++ decimal s.maximum ++ [32] ++ text s.name ++ [10]

theorem length_record (s : Semaphore) :
    s.record.body.length = 10 + s.name.length := by
  simp only [record, List.length_append, length_toBE]
  omega

theorem record_response (s : Semaphore) (serial : UInt32) :
    s.record.response serial = some (s.response serial) := by
  have hcur : field s.record.body 0 4 = toBE 4 s.current.toNat := by
    rw [record, field_here (by simp)]
  have hmax : field s.record.body 4 4 = toBE 4 s.maximum.toNat := by
    rw [record, field_skip 4 (by simp) (by omega), field_here (by simp)]
  have hlen : field s.record.body 8 2 = toBE 2 s.name.length := by
    rw [record, field_skip 4 (by simp) (by omega),
      field_skip 4 (by simp) (by omega), field_here (by simp)]
  have hname : field s.record.body 10 s.name.length = s.name := by
    rw [record, field_skip 4 (by simp) (by omega),
      field_skip 4 (by simp) (by omega), field_skip 2 (by simp) (by omega),
      field, List.drop_zero, List.take_length]
  have hlength := s.length_record
  have hdump : s.record.response serial
      = refDump (s.record.head serial) s.record.body := refBody_dump _ rfl rfl
  rw [hdump, refDump, hlen, ofBE_toBE_of_lt (w := 2) s.name_lt,
    if_neg (by omega), if_neg (by omega), if_neg (by omega), hcur, hmax, hname,
    ofBE_toBE_of_lt s.current.toNat_lt, ofBE_toBE_of_lt s.maximum.toNat_lt,
    UInt32.ofNat_toNat, UInt32.ofNat_toNat]
  rfl

end Semaphore

/-- The record a dump ends with. -/
def endOfDump : CntAnswer := ⟨.dump, CNT_STATUS_OK, []⟩

/-- A dump. -/
def dumpAnswers (sems : List Semaphore) : List CntAnswer :=
  sems.map Semaphore.record ++ [endOfDump]

theorem endOfDump_response (serial : UInt32) :
    endOfDump.response serial = some (endOfDump.head serial) :=
  refBody_dump [] rfl rfl

/-- Every answer of a dump is one a reader accepts. -/
theorem dumpAnswers_fit {sems : List Semaphore} {a : CntAnswer}
    (h : a ∈ dumpAnswers sems) : a.Fits := by
  rcases List.mem_append.mp h with h | h
  · obtain ⟨s, -, rfl⟩ := List.mem_map.mp h
    have hlen := s.length_record
    have hlt := s.name_lt
    refine ⟨by omega, fun serial => ?_⟩
    rw [s.record_response]
    rfl
  · obtain rfl := List.mem_singleton.mp h
    refine ⟨by decide, fun serial => ?_⟩
    rw [endOfDump_response]
    rfl

/-- A server that answers dumps. -/
def dumping (sems : List Semaphore) : CntServer where
  answers
    | .dump => dumpAnswers sems
    | _ => []
  fits {op a} h := by
    cases op with
    | dump => exact dumpAnswers_fit h
    | _ => cases h

-- ============================================================== statistics

/-- Statistics. -/
def statsAnswer (stats : List CntStat) : CntAnswer where
  command := .stats
  status := CNT_STATUS_OK
  body := stats.flatMap encodeStat

theorem stats_response {stats : List CntStat} (hfits : ∀ s ∈ stats, s.Fits)
    (serial : UInt32) :
    (statsAnswer stats).response serial
      = some { (statsAnswer stats).head serial with stats := some stats } := by
  have hwhole : statFormat.whole (stats.flatMap encodeStat) = some stats :=
    (Format.whole_iff statFormat_encodes).mpr ⟨hfits, rfl⟩
  have hstats : (statsAnswer stats).response serial
      = (statFormat.whole (stats.flatMap encodeStat)).map fun stats' =>
        { (statsAnswer stats).head serial with stats := some stats' } :=
    refBody_stats _ rfl rfl
  rw [hstats, hwhole]
  rfl

/-- A server that answers requests for its statistics. -/
def reporting (stats : List CntStat) (hfits : ∀ s ∈ stats, s.Fits)
    (hlt : (stats.flatMap encodeStat).length < 2 ^ 32) : CntServer where
  answers
    | .stats => [statsAnswer stats]
    | _ => []
  fits {op a} h := by
    cases op with
    | stats =>
        obtain rfl := List.mem_singleton.mp h
        refine ⟨hlt, fun serial => ?_⟩
        rw [stats_response hfits]
        rfl
    | _ => cases h

end YcCnt

end Yrmcds
