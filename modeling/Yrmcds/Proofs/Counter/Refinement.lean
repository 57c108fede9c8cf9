/-
`yrmcds_cnt_recv` refines the abstract receiver of its response format.

Decoding in place is decoding the packet (`run_cntDecodeBody`), and looks
at nothing outside it (`below_cntDecodeBody`). One call is a move of the
abstract receiver (`yrmcdsCntRecv_moves`), so a run of calls reads the
stream as the one-shot reference does (`cntRecvCalls_parse`).

The code sets `last_size` before it looks at the body, so behind a body it
rejects the packet counts as returned already. Nothing shifts it out any
more: the connection is invalid, and the abstract receiver keeps the
packet in front (`CntReceiver.pending`).
-/
import Yrmcds.Proofs.Counter.Statistics
import Yrmcds.Proofs.Recv.Calls
import Yrmcds.Proofs.Recv.Inside

namespace Yrmcds

open Endian Query Framing

variable {realloc : StatsRealloc} {m : Mem} {n : Nat}

-- ============================================================== the header

/-- What the header says of the response. -/
def cntHead (s : List UInt8) : CntResponse := { refHead s with body := [] }

theorem run_cntDecodeHeader {used : Nat} (h : 12 ≤ used) :
    run m.answer cntDecodeHeader
      = (cntHeaded.bodyLen ((m.slice 0 used).take 12)).map fun n =>
        (n, cntHead (m.slice 0 used)) := by
  unfold cntDecodeHeader byteAt ntoh32 host32
  simp only [run_bind, run_query, run_pure, run_ite, answer_eq]
  show _ = Option.map _ (if (field (List.take 12 _) 0 1).headD 0 ≠ 0x91 then none
    else some (ofBE (field (List.take 12 _) 4 4)))
  rw [field_take (by decide), field_take (by decide), field_slice m (by omega),
    field_slice m (by omega)]
  unfold cntHead refHead
  rw [field_slice m (by omega), field_slice m (by omega),
    field_slice m (by omega)]
  split <;> rfl

/-- The header is read from its twelve bytes. -/
theorem cntHead_append {s : List UInt8} (t : List UInt8) (h : 12 ≤ s.length) :
    cntHead (s ++ t) = cntHead s := by
  unfold cntHead refHead
  rw [field_append t (by omega), field_append t (by omega),
    field_append t (by omega)]

/-- The packet in front of a buffer that holds it. -/
theorem cntFormat_cut {s : List UInt8}
    (hhead : cntHeaded.bodyLen (s.take 12) = some n) (hlen : 12 + n ≤ s.length) :
    cntFormat.cut s
      = match refBody { cntHead s with body := field s 12 n } (field s 12 n) with
        | some r => .frame (12 + n) r
        | none => .bad := by
  have hbody : (s.take (12 + n)).drop 12 = field s 12 n := by
    rw [field, List.drop_take, Nat.add_sub_cancel_left]
  have hrefHead : refHead (s.take (12 + n))
      = { cntHead s with body := field s 12 n } := by
    unfold cntHead refHead
    rw [field_take (by omega), field_take (by omega), field_take (by omega),
      hbody]
  have hdec : cntHeaded.decode (s.take (12 + n))
      = refBody { cntHead s with body := field s 12 n } (field s 12 n) := by
    show refBody (refHead _) (List.drop 12 _) = _
    rw [hrefHead, hbody]
  rw [cntFormat, Headed.format_cut, Headed.cut_of_head hhead hlen, show cntHeaded.head = 12 from rfl, hdec]
  cases refBody { cntHead s with body := field s 12 n } (field s 12 n) <;> rfl

-- ================================================================ the body

theorem run_decodeWord (set : UInt32 → CntResponse) :
    run m.answer (decodeWord n set)
      = if n < 4 then .error .protocolError
        else .ok (set (UInt32.ofNat (ofBE (field (m.slice 12 n) 0 4)))) := by
  unfold decodeWord ntoh32
  simp only [run_bind, run_query, run_pure, run_ite, answer_eq]
  split
  next => rfl
  next hlong =>
    rw [field, List.drop_zero, Mem.take_slice _ _ _ _ (by omega)]
    rfl

theorem run_parseDumpRecord (r : CntResponse) :
    run m.answer (parseDumpRecord 12 n r) = refDump r (m.slice 12 n) := by
  have hfield : ∀ off len, off + len ≤ n →
      field (m.slice 12 n) off len = m.slice (12 + off) len := by
    intro off len h
    rw [field, Mem.drop_slice _ _ _ _ (by omega),
      Mem.take_slice _ _ _ _ (by omega)]
  unfold parseDumpRecord refDump ntoh32 ntoh16
  simp only [run_bind, run_query, run_pure, run_ite, answer_eq,
    Mem.length_slice]
  by_cases hzero : n = 0
  · rw [if_pos hzero, if_pos hzero]
  · rw [if_neg hzero, if_neg hzero]
    by_cases hshort : n < 10
    · rw [if_pos hshort, if_pos hshort]
    · rw [if_neg hshort, if_neg hshort, hfield 8 2 (by omega),
        hfield 0 4 (by omega), hfield 4 4 (by omega)]
      by_cases hname : n < 10 + ofBE (m.slice (12 + 8) 2)
      · rw [if_pos hname, if_pos hname]
      · rw [if_neg hname, if_neg hname, hfield 10 _ (by omega)]

/-- Decoding a body in the buffer is decoding the body. -/
theorem run_cntDecodeBody (hmem : ∀ n, (realloc n).isSome) (s : CntStatistics)
    (r : CntResponse) :
    (run m.answer (cntDecodeBody realloc s n r)).1
      = match refBody { r with body := m.slice 12 n } (m.slice 12 n) with
        | some r => .ok r
        | none => .error .protocolError := by
  unfold cntDecodeBody refBody
  simp only [run_bind, run_query, run_pure, run_ite, answer_eq,
    CNT_HEADER_SIZE, run_decodeWord, run_parseDumpRecord, Mem.length_slice]
  split
  next => rfl
  next =>
    split
    next => split <;> rfl
    next =>
      split
      next => split <;> rfl
      next =>
        split
        next =>
          obtain ⟨-, hout⟩ := run_parseStatistics hmem m 12 n s
          cases hwhole : statFormat.whole (m.slice 12 n) with
          | none =>
              rw [hwhole] at hout
              rw [if_neg (by rw [hout]; decide)]
              exact congrArg Except.error hout
          | some stats =>
              rw [hwhole] at hout
              rw [if_pos hout.1, hout.2]
              rfl
        next =>
          split
          next =>
            cases refDump { r with body := m.slice 12 n } (m.slice 12 n) with
            | none => rfl
            | some r => rfl
          next => rfl

-- ================================================================== a call

namespace CntReceiver

/-- The buffer invariant. -/
def Ok (c : CntReceiver) : Prop := c.buf.Ok CNT_RECV_SIZE

/-- The bytes received and not yet returned; a packet whose body was
rejected is one of them. -/
def pending (c : CntReceiver) : List UInt8 :=
  if c.invalid then c.buf.mem.slice 0 c.buf.used else c.buf.pending

/-- A connection and its kernel as an abstract receiver. -/
def rx (c : CntReceiver) (k : Kernel) : Rx UInt8 :=
  ⟨c.pending, k.stream, c.invalid⟩

theorem rx_of_valid {c : CntReceiver} {k : Kernel} (h : c.invalid = false) :
    c.rx k = ⟨c.buf.pending, k.stream, false⟩ := by
  rw [rx, pending, h]
  rfl

end CntReceiver

variable {c c' : CntReceiver} {k k' : Kernel} {res : Except Error CntResponse}

/-- A call that has the whole packet in the buffer. -/
theorem cntRecvPacket_moves (hmem : ∀ n, (realloc n).isSome)
    {r : CntResponse} (h : cntRecvPacket realloc c k n r = some (res, c', k'))
    (hok : c.Ok) (hlast : c.buf.lastSize = 0) (hinv : c.invalid = false)
    (hhead : cntHeaded.bodyLen (c.buf.pending.take 12) = some n)
    (hr : r = cntHead c.buf.pending) (hhave : 12 + n ≤ c.buf.used) :
    Moves cntFormat ⟨c.buf.pending, k.stream, false⟩ k res (c'.rx k') k'
      ∧ c'.Ok := by
  have hpend := RecvBuf.pending_of_last hlast
  have hcut := cntFormat_cut hhead
    (by rw [hpend, Mem.length_slice]; exact hhave)
  have hbody : field c.buf.pending 12 n = c.buf.mem.slice 12 n := by
    rw [hpend, field_slice _ hhave]
  rw [hbody, ← hr] at hcut
  have hdec := run_cntDecodeBody (m := c.buf.mem) (n := n) hmem c.stats r
  unfold cntRecvPacket at h
  dsimp only at h
  rcases hrun : run c.buf.mem.answer (cntDecodeBody realloc c.stats n r)
    with ⟨out, stats⟩
  rw [hrun] at h hdec
  cases hbodyOut : refBody { r with body := c.buf.mem.slice 12 n }
      (c.buf.mem.slice 12 n) with
  | none =>
      rw [hbodyOut] at hcut hdec
      obtain rfl : out = .error .protocolError := hdec
      cases h
      refine ⟨?_, hhave, hok.used_le, hok.recv_le⟩
      have hmove := Moves.of_bad hcut rfl (List.nil_append k.script).symm
      rw [hpend] at hmove ⊢
      exact hmove
  | some r' =>
      rw [hbodyOut] at hcut hdec
      obtain rfl : out = .ok r' := hdec
      cases h
      refine ⟨?_, hhave, hok.used_le, hok.recv_le⟩
      have hmove := Moves.of_frame hcut rfl (List.nil_append k.script).symm
      rw [hpend, Mem.drop_slice _ _ _ _ hhave, Nat.zero_add] at hmove
      rw [hpend, hinv]
      exact hmove

/-- A call that has the header in the buffer. -/
theorem cntRecvBody_moves (hmem : ∀ n, (realloc n).isSome)
    (h : cntRecvBody realloc c k = some (res, c', k'))
    (hok : c.Ok) (hlast : c.buf.lastSize = 0) (hinv : c.invalid = false)
    (hhave : 12 ≤ c.buf.used) :
    Moves cntFormat ⟨c.buf.pending, k.stream, false⟩ k res (c'.rx k') k'
      ∧ c'.Ok := by
  have hpend := RecvBuf.pending_of_last hlast
  have hlong : 12 ≤ c.buf.pending.length := by
    rw [hpend, Mem.length_slice]
    exact hhave
  unfold cntRecvBody at h
  rw [run_cntDecodeHeader hhave, ← hpend] at h
  cases hhead : cntHeaded.bodyLen (c.buf.pending.take 12) with
  | none =>
      rw [hhead] at h
      cases h
      refine ⟨?_, hok⟩
      have hmove := Moves.of_bad (F := cntFormat)
        (Headed.cut_of_head_none hlong hhead) rfl
        (List.nil_append k.script).symm
      rw [hpend] at hmove ⊢
      exact hmove
  | some n =>
      rw [hhead] at h
      simp only [Option.map_some] at h
      split at h
      next hpos =>
        split at h
        next => cases h
        next buf k₁ hfill =>
          obtain ⟨-, htook, hfull⟩ | ⟨hne, -⟩ := RecvBuf.fill_spec hfill hok
          · obtain ⟨bs, -, hp⟩ := htook.got
            have hhead' : cntHeaded.bodyLen (buf.pending.take 12) = some n := by
              rw [hp, List.take_append_of_le_length hlong]
              exact hhead
            have hr : cntHead c.buf.pending = cntHead buf.pending := by
              rw [hp, cntHead_append bs hlong]
            obtain ⟨hmove, hok'⟩ := cntRecvPacket_moves hmem h htook.ok
              (htook.last.trans hlast) hinv hhead' hr hfull
            exact ⟨.of_took htook hmove, hok'⟩
          · exact absurd rfl hne
        next e buf k₁ hnot hfill =>
          cases h
          obtain ⟨he, -⟩ | ⟨-, hfail⟩ := RecvBuf.fill_spec hfill hok
          · exact absurd he hnot
          · rw [hinv]
            exact ⟨.of_failed hfail, hfail.took.ok⟩
      next hzero =>
        exact cntRecvPacket_moves hmem h hok hlast hinv hhead rfl (by omega)

/-- One call of `yrmcds_cnt_recv`. -/
theorem yrmcdsCntRecv_moves (hmem : ∀ n, (realloc n).isSome) :
    Receives cntFormat (yrmcdsCntRecv realloc) CntReceiver.rx
      CntReceiver.Ok where
  moves {c c' k k' res} h hok := by
    unfold yrmcdsCntRecv at h
    split at h
    next hinv =>
      cases h
      rw [CntReceiver.rx, hinv]
      exact ⟨.of_dead, hok⟩
    next hinv =>
      have hinv : c.invalid = false := by simpa using hinv
      obtain ⟨hok₀, hlast₀, hpend₀⟩ := RecvBuf.shiftOut_spec hok
      rw [CntReceiver.rx_of_valid hinv, ← hpend₀]
      split at h
      next => cases h
      next buf k₁ hfill =>
        obtain ⟨-, htook, hfull⟩ | ⟨hne, -⟩ := RecvBuf.fill_spec hfill hok₀
        · obtain ⟨hmove, hok'⟩ := cntRecvBody_moves hmem h htook.ok
            (htook.last.trans hlast₀) hinv hfull
          exact ⟨.of_took htook hmove, hok'⟩
        · exact absurd rfl hne
      next e buf k₁ hnot hfill =>
        cases h
        obtain ⟨he, -⟩ | ⟨-, hfail⟩ := RecvBuf.fill_spec hfill hok₀
        · exact absurd he hnot
        · rw [hinv]
          exact ⟨.of_failed hfail, hfail.took.ok⟩

-- ============================================================ what is read

/-- Checking the header looks at the header. -/
theorem below_cntDecodeHeader (m : Mem) :
    Below 12 (asked m.answer cntDecodeHeader) := by
  unfold cntDecodeHeader byteAt ntoh32 host32
  simp only [asked_bind, asked_query, asked_pure, asked_ite, run_bind,
    run_query, run_pure]
  split <;> simp

/-- The loop looks at what is left of the body. -/
theorem below_parseStats (m : Mem) {e p : Nat} (s : CntStatistics) :
    Below e (asked m.answer (parseStats realloc e p s)) := by
  -- on what is left, as in `run_parseStats`
  induction hleft : e - p using Nat.strongRecOn generalizing p s with
  | ind left ih =>
      rw [parseStats]
      unfold ntoh16
      simp only [asked_ite, asked_bind, asked_query, asked_pure, run_query,
        run_bind, run_pure]
      by_cases hend : p < e
      · rw [if_pos hend]
        by_cases hshort : p + 4 > e
        · simp [if_pos hshort]
        · rw [if_neg hshort]
          generalize ofBE (m.answer ⟨p, 2⟩) = n
          generalize ofBE (m.answer ⟨p + 2, 2⟩) = v
          by_cases hlong : p + 4 + n + v > e
          · simp only [if_pos hlong, below_append, below_cons, below_nil,
              and_true]
            omega
          · rw [if_neg hlong]
            simp only [below_append, below_cons, below_nil, and_true]
            refine ⟨by omega, by omega, by omega, by omega, ?_⟩
            split
            next => exact ih (e - (p + 4 + n + v)) (by omega) _ rfl
            next => exact below_nil e
      · simp [if_neg hend]

theorem below_decodeWord (m : Mem) (set : UInt32 → CntResponse) :
    Below (12 + n) (asked m.answer (decodeWord n set)) := by
  unfold decodeWord ntoh32 CNT_HEADER_SIZE
  simp only [asked_bind, asked_query, asked_pure, asked_ite]
  split
  next => simp
  next =>
    simp only [below_append, below_cons, below_nil, and_true]
    omega

theorem below_parseDumpRecord (m : Mem) (r : CntResponse) :
    Below (12 + n) (asked m.answer (parseDumpRecord 12 n r)) := by
  unfold parseDumpRecord ntoh32 ntoh16
  simp only [asked_bind, asked_query, asked_pure, asked_ite, run_bind,
    run_query, run_pure]
  by_cases hzero : n = 0
  · simp [if_pos hzero]
  · rw [if_neg hzero]
    by_cases hshort : n < 10
    · simp [if_pos hshort]
    · rw [if_neg hshort]
      generalize ofBE (m.answer ⟨12 + 8, 2⟩) = len
      by_cases hname : n < 10 + len
      · simp only [if_pos hname, below_append, below_cons, below_nil, and_true]
        omega
      · simp only [if_neg hname, below_append, below_cons, below_nil, and_true]
        omega

/-- Decoding a packet looks at the packet. -/
theorem below_cntDecodeBody (m : Mem) (s : CntStatistics) (n : Nat)
    (r : CntResponse) :
    Below (12 + n) (asked m.answer (cntDecodeBody realloc s n r)) := by
  have hstats : Below (12 + n)
      (asked m.answer (parseStatistics realloc 12 n s)) := below_parseStats m _
  unfold cntDecodeBody CNT_HEADER_SIZE
  simp only [asked_bind, asked_query, asked_ite, run_query, below_append,
    below_cons, below_nil, and_true]
  refine ⟨Nat.le_refl _, ?_⟩
  split
  next => exact below_nil _
  next =>
    split
    next => exact below_append.mpr ⟨below_decodeWord m _, below_nil _⟩
    next =>
      split
      next => exact below_append.mpr ⟨below_decodeWord m _, below_nil _⟩
      next =>
        split
        next =>
          refine below_append.mpr ⟨hstats, ?_⟩
          split <;> exact below_nil _
        next =>
          split
          next =>
            refine below_append.mpr ⟨below_parseDumpRecord m _, ?_⟩
            split <;> exact below_nil _
          next => exact below_nil _

-- ================================================================== a run

/-- `yrmcds_cnt_recv` reads a stream as the one-shot reference does,
however the kernel cuts it, interrupts calls or fails them: the responses
are a prefix of the reference's, in order; a call that is not interrupted
reports a protocol error exactly in front of a packet that violates the
format; and from then on every call does. What decoding looks at lies in
the header, or in the packet of the header's length. -/
theorem cntRecvCalls_parse (hmem : ∀ n, (realloc n).isSome)
    {server : Except Error Int} {malloc : Option Mem}
    {conn : CntConn × CntReceiver}
    (hconn : yrmcdsCntConnect server malloc = .ok conn) (n : Nat)
    (stream : List UInt8) (script : List Answer) :
    let calls := cntRecvCalls realloc n conn.2 ⟨stream, script⟩
    oksOf calls <+: cntFormat.parse stream
    ∧ (∀ pre call post, calls = pre ++ call :: post →
        (call.result = .error .protocolError ↔
          cntFormat.cut (cntFormat.after (oksOf pre).length stream) = .bad
            ∧ ¬ call.Interrupted)
        ∧ ((∃ r, call.result = .ok r) ∨ call.result = .error .protocolError
          ∨ call.Interrupted)
        ∧ (call.result = .error .protocolError →
          ∀ later ∈ post, later.result = .error .protocolError))
    ∧ ∀ m : Mem, Below 12 (asked m.answer cntDecodeHeader)
      ∧ ∀ (s : CntStatistics) (bodyLen : Nat) (r : CntResponse),
        Below (12 + bodyLen)
          (asked m.answer (cntDecodeBody realloc s bodyLen r)) := by
  intro calls
  unfold yrmcdsCntConnect at hconn
  split at hconn
  next => cases hconn
  next => cases hconn
  next fd buf =>
    cases hconn
    have hok : (CntReceiver.connected buf).Ok :=
      ⟨Nat.le_refl _, Nat.zero_le _, Nat.le_refl _⟩
    obtain ⟨hread, hcalls⟩ :=
      (yrmcdsCntRecv_moves hmem).parse hok
        (show _ = Rx.mk [] stream false from rfl) n
    exact ⟨hread, hcalls, fun m => ⟨below_cntDecodeHeader m,
      fun s bodyLen r => below_cntDecodeBody m s bodyLen r⟩⟩

/-- A `Get` response in two pieces, with an interrupted and a failed call
in between: the second call returns it. -/
theorem cntRecvCalls_parse_get :
    let stream : List UInt8 := [0x91, 0x01, 0, 0, 0, 0, 0, 4, 7, 0, 0, 0,
      0, 0, 0, 5]
    let calls := cntRecvCalls (fun _ => some fun _ => ⟨[], []⟩) 3
      (CntReceiver.connected fun _ => 0)
      ⟨stream, [.eintr, .bytes 10, .block fun _ => 0, .error, .bytes 6, .eof]⟩
    oksOf calls <+: cntFormat.parse stream
    ∧ oksOf calls = [⟨7, 0, 1, [0, 0, 0, 5], 0, 5, 0, [], none⟩] :=
  ⟨(cntRecvCalls_parse (fun _ => rfl)
    (show yrmcdsCntConnect (.ok 3) (some fun _ => 0) = .ok _ from rfl)
    3 _ _).1, by decide +kernel⟩

end Yrmcds
