/-
PHP integers on their way to the wire and to the socket.

A method that takes an integer for 32 bits of its extras narrows it in the
same way, whichever method it is; only the place differs (`narrowed`).
What is read there from the bytes written (`Narrowed.Carried.written`) is
the integer that was given exactly when that fits (`Narrowed.word_eq_iff`).
`flush` and `setTimeout` clamp as well, one before the narrowing and the
other after, so that each has a condition of its own.
`method_integers_iff` puts the three together.

Compressed data is marked by a bit of the flags that the caller may not
use. `mark` is that bit, where it is set.
-/
import Yrmcds.Model.Methods
import Yrmcds.Proofs.Client.Link
import Yrmcds.Proofs.Send.Requests

namespace Yrmcds

open Endian Gather Run

-- ============================================================== narrowing

theorem toNat_toUint32 (v : Int64) :
    ((toUint32 v).toNat : Int) = v.toInt % 2 ^ 32 := by
  have hpos : 0 ≤ v.toInt % 2 ^ 32 := Int.emod_nonneg _ (by decide)
  have hlt : v.toInt % 2 ^ 32 < 2 ^ 32 := Int.emod_lt_of_pos _ (by decide)
  have hnat : (v.toInt % 2 ^ 32).toNat < 2 ^ 32 := by omega
  rw [toUint32, UInt32.toNat_ofNat_of_lt' hnat, Int.toNat_of_nonneg hpos]

/-- Narrowing keeps what fits, and nothing else. -/
theorem toUint32_eq_iff (v : Int64) :
    ((toUint32 v).toNat : Int) = v.toInt ↔ 0 ≤ v.toInt ∧ v.toInt < 2 ^ 32 := by
  rw [toNat_toUint32]
  omega

/-- The flags with the mark, when the caller has not set it. -/
theorem toNat_or_mark {flags : UInt32} (h : flags &&& FLAG_COMPRESS = 0) :
    (flags ||| FLAG_COMPRESS).toNat = flags.toNat + FLAG_COMPRESS.toNat := by
  have hand : flags.toBitVec &&& FLAG_COMPRESS.toBitVec = 0 :=
    congrArg UInt32.toBitVec h
  have hsum := BitVec.add_eq_or_of_and_eq_zero _ _ hand
  have hnat := BitVec.toNat_add_of_and_eq_zero hand
  rw [hsum] at hnat
  exact hnat

-- ================================================================ the places

/-- An integer that a method narrows into its extras: the place, and what
is added on the way. -/
structure Narrowed where
  value : Int64
  off : Nat
  mark : Nat

/-- What data of this length adds to the flags on a connection. -/
def flagMark (c : Conn) (data : Str) : Nat :=
  let len := (data.getD []).length
  if c.compressSize > 0 ∧ len > c.compressSize then FLAG_COMPRESS.toNat else 0

/-- The integers that a method narrows into its extras. -/
def Method.narrowed (c : Conn) : Method → List Narrowed
  | getTouch _ expire _ | getkTouch _ expire _ | touch _ expire _ =>
      [⟨expire, 0, 0⟩]
  | set _ data flags expire _ _ | replace _ data flags expire _ _
  | add _ data flags expire _ _ | replaceUnlock _ data flags expire _ =>
      [⟨flags, 0, flagMark c data⟩, ⟨expire, 4, 0⟩]
  | incr2 _ _ _ expire _ | decr2 _ _ _ expire _ => [⟨expire, 16, 0⟩]
  | _ => []

/-- What the extras hold at the place of an integer. -/
def Narrowed.word (n : Narrowed) : Nat := (toUint32 n.value).toNat + n.mark

/-- The extras hold the integer at its place. -/
def Narrowed.Carried (n : Narrowed) (extras : Ptr) : Prop :=
  n.word < 2 ^ 32 ∧ ∃ before after,
    extras = .buf (before ++ (toBE 4 n.word ++ after)) ∧ before.length = n.off

/-- It was carried unchanged, up to what was added, exactly when it
fits. -/
theorem Narrowed.word_eq_iff (n : Narrowed) :
    (n.word : Int) = n.value.toInt + n.mark
      ↔ 0 ≤ n.value.toInt ∧ n.value.toInt < 2 ^ 32 := by
  rw [← toUint32_eq_iff, word]
  omega

-- ============================================================== each method

section packets

variable {lz : Lz4} {c : Conn} {malloc : Bool} {keyPrefix : Str} {p : Packet}

/-- A method with a packet has made its request. -/
theorem Method.packet_inv {m : Method}
    (h : m.packet lz c malloc keyPrefix = some p) :
    ∃ request, m.check keyPrefix = .ok (.send request)
      ∧ request.packet lz c malloc = .ok p ∧ ¬ p.rejected := by
  unfold Method.packet at h
  split at h
  next request hcheck =>
    refine ⟨request, hcheck, ?_⟩
    unfold Request.passed at h
    split at h
    next => cases h
    next q hq =>
      split at h
      next => cases h
      next hrej =>
        cases h
        exact ⟨hq, hrej⟩
  next => cases h

/-- The request of a method. -/
theorem sending_inv {made : Except ArgError Request} {r : Request}
    (h : sending made = .ok (.send r)) : made = .ok r := by
  obtain ⟨r', hmade, heq⟩ := map_ok h
  cases heq
  exact hmade

theorem keyMethod_inv {key : Str} {request : Ptr → Request} {r : Request}
    (h : sending (Client.keyMethod keyPrefix key request) = .ok (.send r)) :
    ∃ k, r = request k := by
  obtain ⟨k, -, heq⟩ := bind_ok (sending_inv h)
  cases heq
  exact ⟨_, rfl⟩

theorem nonEmpty_eq {e : ArgError} {s : Str} {bs : List UInt8}
    (h : nonEmpty e s = .ok bs) : bs = s.getD [] := by
  unfold nonEmpty at h
  split at h <;> cases h
  rfl

theorem dataMethod_inv {key data : Str} {request : Ptr → Ptr → Request}
    {r : Request}
    (h : sending (Client.dataMethod keyPrefix key data request)
      = .ok (.send r)) :
    ∃ k, r = request k (.buf (data.getD [])) := by
  obtain ⟨k, -, hrest⟩ := bind_ok (sending_inv h)
  obtain ⟨d, hd, heq⟩ := bind_ok hrest
  cases heq
  rw [nonEmpty_eq hd]
  exact ⟨_, rfl⟩

theorem keyCommand_extras {cmd : Command} {key extras : Ptr}
    (h : keyCommand cmd key extras = .ok p) : p.extras = extras := by
  unfold keyCommand at h
  split at h <;> cases h
  rfl

/-- The extras of a command with data: the flags, with their mark if the
data is compressed, and the expiration. -/
theorem sendData_extras {cmd : Command} {key : Ptr} {data : Str}
    {flags expire : UInt32} {cas : UInt64}
    (h : sendData lz c malloc cmd key (.buf (data.getD [])) flags expire cas
      = .ok p) :
    flags.toNat + flagMark c data < 2 ^ 32
      ∧ p.extras = .buf (toBE 4 (flags.toNat + flagMark c data)
        ++ toBE 4 expire.toNat) := by
  unfold sendData at h
  split at h
  next => cases h
  next =>
    split at h
    next hbig =>
      have hmark : flagMark c data = FLAG_COMPRESS.toNat := if_pos hbig
      split at h
      next => cases h
      next hflags =>
        split at h
        next => cases h
        next =>
          dsimp only at h
          split at h <;> cases h
          rw [hmark, ← toNat_or_mark (Decidable.of_not_not hflags)]
          exact ⟨UInt32.toNat_lt _, rfl⟩
    next hsmall =>
      have hmark : flagMark c data = 0 := if_neg hsmall
      cases h
      rw [hmark, Nat.add_zero]
      exact ⟨UInt32.toNat_lt _, rfl⟩

/-- The flags and the expiration of a method with data. -/
theorem sendData_carried {cmd : Command} {key : Ptr} {data : Str}
    {flags expire : Int64} {cas : UInt64}
    (h : sendData lz c malloc cmd key (.buf (data.getD [])) (toUint32 flags)
      (toUint32 expire) cas = .ok p) :
    ∀ n ∈ [Narrowed.mk flags 0 (flagMark c data), ⟨expire, 4, 0⟩],
      n.Carried p.extras := by
  obtain ⟨hlt, hextras⟩ := sendData_extras h
  intro n hn
  rcases List.mem_pair.mp hn with rfl | rfl
  · exact ⟨hlt, [], _, hextras, rfl⟩
  · refine ⟨UInt32.toNat_lt _,
      toBE 4 ((toUint32 flags).toNat + flagMark c data), [], ?_, by simp⟩
    rw [hextras, List.append_nil]
    rfl

/-- The expiration of a method with a key. -/
theorem keyCommand_carried {cmd : Command} {key : Ptr} {expire : Int64}
    (h : keyCommand cmd key (.buf (toBE 4 (toUint32 expire).toNat)) = .ok p) :
    ∀ n ∈ [Narrowed.mk expire 0 0], n.Carried p.extras := by
  intro n hn
  rw [List.mem_singleton.mp hn, keyCommand_extras h]
  refine ⟨UInt32.toNat_lt _, [], [], ?_, rfl⟩
  rw [List.append_nil]
  rfl

/-- The expiration of a counter method. -/
theorem counter_carried {cmd : Command} {key : Ptr} {value initial : UInt64}
    {expire : Int64}
    (h : keyCommand cmd key (counterExtras value initial (toUint32 expire))
      = .ok p) :
    ∀ n ∈ [Narrowed.mk expire 16 0], n.Carried p.extras := by
  intro n hn
  rw [List.mem_singleton.mp hn, keyCommand_extras h]
  refine ⟨UInt32.toNat_lt _, toBE 8 value.toNat ++ toBE 8 initial.toNat, [],
    ?_, by simp⟩
  rw [List.append_nil]
  rfl

theorem incr2_inv {key : Str} {value initial expire : Int64} {quiet : Bool}
    {r : Request}
    (h : sending (Client.incr2 keyPrefix key value initial expire quiet)
      = .ok (.send r)) :
    ∃ k v i, r = .incr2 k v i (toUint32 expire) quiet := by
  obtain ⟨k, -, hrest⟩ := bind_ok (sending_inv h)
  obtain ⟨v, -, hrest⟩ := bind_ok hrest
  obtain ⟨i, -, heq⟩ := bind_ok hrest
  cases heq
  exact ⟨_, _, _, rfl⟩

theorem decr2_inv {key : Str} {value initial expire : Int64} {quiet : Bool}
    {r : Request}
    (h : sending (Client.decr2 keyPrefix key value initial expire quiet)
      = .ok (.send r)) :
    ∃ k v i, r = .decr2 k v i (toUint32 expire) quiet := by
  obtain ⟨k, -, hrest⟩ := bind_ok (sending_inv h)
  obtain ⟨v, -, hrest⟩ := bind_ok hrest
  obtain ⟨i, -, heq⟩ := bind_ok hrest
  cases heq
  exact ⟨_, _, _, rfl⟩

/-- Whatever the method, its integers are in its extras, narrowed. -/
theorem Method.carried {m : Method}
    (h : m.packet lz c malloc keyPrefix = some p) :
    ∀ n ∈ m.narrowed c, n.Carried p.extras := by
  obtain ⟨request, hcheck, hpacket, -⟩ := packet_inv h
  cases m with
  | getTouch key expire quiet =>
      obtain ⟨k, rfl⟩ := keyMethod_inv hcheck
      exact keyCommand_carried hpacket
  | getkTouch key expire quiet =>
      obtain ⟨k, rfl⟩ := keyMethod_inv hcheck
      exact keyCommand_carried hpacket
  | touch key expire quiet =>
      obtain ⟨k, rfl⟩ := keyMethod_inv hcheck
      exact keyCommand_carried hpacket
  | set key data flags expire cas quiet =>
      obtain ⟨k, rfl⟩ := dataMethod_inv hcheck
      exact sendData_carried hpacket
  | replace key data flags expire cas quiet =>
      obtain ⟨k, rfl⟩ := dataMethod_inv hcheck
      exact sendData_carried hpacket
  | add key data flags expire cas quiet =>
      obtain ⟨k, rfl⟩ := dataMethod_inv hcheck
      exact sendData_carried hpacket
  | replaceUnlock key data flags expire quiet =>
      obtain ⟨k, rfl⟩ := dataMethod_inv hcheck
      exact sendData_carried hpacket
  | incr2 key value initial expire quiet =>
      obtain ⟨k, v, i, rfl⟩ := incr2_inv hcheck
      exact counter_carried hpacket
  | decr2 key value initial expire quiet =>
      obtain ⟨k, v, i, rfl⟩ := decr2_inv hcheck
      exact counter_carried hpacket
  | _ =>
      intro n hn
      cases hn

theorem yrmcdsFlush_extras {delay : UInt32} {quiet : Bool}
    (h : yrmcdsFlush delay quiet = .ok p) :
    ofBE p.extras.bytes = delay.toNat := by
  unfold yrmcdsFlush bareCommand at h
  split at h
  next hzero =>
    cases h
    rw [hzero]
    rfl
  next =>
    cases h
    exact ofBE_toBE_of_lt (UInt32.toNat_lt _)

theorem Method.flush_extras {delay : Int64} {quiet : Bool}
    (h : (Method.flush delay quiet).packet lz c malloc keyPrefix = some p) :
    (ofBE p.extras.bytes : Int) = max delay.toInt 0 % 2 ^ 32 := by
  obtain ⟨request, hcheck, hpacket, -⟩ := packet_inv h
  cases hcheck
  have hclamp : (if delay.toInt < 0 then (0 : Int64) else delay).toInt
      = max delay.toInt 0 := by
    split
    next hneg => exact (Int.max_eq_right (Int.le_of_lt hneg)).symm
    next hpos => exact (Int.max_eq_left (Int.not_lt.mp hpos)).symm
  have hword := toNat_toUint32 (if delay.toInt < 0 then 0 else delay)
  rw [hclamp] at hword
  rw [← hword]
  exact congrArg Int.ofNat (yrmcdsFlush_extras hpacket)

-- ============================================================= on the wire

/-- A command that returned OK has its extras behind the header. -/
theorem written_extras {acks : List Ack} (hrej : ¬ p.rejected)
    (hok : (sendCommand c p acks).result = some .ok) :
    field (sendCommand c p acks).written 24 p.extras.len = p.extras.bytes
      ∧ field (sendCommand c p acks).written 4 1 = [UInt8.ofNat p.extras.len] := by
  obtain ⟨-, -, -, hlen, -⟩ := p.header_fields (c.serial + 1)
  have hbytes : p.extras.bytes.length = p.extras.len := by
    apply Ptr.length_bytes
    simp only [Packet.rejected, not_or] at hrej
    exact hrej.2.2.2.2.2.1
  rw [(sendCommand_spec acks hrej).of_ok hok]
  constructor
  · rw [Packet.frame, List.append_assoc, List.append_assoc,
      field_skip 24 (p.length_header _) (by omega), field_here hbytes]
  · rw [Packet.field_frame (c.serial + 1) (by decide), hlen]

/-- What is written at the place of an integer. -/
theorem Narrowed.Carried.written {n : Narrowed} {acks : List Ack}
    (h : n.Carried p.extras) (hrej : ¬ p.rejected)
    (hok : (sendCommand c p acks).result = some .ok) :
    ofBE (field (sendCommand c p acks).written (24 + n.off) 4) = n.word := by
  obtain ⟨hlt, before, after, hextras, hoff⟩ := h
  rw [(sendCommand_spec acks hrej).of_ok hok, Packet.frame, List.append_assoc,
    List.append_assoc, field_skip 24 (p.length_header _) (by omega), hextras]
  show ofBE (field ((before ++ (toBE 4 n.word ++ after)) ++ _) _ 4) = _
  rw [List.append_assoc, List.append_assoc, field_skip n.off hoff (by omega),
    show 24 + n.off - 24 - n.off = 0 by omega, field_here (length_toBE ..),
    ofBE_toBE_of_lt hlt]

end packets

-- ============================================================== the timeout

/-- `setTimeout` narrows first: what is left of the clamp. -/
theorem setTimeout_eq_iff (t : Int64) :
    Client.setTimeout t = max t.toInt 0 ↔ t.toInt < 2 ^ 31
      ∧ (t.toInt < 0 → t.toInt % 2 ^ 32 = 0 ∨ 2 ^ 31 ≤ t.toInt % 2 ^ 32) := by
  simp only [Client.setTimeout, toInt, Int.bmod]
  omega

-- =========================================================== every integer

/-- When is an integer used as it was given? One that goes into 32 bits of
the extras when it fits them; the delay of `flush`, which is clamped
before, when it is below `2 ^ 32`; a timeout, which is clamped after,
when it is below `2 ^ 31` and what is left of a negative one is not
positive. -/
theorem method_integers_iff (lz : Lz4) (c : Conn) (malloc : Bool)
    (keyPrefix : Str) (acks : List Ack) :
    (∀ (m : Method) (p : Packet), m.packet lz c malloc keyPrefix = some p →
      let sent := sendCommand c p acks
      sent.result = some .ok → ∀ n ∈ m.narrowed c,
        ((ofBE (field sent.written (24 + n.off) 4) : Int)
            = n.value.toInt + n.mark
          ↔ 0 ≤ n.value.toInt ∧ n.value.toInt < 2 ^ 32))
    ∧ (∀ (delay : Int64) (quiet : Bool) (p : Packet),
      (Method.flush delay quiet).packet lz c malloc keyPrefix = some p →
      let sent := sendCommand c p acks
      sent.result = some .ok →
        ((ofBE (field sent.written 24 (ofBE (field sent.written 4 1))) : Int)
            = max delay.toInt 0
          ↔ delay.toInt < 2 ^ 32))
    ∧ ∀ (timeout : Int64) (l l' : Link) (events rest : List Event),
      l.setTimeout (Client.setTimeout timeout) events = some (.ok, l', rest) →
        (l'.rcvTimeout = max timeout.toInt 0
            ∧ l'.sndTimeout = max timeout.toInt 0
          ↔ timeout.toInt < 2 ^ 31 ∧ (timeout.toInt < 0 →
            timeout.toInt % 2 ^ 32 = 0
              ∨ 2 ^ 31 ≤ timeout.toInt % 2 ^ 32)) := by
  refine ⟨?_, ?_, ?_⟩
  · intro m p hp sent hok n hn
    obtain ⟨-, -, -, hrej⟩ := Method.packet_inv hp
    rw [(Method.carried hp n hn).written hrej hok]
    exact n.word_eq_iff
  · intro delay quiet p hp sent hok
    obtain ⟨-, -, -, hrej⟩ := Method.packet_inv hp
    obtain ⟨hextras, hlen⟩ := written_extras hrej hok
    obtain ⟨-, hlt, -⟩ := p.lengths_lt hrej
    rw [hlen, ofBE_singleton hlt, hextras, Method.flush_extras hp]
    omega
  · intro timeout l l' events rest h
    obtain ⟨-, rfl⟩ := Link.setTimeout_ok h
    rw [← setTimeout_eq_iff]
    exact ⟨fun hboth => hboth.1, fun heq => ⟨heq, heq⟩⟩

/-- A `getTouch`, a delayed `flush` and a timeout that fit. -/
theorem method_integers_fit :
    let c := Conn.connected 3 fun _ => 0
    let touched := sendCommand c ⟨.gat, 0, .buf [107], .buf [0, 0, 1, 44],
      .none⟩ [.took 29]
    let flushed := sendCommand c ⟨.flush, 0, .none, .buf [0, 0, 0, 5], .none⟩
      [.took 28]
    (ofBE (field touched.written 24 4) : Int) = 300 + (0 : Nat)
      ∧ (ofBE (field flushed.written 24 (ofBE (field flushed.written 4 1)))
        : Int) = max 5 0
      ∧ Client.setTimeout 7 = max 7 0 := by
  refine ⟨?_, ?_, ?_⟩
  · exact ((method_integers_iff Lz4.literals _ true none _).1
      (.getTouch (some [107]) 300 false) _ rfl rfl ⟨300, 0, 0⟩
      (List.mem_singleton_self _)).mpr (by decide)
  · exact ((method_integers_iff Lz4.literals _ true none _).2.1 5 false _ rfl
      rfl).mpr (by decide)
  · exact (((method_integers_iff Lz4.literals (.connected 3 fun _ => 0) true
      none []).2.2 7 (Link.connected 3) _ [.sockopt true, .sockopt true] []
        rfl).mpr (by decide)).1

/-- A flush in `2 ^ 32` seconds is a flush now. -/
theorem flush_two_pow :
    ¬ ∀ (lz : Lz4) (c : Conn) (malloc : Bool) (keyPrefix : Str)
      (delay : Int64) (quiet : Bool) (p : Packet) (acks : List Ack),
      (Method.flush delay quiet).packet lz c malloc keyPrefix = some p →
      let sent := sendCommand c p acks
      sent.result = some .ok →
        (ofBE (field sent.written 24 (ofBE (field sent.written 4 1))) : Int)
          = max delay.toInt 0 := by
  intro h
  have hflush := h Lz4.literals (Conn.connected 3 fun _ => 0) true none
    4294967296 false ⟨.flush, 0, .none, .none, .none⟩ [.took 24] rfl rfl
  exact absurd hflush (by decide)

end Yrmcds
