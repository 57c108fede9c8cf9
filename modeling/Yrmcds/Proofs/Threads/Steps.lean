/-
What one step of one thread can do.

`Does` has a constructor for every step there is, with what the step
needs and the state it leaves (`step_does`); everything that runs keep is
derived from it. Most steps of a sender only move the sender on, and
`Threads.moved` is the state such a step leaves.
-/
import Yrmcds.Lib.Run
import Yrmcds.Model.Threads

namespace Yrmcds

open Gather

variable {T : Type} [DecidableEq T] {lz : Lz4}

/-- A call that returns before the mutex. -/
def Request.Refused (lz : Lz4) (c : Conn) (request : Request) (malloc : Bool)
    (e : Error) : Prop :=
  request.packet lz c malloc = .error e
  ∨ ∃ p, request.packet lz c malloc = .ok p ∧ p.rejected ∧ e = .badArgument

namespace Threads

/-- A sender has moved on and written to what it shares with the
others. -/
def moved (w : Threads T) (t : T) (pc : SendPc) (serial : UInt32)
    (wire : List UInt8) : Threads T :=
  { w.goto t pc with conn := { w.conn with serial }, wire }

/-- The steps there are. -/
inductive Does (lz : Lz4) (w : Threads T) : ThreadAct T → Threads T → Prop where
  | refused {t : T} {request : Request} {malloc : Bool} {e : Error}
      (idle : w.senders t = .idle)
      (refused : request.Refused lz w.conn malloc e) :
      Does lz w (.call t request malloc) (w.return_ ⟨t, e, none⟩)
  | accepted {t : T} {request : Request} {malloc : Bool} {p : Packet}
      (idle : w.senders t = .idle)
      (packet : request.packet lz w.conn malloc = .ok p)
      (accepted : ¬ p.rejected) :
      Does lz w (.call t request malloc) (w.goto t (.lock p))
  | lock {t : T} {p : Packet} (pc : w.senders t = .lock p)
      (free : w.owner = none) :
      Does lz w (.go t) { w.goto t (.load p) with owner := some t }
  | load {t : T} {p : Packet} (pc : w.senders t = .load p) :
      Does lz w (.go t)
        (w.moved t (.store p (w.conn.serial + 1)) w.conn.serial w.wire)
  | store {t : T} {p : Packet} {sum : UInt32}
      (pc : w.senders t = .store p sum) :
      Does lz w (.go t) (w.moved t (.fill p) sum w.wire)
  | fill {t : T} {p : Packet} (pc : w.senders t = .fill p) :
      Does lz w (.go t)
        (w.moved t (.report p w.conn.serial) w.conn.serial w.wire)
  | report {t : T} {p : Packet} {header : UInt32}
      (pc : w.senders t = .report p header) :
      Does lz w (.go t) (w.moved t (.write p w.conn.serial
        (p.iov header ++ List.replicate (4 - (p.iov header).length) [])
        (p.iov header).length) w.conn.serial w.wire)
  | leave {t : T} {p : Packet} {out : UInt32} {iov : List (List UInt8)}
      (pc : w.senders t = .write p out iov 0) :
      Does lz w (.go t) (w.moved t (.unlock p out .ok) w.conn.serial w.wire)
  | unlock {t : T} {p : Packet} {out : UInt32} {ret : Error}
      (pc : w.senders t = .unlock p out ret) :
      Does lz w (.go t) { w.goto t .idle with
        owner := none
        returned := w.returned ++ [⟨t, ret, some (p, out)⟩] }
  | again {t : T} : Does lz w (.writev t .again) w
  | fail {t : T} {p : Packet} {out : UInt32} {iov : List (List UInt8)}
      {iovcnt : Nat} (pc : w.senders t = .write p out iov (iovcnt + 1)) :
      Does lz w (.writev t .refused)
        (w.moved t (.unlock p out .systemError) w.conn.serial w.wire)
  | took {t : T} {p : Packet} {out : UInt32} {iov iov' : List (List UInt8)}
      {iovcnt iovcnt' n : Nat}
      (pc : w.senders t = .write p out iov (iovcnt + 1))
      (le : n ≤ (iov.take (iovcnt + 1)).flatten.length)
      (advanced : advance iov (iovcnt + 1) n = some (iov', iovcnt')) :
      Does lz w (.writev t (.took n)) (w.moved t (.write p out iov' iovcnt')
        w.conn.serial (w.wire ++ (iov.take (iovcnt + 1)).flatten.take n))
  | recv {receiver : RecvPc} {conn : Conn} {kernel : Kernel}
      {result : Option RecvResult}
      (received : recvStep lz w.receiver w.conn w.kernel
        = some (receiver, conn, kernel, result)) :
      Does lz w .recv { w with
        receiver, conn, kernel, results := w.results ++ result.toList }

/-- A step is one of them. -/
theorem step_does {w w' : Threads T} {a : ThreadAct T}
    (h : step lz w a = .ok w') : Does lz w a w' := by
  cases a with
  | call t request malloc =>
      rw [step] at h
      split at h
      next hpc =>
        cases h
        unfold call
        split
        next e hpacket => exact .refused hpc (.inl hpacket)
        next p hpacket =>
          split
          next hrej => exact .refused hpc (.inr ⟨p, hpacket, hrej, rfl⟩)
          next hrej => exact .accepted hpc hpacket hrej
      next => cases h
  | go t =>
      rw [step] at h
      unfold go at h
      split at h
      next p hpc =>
        split at h
        next hfree =>
          cases h
          exact .lock hpc (Option.isNone_iff_eq_none.mp hfree)
        next => cases h
      next hpc => cases h; exact .load hpc
      next hpc => cases h; exact .store hpc
      next hpc => cases h; exact .fill hpc
      next hpc => cases h; exact .report hpc
      next hpc => cases h; exact .leave hpc
      next hpc => cases h; exact .unlock hpc
      next => cases h
  | writev t ack =>
      rw [step] at h
      unfold writev at h
      split at h
      next => cases h; exact .again
      next hpc => cases h; exact .fail hpc
      next hpc =>
        dsimp only at h
        split at h
        next hn =>
          split at h
          next => cases h
          next hadv => cases h; exact .took hpc hn.2 hadv
        next => cases h
      next => cases h
  | recv =>
      rw [step, recv] at h
      split at h
      next => cases h
      next hstep => cases h; exact .recv hstep

end Threads

end Yrmcds
