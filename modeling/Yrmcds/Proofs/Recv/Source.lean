/-
Receiving functions as sources of responses.

A function all of whose calls are moves of the abstract receiver
(`Receives`) delivers the responses of the unread stream one by one, so a
loop that receives is the fold of its body over them (`Source.loop`). A
call fails for a reason: the stream has a violation of the format, or the
kernel or the allocator gave an answer that fails it.

In front of a response a call that nobody fails returns it
(`Receives.frame`). A function that can be made to return there
(`Finishes`) provides the responses of its stream (`Receives.provides`).
-/
import Yrmcds.Lib.Source
import Yrmcds.Proofs.Recv.Calls
import Yrmcds.Proofs.Recv.Deliver

namespace Yrmcds

open Framing

variable {σ ρ : Type} {F : Format UInt8 ρ}

/-- Why a call on stream `u`, answered from `script`, may fail with `e`. -/
def Reason (F : Format UInt8 ρ) (u : List UInt8) (script : List Answer)
    (e : Error) : Prop :=
  (e = .protocolError ∧ ∃ j, F.cut (F.after j u) = .bad)
    ∨ ∃ a ∈ script, a.Fails e

/-- A connection and its kernel that have gone on from where `u` was unread
and `script` to be answered. -/
structure GoneOn (F : Format UInt8 ρ) (rx : σ → Kernel → Rx UInt8)
    (Ok : σ → Prop) (u : List UInt8) (script : List Answer)
    (x : σ × Kernel) : Prop where
  ok : Ok x.1
  sound : (rx x.1 x.2).Sound F
  behind : ∃ j, (rx x.1 x.2).unread = F.after j u
  script : x.2.script <:+ script

/-- In front of a response there is a way for a call to return, with any
answers left for later. -/
def Finishes (F : Format UInt8 ρ)
    (recv : σ → Kernel → Option (Except Error ρ × σ × Kernel))
    (rx : σ → Kernel → Rx UInt8) (Ok : σ → Prop) : Prop :=
  ∀ {s : σ} {stream : List UInt8} {n : Nat} {r : ρ}, Ok s →
    (rx s ⟨stream, []⟩).dead = false →
    F.cut (rx s ⟨stream, []⟩).unread = .frame n r →
      ∃ script res s' stream', Serving script ∧ ∀ tail,
        recv s ⟨stream, script ++ tail⟩ = some (res, s', ⟨stream', tail⟩)

/-- No more responses are to come than there were bytes. -/
theorem GoneOn.length_parse_le {rx : σ → Kernel → Rx UInt8} {Ok : σ → Prop}
    {u : List UInt8} {script : List Answer} {x : σ × Kernel}
    (h : GoneOn F rx Ok u script x) :
    (F.parse (rx x.1 x.2).unread).length ≤ u.length := by
  obtain ⟨j, hj⟩ := h.behind
  rw [hj]
  exact (F.length_parse_le _).trans (F.length_after_le j u)

namespace Receives

variable {recv : σ → Kernel → Option (Except Error ρ × σ × Kernel)}
  {rx : σ → Kernel → Rx UInt8} {Ok : σ → Prop}

/-- A receiving function is a source of the responses of its stream. -/
theorem delivers (R : Receives F recv rx Ok) (u : List UInt8)
    (script : List Answer) :
    Source.Delivers (fun x => recv x.1 x.2) (GoneOn F rx Ok u script)
      (fun x => F.parse (rx x.1 x.2).unread)
      (fun _ => Reason F u script) where
  item {x x' r} h hx := by
    obtain ⟨hmove, hok⟩ := R.moves h hx.ok
    obtain ⟨hsound, hdead, n, hcut, hrest⟩ := hmove.call.unread hx.sound
    obtain ⟨used, hused⟩ := hmove.script
    obtain ⟨j, hj⟩ := hx.behind
    refine ⟨?_, hok, hsound, ⟨j + 1, ?_⟩, ?_⟩
    · rw [F.parse_frame hcut, hrest]
    · rw [hj] at hcut
      rw [hrest, hj, F.after_succ_of_cut hcut]
    · have hsuffix := hx.script
      rw [hused] at hsuffix
      exact (List.suffix_append used x'.2.script).trans hsuffix
  error {x x' e} h hx := by
    obtain ⟨hmove, hok⟩ := R.moves h hx.ok
    obtain ⟨hsound, hmeans⟩ := hmove.call.unread hx.sound
    obtain ⟨used, hused⟩ := hmove.script
    obtain ⟨j, hj⟩ := hx.behind
    have hscript : x'.2.script <:+ script := by
      have hsuffix := hx.script
      rw [hused] at hsuffix
      exact (List.suffix_append used x'.2.script).trans hsuffix
    by_cases he : e = .protocolError
    · subst he
      obtain ⟨hcut, -, hsame⟩ := hmeans
      refine ⟨by rw [hsame], ⟨hok, hsound, ⟨j, hsame.trans hj⟩, hscript⟩, ?_⟩
      exact .inl ⟨rfl, j, by rw [← hj]; exact hcut⟩
    · obtain ⟨used', a, hs, ha⟩ := hmove.failure e rfl he
      rw [absResult_of_fails ha] at hmeans
      obtain ⟨-, hsame⟩ := hmeans
      refine ⟨by rw [hsame], ⟨hok, hsound, ⟨j, hsame.trans hj⟩, hscript⟩, ?_⟩
      refine .inr ⟨a, ?_, ha⟩
      apply hx.script.subset
      rw [hs]
      exact List.mem_append_right _ (List.mem_cons_self ..)

/-- In front of a response a call that nobody fails returns it. -/
theorem frame (R : Receives F recv rx Ok) {s s' : σ} {k k' : Kernel}
    {res : Except Error ρ} {n : Nat} {r : ρ} (hok : Ok s)
    (hdead : (rx s k).dead = false) (hk : Serving k.script)
    (hcut : F.cut (rx s k).unread = .frame n r)
    (h : recv s k = some (res, s', k')) :
    res = .ok r ∧ Ok s' ∧ (rx s' k').dead = false
      ∧ (rx s' k').unread = (rx s k).unread.drop n := by
  obtain ⟨hmove, hok'⟩ := R.moves h hok
  have hsound : (rx s k).Sound F := fun hd =>
    absurd (hdead.symm.trans hd) Bool.false_ne_true
  have hmeans := (hmove.call.unread hsound).2
  cases res with
  | ok r' =>
      obtain ⟨hdead', n', hcut', hrest⟩ := hmeans
      cases hcut'.symm.trans hcut
      exact ⟨rfl, hok', hdead', hrest⟩
  | error e =>
      by_cases he : e = .protocolError
      · subst he
        cases hmeans.1.symm.trans hcut
      · obtain ⟨used, a, hs, ha⟩ := hmove.failure e rfl he
        have hmem : a ∈ k.script := by
          rw [hs]
          exact List.mem_append_right _ (List.mem_cons_self ..)
        exact absurd ha ((hk a hmem).not_fails e)

/-- A receiving function that can be made to return in front of a response
provides those of its stream. -/
theorem provides (R : Receives F recv rx Ok) (hfin : Finishes F recv rx Ok)
    (hrx : ∀ s stream script,
      rx s ⟨stream, script⟩ = rx s ⟨stream, []⟩) :
    Source.Provides (fun x => recv x.1 x.2)
      (fun (x : σ × List UInt8) script => (x.1, ⟨x.2, script⟩)) Answer.Serves
      (fun x => Ok x.1 ∧ (rx x.1 ⟨x.2, []⟩).dead = false)
      (fun x => F.parse (rx x.1 ⟨x.2, []⟩).unread) where
  item {x r rest} hx hitems := by
    obtain ⟨s, stream⟩ := x
    obtain ⟨hok, hdead⟩ := hx
    obtain ⟨n, hcut, hrest⟩ := F.parse_cons hitems
    obtain ⟨script, res, s', stream', hserve, hcall⟩ := hfin hok hdead hcut
    have hcall₀ := hcall []
    rw [List.append_nil] at hcall₀
    rw [← hrx s stream script] at hdead hcut
    obtain ⟨rfl, hok', hdead', hunread⟩ := R.frame hok hdead hserve hcut hcall₀
    rw [hrx s stream script] at hunread
    refine ⟨script, (s', stream'), hserve, ⟨hok', hdead'⟩, ?_, hcall⟩
    rw [← hrest, hunread]

end Receives

end Yrmcds
