/-
The commands of `yc` with one response.

`noop`, `version` and `quit` receive once, so a process ends as the first
response to its request says, or because something outside fails it
(`single_exits`). With `-q` there is no response to `quit`, and it does not
receive.
-/
import Yrmcds.Proofs.Yc.Commands

namespace Yrmcds

open Gather Framing

namespace Yc

variable {lz : Lz4} {compression : Nat}

/-- The commands that receive once: what they send, and what they show. -/
inductive Single : Bool → List UInt8 → Command → (Response → List UInt8) → Prop
  | noop {quiet : Bool} : Single quiet (ascii "noop") .noop fun _ => ascii "OK\n"
  | version {quiet : Bool} :
      Single quiet (ascii "version") .version fun r => text r.data ++ [10]
  | quit : Single false (ascii "quit") .quit fun _ => []

/-- They send one request and receive once. -/
theorem Single.plan {quiet : Bool} {name : List UInt8} {command : Command}
    {shown : Response → List UInt8} (h : Single quiet name command shown)
    (lz : Lz4) :
    ∃ cmd request, commands.lookup name = some (.inr cmd)
      ∧ (∀ argv a, cmd.plan lz quiet argv a
        = some (.ok ⟨request, false, single lz shown⟩))
      ∧ ∀ c block, request.passed lz c block
        = some ⟨command, 0, .none, .none, .none⟩ := by
  cases h with
  | noop => exact ⟨.noop, .noop, rfl, fun _ _ => rfl, fun _ _ => rfl⟩
  | version => exact ⟨.version, .version, rfl, fun _ _ => rfl, fun _ _ => rfl⟩
  | quit => exact ⟨.quit, .quit false, rfl, fun _ _ => rfl, fun _ _ => rfl⟩

/-- A command with one response ends as that says: with status 0 and what
it shows, or with 3. It can end so, and ends otherwise, with nothing
printed, only because something outside fails it. -/
theorem single_exits (hlz : lz.Lawful) (sv : Responder) {quiet : Bool}
    {name : List UInt8} {command : Command} {shown : Response → List UInt8}
    (hcmd : Single quiet name command shown) (argv : List (List UInt8))
    {r : Response} {rest : List Response}
    (hfirst : sv.responses [⟨command, 1, 0, [], [], []⟩] = r :: rest) :
    let exit : Exit := if r.status ≠ Status.ok then ⟨3, []⟩ else ⟨0, shown r⟩
    (∃ a : Setting, ¬ Outside a
      ∧ mainNamed lz sv.peer quiet compression name argv a = some exit)
    ∧ ∀ (a : Setting) (e : Exit),
      mainNamed lz sv.peer quiet compression name argv a = some e →
      e = exit ∨ (e = ⟨2, []⟩ ∧ Outside a) := by
  obtain ⟨cmd, request, hname, hplan, hpass⟩ := hcmd.plan lz
  have hloops := loops_single lz request false shown
  have hsome : ∀ (a : Setting) (c : Conn), Fresh compression c →
      (request.passed lz c a.block).isSome := by
    intro a c _
    rw [hpass c]
    rfl
  have hstop : once shown [] r = .error (some (if r.status ≠ Status.ok then
      ⟨3, []⟩ else ⟨0, shown r⟩)) := by
    rw [once]
    split <;> rfl
  constructor
  · let a : Setting := ⟨⟨.ok 3, none, [], [], [], []⟩, none, true⟩
    obtain ⟨c, p, bytes, ms, hp, -, rfl, hrun⟩ :=
      mainNamed_finishes hlz sv hname (hplan argv a) hloops (hsome a)
    obtain rfl := Option.some.inj ((hpass c _).symm.trans hp)
    obtain ⟨a', -, hout, -, hend⟩ := hrun _
      ((congrArg (List.foldlM _ []) hfirst).trans
        (Source.foldlM_cons_error rest hstop))
    exact ⟨a', hout, hend⟩
  · intro a e h
    obtain ⟨rfl, hout⟩ | ⟨c, p, bytes, ms, hp, -, -, rfl, hend⟩ :=
      mainNamed_answered hlz hname (hplan argv a) hloops (hsome a) h
    · exact .inr ⟨rfl, hout⟩
    · obtain rfl := Option.some.inj ((hpass c _).symm.trans hp)
      dsimp only at hend
      rw [if_neg Bool.false_ne_true, show sv.responses
        [Packet.message ⟨command, 0, .none, .none, .none⟩ 1] = r :: rest
        from hfirst] at hend
      obtain hfold | ⟨taken, out, htaken, hfold, rfl, hout⟩ := hend
      · rw [Source.foldlM_cons_error rest hstop] at hfold
        cases hfold
        exact .inl rfl
      · obtain ⟨-, rfl⟩ := Source.foldlM_unstopped hstop htaken hfold
        exact .inr ⟨rfl, hout⟩

end Yc

end Yrmcds
