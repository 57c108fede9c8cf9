/-
The exchanges of the extension on both levels, and whole lives of a
connection.

Each exchange is taken apart into its calls in the same way above and
below, so that the simulation of the calls carries over by `Simulates.bind`.
Only the drain loop is different: its rounds are bounded by the length of
the script, and the two scripts differ in length. A round that goes on has
used up an event on either level, which is all the bounds need
(`drainUntil_simulates`).

`wire_refines` is the result for a run of any operations: what happens on
the bytes is what happens on the link, up to what the link does not look
at.
-/
import Yrmcds.Proofs.Wire.Refinement
import Yrmcds.Proofs.Client.Link

namespace Yrmcds

open Scripted

variable {lz : Lz4}

-- ============================================================ drain loops

/-- What a drain loop returns on the two levels. -/
def SameDrained : Except Error Response → Except Failure Reply → Prop
  | .ok r, .ok r' => r.serial = r'.serial ∧ r.status = r'.status
  | .error e, .error e' => e = e'.val
  | _, _ => False

/-- A response is only received from an event. -/
theorem Link.recv_uses {l l' : Link} {receiver : Party} {r : Reply}
    {events events' : List Event}
    (h : l.recv receiver events = some (.ok r, l', events')) : events ≠ [] := by
  intro hnil
  subst hnil
  unfold Link.recv at h
  split at h
  next => cases h
  next => cases h

theorem drainLoop_simulates (hlz : lz.Lawful) (serial : UInt32) {fuel : Nat}
    {events rest : List WireEvent} {w w' : Wire} {a : Except Error Response}
    (h : Wire.drainLoop lz serial fuel events w = some (a, w', rest)) {l : Link}
    (hs : Shows w l) :
    ∃ events' b l', (∀ fuel', events'.length < fuel' → ∀ tail,
        l.drainLoop serial fuel' (events' ++ tail) = some (b, l', tail))
      ∧ SameDrained a b ∧ Shows w' l' := by
  induction fuel generalizing events w l with
  | zero => cases h
  | succ fuel ih =>
      rw [Wire.drainLoop] at h
      obtain ⟨res, w₁, events₁, hrecv, h⟩ := bind_eq_some.mp h
      obtain ⟨pre, res', l₁, hpre, hsame, hs₁⟩ :=
        recv_simulates hlz .extension _ _ _ _ _ hrecv l hs
      replace hpre : ∀ tail, l.recv .extension (pre ++ tail)
          = some (res', l₁, tail) := hpre
      cases res with
      | err e =>
          cases res' with
          | ok r' => exact hsame.elim
          | error e' =>
              cases h
              refine ⟨pre, .error e', l₁, fun fuel' hlt tail => ?_, hsame, hs₁⟩
              obtain ⟨fuel', rfl⟩ : ∃ n, fuel' = n + 1 := ⟨fuel' - 1, by omega⟩
              rw [Link.drainLoop]
              simp only [hpre]
      | ok r =>
          cases res' with
          | error e' => exact hsame.elim
          | ok r' =>
              dsimp only at h
              by_cases hserial : r.serial ≠ serial
              · -- not the response that is waited for
                rw [if_pos hserial] at h
                have hpos : pre ≠ [] := by
                  have h := hpre []
                  rw [List.append_nil] at h
                  exact Link.recv_uses h
                have hlen : 0 < pre.length := List.length_pos_iff.mpr hpos
                obtain ⟨post, b, l', hpost, hsame', hs'⟩ := ih h hs₁
                refine ⟨pre ++ post, b, l', fun fuel' hlt tail => ?_, hsame', hs'⟩
                rw [List.length_append] at hlt
                obtain ⟨fuel', rfl⟩ : ∃ n, fuel' = n + 1 :=
                  ⟨fuel' - 1, by omega⟩
                rw [Link.drainLoop, List.append_assoc]
                simp only [hpre]
                rw [if_pos (by rw [← hsame.1]; exact hserial)]
                exact hpost fuel' (by omega) tail
              · rw [if_neg hserial] at h
                cases h
                refine ⟨pre, .ok r', l₁, fun fuel' hlt tail => ?_, hsame, hs₁⟩
                obtain ⟨fuel', rfl⟩ : ∃ n, fuel' = n + 1 :=
                  ⟨fuel' - 1, by omega⟩
                rw [Link.drainLoop]
                simp only [hpre]
                rw [if_neg (by rw [← hsame.1]; exact hserial)]

theorem drainUntil_simulates (hlz : lz.Lawful) (serial : UInt32) :
    Simulates Shows SameDrained (Wire.drainUntil lz serial)
      (linkCall fun events l => l.drainUntil serial events) := by
  intro events w a w' rest h l hs
  obtain ⟨events', b, l', hdrain, hsame, hs'⟩ :=
    drainLoop_simulates hlz serial h hs
  refine ⟨events', b, l', fun tail => hdrain _ ?_ tail, hsame, hs'⟩
  rw [List.length_append]
  omega

-- ============================================================== exchanges

/-- The destructor's exchange, cut into its calls. -/
theorem Link.unlockAndDrain_eq (timeout : Int) :
    (linkCall fun events l => l.unlockAndDrain timeout events)
      = (do
        let _ ← linkCall fun events l => l.setTimeout timeout events
        let serial ← linkCall fun events l =>
          l.send (.unlockAll false) .extension events
        match serial with
        | .error _ => pure false
        | .ok serial =>
            let r ← linkCall fun events l => l.drainUntil serial events
            match r with
            | .error _ => pure false
            | .ok r =>
                pure (decide (r.status = Status.ok
                  ∨ r.status = Status.unknownCommand))) := by
  funext events l
  show l.unlockAndDrain timeout events = _
  rw [Link.unlockAndDrain]
  cases htime : l.setTimeout timeout events with
  | none => rw [bind_none _ htime]
  | some out =>
      obtain ⟨e, l₁, events₁⟩ := out
      rw [bind_some _ htime]
      dsimp only
      cases hsend : l₁.send (.unlockAll false) .extension events₁ with
      | none => rw [bind_none _ hsend]
      | some out =>
          obtain ⟨res, l₂, events₂⟩ := out
          rw [bind_some _ hsend]
          cases res with
          | error e => rfl
          | ok serial =>
              dsimp only
              cases hdrain : l₂.drainUntil serial events₂ with
              | none => rw [bind_none _ hdrain]
              | some out =>
                  obtain ⟨res, l₃, events₃⟩ := out
                  rw [bind_some _ hdrain]
                  cases res with
                  | error e => rfl
                  | ok r => rfl

/-- The constructor's exchange, cut into its calls. -/
theorem Link.checkPersistentConnection_eq (timeout : Int) :
    (linkCall fun events l => l.checkPersistentConnection timeout events)
      = (do
        let e ← linkCall fun events l => l.setTimeout 1 events
        if e ≠ .ok then pure (e, Status.ok)
        else
          let serial ← linkCall fun events l => l.send .noop .extension events
          match serial with
          | .error e => pure (e.val, Status.ok)
          | .ok serial =>
              let r ← linkCall fun events l => l.drainUntil serial events
              match r with
              | .error e => pure (e.val, Status.ok)
              | .ok r =>
                  if r.status ≠ Status.ok then pure (.ok, r.status)
                  else
                    let e ← linkCall fun events l => l.setTimeout timeout events
                    pure (e, r.status)) := by
  funext events l
  show l.checkPersistentConnection timeout events = _
  rw [Link.checkPersistentConnection]
  cases htime : l.setTimeout 1 events with
  | none => rw [bind_none _ htime]
  | some out =>
      obtain ⟨e, l₁, events₁⟩ := out
      rw [bind_some _ htime]
      dsimp only
      by_cases he : e ≠ .ok
      · rw [if_pos he, if_pos he]
        rfl
      · rw [if_neg he, if_neg he]
        cases hsend : l₁.send .noop .extension events₁ with
        | none => rw [bind_none _ hsend]
        | some out =>
            obtain ⟨res, l₂, events₂⟩ := out
            rw [bind_some _ hsend]
            cases res with
            | error e => rfl
            | ok serial =>
                dsimp only
                cases hdrain : l₂.drainUntil serial events₂ with
                | none => rw [bind_none _ hdrain]
                | some out =>
                    obtain ⟨res, l₃, events₃⟩ := out
                    rw [bind_some _ hdrain]
                    cases res with
                    | error e => rfl
                    | ok r =>
                        dsimp only
                        by_cases hr : r.status ≠ Status.ok
                        · rw [if_pos hr, if_pos hr]
                          rfl
                        · rw [if_neg hr, if_neg hr]
                          cases htime : l₃.setTimeout timeout events₃ with
                          | none => rw [bind_none _ htime]
                          | some out =>
                              obtain ⟨e, l₄, events₄⟩ := out
                              rw [bind_some _ htime]
                              rfl

theorem unlockAndDrain_simulates (hlz : lz.Lawful) (timeout : Int) :
    Simulates Shows Eq (Wire.unlockAndDrain lz timeout)
      (linkCall fun events l => l.unlockAndDrain timeout events) := by
  rw [Link.unlockAndDrain_eq]
  refine (setTimeout_simulates timeout).bind ?_
  intro e e' _
  refine (send_simulates (.unlockall false) .extension).bind ?_
  intro res res' hsent
  cases res with
  | error e =>
      cases res' with
      | ok serial => exact hsent.elim
      | error e' => exact .pure rfl
  | ok serial =>
      cases res' with
      | error e' => exact hsent.elim
      | ok serial' =>
          obtain rfl : serial = serial' := hsent
          refine (drainUntil_simulates hlz serial).bind ?_
          intro r r' hdrained
          cases r with
          | error e =>
              cases r' with
              | ok r' => exact hdrained.elim
              | error e' => exact .pure rfl
          | ok r =>
              cases r' with
              | error e' => exact hdrained.elim
              | ok r' =>
                  refine .pure ?_
                  rw [hdrained.2]

theorem checkPersistentConnection_simulates (hlz : lz.Lawful) (timeout : Int) :
    Simulates Shows Eq (Wire.checkPersistentConnection lz timeout)
      (linkCall fun events l => l.checkPersistentConnection timeout events) := by
  rw [Link.checkPersistentConnection_eq]
  refine (setTimeout_simulates 1).bind ?_
  intro e e' he
  subst he
  by_cases hok : e ≠ .ok
  · rw [if_pos hok, if_pos hok]
    exact .pure rfl
  · rw [if_neg hok, if_neg hok]
    refine (send_simulates .noop .extension).bind ?_
    intro res res' hsent
    cases res with
    | error e =>
        cases res' with
        | ok serial => exact hsent.elim
        | error e' =>
            refine .pure ?_
            rw [show e = e'.val from hsent]
    | ok serial =>
        cases res' with
        | error e' => exact hsent.elim
        | ok serial' =>
            obtain rfl : serial = serial' := hsent
            refine (drainUntil_simulates hlz serial).bind ?_
            intro r r' hdrained
            cases r with
            | error e =>
                cases r' with
                | ok r' => exact hdrained.elim
                | error e' =>
                    refine .pure ?_
                    rw [show e = e'.val from hdrained]
            | ok r =>
                cases r' with
                | error e' => exact hdrained.elim
                | ok r' =>
                    dsimp only
                    rw [hdrained.2]
                    by_cases hstatus : r'.status ≠ Status.ok
                    · rw [if_pos hstatus, if_pos hstatus]
                      exact .pure rfl
                    · rw [if_neg hstatus, if_neg hstatus]
                      refine (setTimeout_simulates timeout).bind ?_
                      intro e e' he
                      subst he
                      exact .pure rfl

end Yrmcds
