/-
What session handlers rely on: the documented behaviour of a yrmcds
server, and a server that behaves so.

A lock belongs to a connection. Nobody else changes, removes or releases
the object while it is held, and it does not expire. `lockGet` locks an
object that exists and is not locked; `replaceUnlock` needs the lock and
releases it; `set` stores unless another connection holds the lock.
-/
import Mathlib.Logic.Function.Basic
import Yrmcds.Model.Session

namespace Yrmcds

namespace Session

variable {σ : Type}

/-- The documented behaviour of the server. -/
structure Server.Lawful (sv : Server σ) : Prop where
  /-- A request is about one object. -/
  frame : ∀ s k r id, r.id ≠ id →
    sv.object (sv.serve s k r).1 id = sv.object s id
      ∧ sv.holder (sv.serve s k r).1 id = sv.holder s id
  /-- A locked object is changed by its holder only. -/
  others : ∀ s k r j, sv.holder s r.id = some j → j ≠ k →
    sv.object (sv.serve s k r).1 r.id = sv.object s r.id
      ∧ sv.holder (sv.serve s k r).1 r.id = some j
  /-- Nobody gets a lock for another connection. -/
  takes : ∀ s k r j, sv.holder (sv.serve s k r).1 r.id = some j →
    sv.holder s r.id = some j ∨ j = k
  lockGet_missing : ∀ s k id, sv.object s id = none →
    ∃ text, (sv.serve s k (.lockGet id)).2 = some (Status.notFound, text)
  lockGet_locked : ∀ s k id j, sv.holder s id = some j → j ≠ k →
    ∃ text, (sv.serve s k (.lockGet id)).2 = some (Status.locked, text)
  lockGet_free : ∀ s k id data, sv.object s id = some data →
    sv.holder s id = none →
      sv.object (sv.serve s k (.lockGet id)).1 id = some data
        ∧ sv.holder (sv.serve s k (.lockGet id)).1 id = some k
        ∧ (sv.serve s k (.lockGet id)).2 = some (Status.ok, data)
  lockGet_own : ∀ s k id, sv.holder s id = some k →
    sv.object (sv.serve s k (.lockGet id)).1 id = sv.object s id
      ∧ sv.holder (sv.serve s k (.lockGet id)).1 id = some k
      ∧ ∀ data, (sv.serve s k (.lockGet id)).2 = some (Status.ok, data) →
        sv.object s id = some data
  touch_keeps : ∀ s k id expire, sv.holder s id = some k →
    sv.object (sv.serve s k (.touch id expire)).1 id = sv.object s id
      ∧ sv.holder (sv.serve s k (.touch id expire)).1 id = some k
  getTouch_keeps : ∀ s k id expire, sv.holder s id = some k →
    sv.object (sv.serve s k (.getTouch id expire)).1 id = sv.object s id
      ∧ sv.holder (sv.serve s k (.getTouch id expire)).1 id = some k
  set_stores : ∀ s k id data expire,
    (∀ j, sv.holder s id = some j → j = k) →
      sv.object (sv.serve s k (.set id data expire)).1 id = some data
  replaceUnlock_stores : ∀ s k id data expire, sv.holder s id = some k →
    sv.object (sv.serve s k (.replaceUnlock id data expire)).1 id = some data
  replaceUnlock_fails : ∀ s k id data expire, sv.holder s id ≠ some k →
    sv.object (sv.serve s k (.replaceUnlock id data expire)).1 id
      = sv.object s id
  hangup_others : ∀ s k id j, sv.holder s id = some j → j ≠ k →
    sv.object (sv.hangup s k) id = sv.object s id
      ∧ sv.holder (sv.hangup s k) id = some j
  hangup_takes : ∀ s k id j, sv.holder (sv.hangup s k) id = some j →
    sv.holder s id = some j
  expire_keeps : ∀ s id id' j, sv.holder s id = some j →
    sv.object (sv.expire s id') id = sv.object s id
      ∧ sv.holder (sv.expire s id') id = some j
  expire_takes : ∀ s id id' j, sv.holder (sv.expire s id') id = some j →
    sv.holder s id = some j

/-- An object, and who has locked it. -/
structure Item where
  data : Str
  lock : Option Nat
  deriving DecidableEq

/-- The objects of a server. -/
abbrev Store := Str → Option Item

namespace Store

/-- Another connection than `k` holds the lock. -/
def lockedFor (s : Store) (k : Nat) (id : Str) : Bool :=
  ((s id).bind Item.lock).any (· ≠ k)

/-- Perform a request. Quiet ones are answered only when they fail. -/
def serve (s : Store) (k : Nat) : Request → Store × Option (Status × Str)
  | .lockGet id =>
      match s id with
      | none => (s, some (Status.notFound, []))
      | some item =>
          if s.lockedFor k id then (s, some (Status.locked, []))
          else (Function.update s id (some ⟨item.data, some k⟩),
            some (Status.ok, item.data))
  | .touch id _ =>
      match s id with
      | none => (s, some (Status.notFound, []))
      | some _ => (s, some (Status.ok, []))
  | .getTouch id _ =>
      match s id with
      | none => (s, some (Status.notFound, []))
      | some item => (s, some (Status.ok, item.data))
  | .delete id =>
      if s.lockedFor k id then (s, some (Status.locked, []))
      else
        match s id with
        | none => (s, some (Status.notFound, []))
        | some _ => (Function.update s id none, none)
  | .replaceUnlock id data _ =>
      if (s id).bind Item.lock = some k then
        (Function.update s id (some ⟨data, none⟩), none)
      else (s, some (Status.notLocked, []))
  | .set id data _ =>
      if s.lockedFor k id then (s, some (Status.locked, []))
      else (Function.update s id (some ⟨data, (s id).bind Item.lock⟩), none)

/-- The locks of a connection are released. -/
def hangup (s : Store) (k : Nat) : Store := fun id =>
  (s id).map fun item =>
    if item.lock = some k then { item with lock := none } else item

/-- An object that is not locked is dropped. -/
def expire (s : Store) (id : Str) : Store :=
  if ((s id).bind Item.lock).isSome then s else Function.update s id none

/-- A server that behaves as documented. -/
def server : Server Store where
  serve := serve
  hangup := hangup
  expire := expire
  object s id := (s id).map Item.data
  holder s id := (s id).bind Item.lock

/-- One object, which nobody has locked. -/
def single (id data : Str) : Store :=
  Function.update (fun _ => none) id (some ⟨data, none⟩)

variable {s : Store} {k j : Nat} {id : Str} {item : Item}

theorem not_lockedFor (h : ¬ s.lockedFor k id = true) :
    ∀ j, (s id).bind Item.lock = some j → j = k := by
  intro j hj
  rw [lockedFor, hj] at h
  simpa using h

theorem lockedFor_of (hj : (s id).bind Item.lock = some j) (hne : j ≠ k) :
    s.lockedFor k id = true := by
  rw [lockedFor, hj]
  simpa using hne

/-- A request does nothing, or changes its own object, which no other
connection has locked or gets locked. -/
theorem serve_cases (s : Store) (k : Nat) (r : Request) :
    (s.serve k r).1 = s ∨ ∃ item?,
      (s.serve k r).1 = Function.update s r.id item?
        ∧ (∀ j, (s r.id).bind Item.lock = some j → j = k)
        ∧ ∀ j, item?.bind Item.lock = some j →
          (s r.id).bind Item.lock = some j ∨ j = k := by
  cases r with
  | lockGet id =>
      rw [serve]
      split
      next => exact .inl rfl
      next item _ =>
        split
        next => exact .inl rfl
        next hn =>
          exact .inr ⟨_, rfl, not_lockedFor hn,
            fun j hj => .inr (Option.some.inj hj).symm⟩
  | touch id =>
      rw [serve]
      split <;> exact .inl rfl
  | getTouch id =>
      rw [serve]
      split <;> exact .inl rfl
  | delete id =>
      rw [serve]
      split
      next => exact .inl rfl
      next hn =>
        split
        next => exact .inl rfl
        next => exact .inr ⟨none, rfl, not_lockedFor hn, nofun⟩
  | replaceUnlock id data =>
      rw [serve]
      split
      next hk =>
        refine .inr ⟨some ⟨data, none⟩, rfl, fun j hj => ?_, nofun⟩
        exact (Option.some.inj (hk.symm.trans hj)).symm
      next => exact .inl rfl
  | set id data =>
      rw [serve]
      split
      next => exact .inl rfl
      next hn =>
        exact .inr ⟨_, rfl, not_lockedFor hn, fun j hj => .inl hj⟩

/-- The store behaves as documented. -/
theorem lawful : server.Lawful where
  frame s k r id hne := by
    show ((s.serve k r).1 id).map _ = _ ∧ ((s.serve k r).1 id).bind _ = _
    rcases serve_cases s k r with h | ⟨item?, h, -⟩
    · rw [h]
      exact ⟨rfl, rfl⟩
    · rw [h, Function.update_of_ne hne.symm]
      exact ⟨rfl, rfl⟩
  others s k r j hj hne := by
    show ((s.serve k r).1 r.id).map _ = _ ∧ ((s.serve k r).1 r.id).bind _ = _
    rcases serve_cases s k r with h | ⟨item?, -, hown, -⟩
    · rw [h]
      exact ⟨rfl, hj⟩
    · exact absurd (hown j hj) hne
  takes s k r j hj := by
    change ((s.serve k r).1 r.id).bind _ = _ at hj
    rcases serve_cases s k r with h | ⟨item?, h, -, hlock⟩
    · rw [h] at hj
      exact .inl hj
    · rw [h, Function.update_self] at hj
      exact hlock j hj
  lockGet_missing s k id h := by
    have hnone : s id = none := Option.map_eq_none_iff.mp h
    refine ⟨[], ?_⟩
    show (s.serve k (.lockGet id)).2 = _
    rw [serve, hnone]
  lockGet_locked s k id j hj hne := by
    obtain ⟨item, hitem, -⟩ := Option.bind_eq_some_iff.mp hj
    refine ⟨[], ?_⟩
    show (s.serve k (.lockGet id)).2 = _
    rw [serve, hitem]
    exact congrArg Prod.snd (if_pos (lockedFor_of hj hne))
  lockGet_free s k id data hd hfree := by
    obtain ⟨item, hitem, rfl⟩ := Option.map_eq_some_iff.mp hd
    have hn : ¬ s.lockedFor k id = true := by
      rw [lockedFor, show (s id).bind Item.lock = none from hfree]
      simp
    show ((s.serve k (.lockGet id)).1 id).map _ = _
      ∧ ((s.serve k (.lockGet id)).1 id).bind _ = _
      ∧ (s.serve k (.lockGet id)).2 = _
    rw [serve, hitem]
    dsimp only
    rw [if_neg hn]
    dsimp only
    rw [Function.update_self]
    exact ⟨rfl, rfl, rfl⟩
  lockGet_own s k id h := by
    obtain ⟨item, hitem, hlock⟩ := Option.bind_eq_some_iff.mp h
    have hn : ¬ s.lockedFor k id = true := by
      rw [lockedFor, show (s id).bind Item.lock = some k from h]
      simp
    show ((s.serve k (.lockGet id)).1 id).map _ = (s id).map _
      ∧ ((s.serve k (.lockGet id)).1 id).bind _ = _
      ∧ ∀ data, (s.serve k (.lockGet id)).2 = _ → (s id).map _ = _
    rw [serve, hitem]
    dsimp only
    rw [if_neg hn]
    dsimp only
    rw [Function.update_self]
    exact ⟨rfl, rfl, fun data hd => congrArg (Option.map Prod.snd) hd⟩
  touch_keeps s k id expire h := by
    show ((s.serve k (.touch id expire)).1 id).map _ = (s id).map _
      ∧ ((s.serve k (.touch id expire)).1 id).bind _ = _
    rw [serve]
    split <;> exact ⟨rfl, h⟩
  getTouch_keeps s k id expire h := by
    show ((s.serve k (.getTouch id expire)).1 id).map _ = (s id).map _
      ∧ ((s.serve k (.getTouch id expire)).1 id).bind _ = _
    rw [serve]
    split <;> exact ⟨rfl, h⟩
  set_stores s k id data expire h := by
    have hn : ¬ s.lockedFor k id = true := by
      intro hfor
      rw [lockedFor, Option.any_eq_true] at hfor
      obtain ⟨j, hj, hne⟩ := hfor
      exact absurd (h j hj) (by simpa using hne)
    show ((s.serve k (.set id data expire)).1 id).map _ = _
    rw [serve, if_neg hn]
    dsimp only
    rw [Function.update_self]
    rfl
  replaceUnlock_stores s k id data expire h := by
    have hk : (s id).bind Item.lock = some k := h
    show ((s.serve k (.replaceUnlock id data expire)).1 id).map _ = _
    rw [serve, if_pos hk]
    dsimp only
    rw [Function.update_self]
    rfl
  replaceUnlock_fails s k id data expire h := by
    have hk : ¬ (s id).bind Item.lock = some k := h
    show ((s.serve k (.replaceUnlock id data expire)).1 id).map _ = _
    rw [serve, if_neg hk]
    rfl
  hangup_others s k id j hj hne := by
    obtain ⟨item, hitem, hlock⟩ := Option.bind_eq_some_iff.mp hj
    have hn : ¬ item.lock = some k := by
      rw [hlock]
      simpa using hne
    have hsame : s.hangup k id = s id := by
      rw [hangup, hitem, Option.map_some, if_neg hn]
    show (s.hangup k id).map _ = _ ∧ (s.hangup k id).bind _ = _
    rw [hsame]
    exact ⟨rfl, hj⟩
  hangup_takes s k id j hj := by
    change (s.hangup k id).bind _ = _ at hj
    obtain ⟨item', hitem', hlock⟩ := Option.bind_eq_some_iff.mp hj
    obtain ⟨item, hitem, rfl⟩ := Option.map_eq_some_iff.mp hitem'
    split at hlock
    next => cases hlock
    next => exact Option.bind_eq_some_iff.mpr ⟨item, hitem, hlock⟩
  expire_keeps s id id' j hj := by
    show (s.expire id' id).map _ = _ ∧ (s.expire id' id).bind _ = _
    rw [expire]
    split
    next => exact ⟨rfl, hj⟩
    next hn =>
      have hne : id ≠ id' := by
        rintro rfl
        exact hn (by rw [show (s id).bind Item.lock = some j from hj]; rfl)
      rw [Function.update_of_ne hne]
      exact ⟨rfl, hj⟩
  expire_takes s id id' j hj := by
    change (s.expire id' id).bind _ = _ at hj
    rw [expire] at hj
    split at hj
    next => exact hj
    next =>
      by_cases hid : id = id'
      · subst hid
        rw [Function.update_self] at hj
        cases hj
      · rw [Function.update_of_ne hid] at hj
        exact hj

end Store

end Session

end Yrmcds
