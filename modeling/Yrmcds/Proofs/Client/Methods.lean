/-
Methods of objects without a connection.

A method that passes its argument checks follows `obj->conn` unseen: it
forms `&obj->conn->res` from `NULL` exactly when the object has no
connection (`method_nullPointer_iff`). Which objects have one is a matter
of the run: exactly those for which a constructor has returned without
throwing (`conn_iff_constructed`). Nothing else an object can go through
sets or clears `obj->conn`.
-/
import Yrmcds.Model.Methods
import Yrmcds.Proofs.Client.Ownership

namespace Yrmcds

open Run

-- ============================================================== one method

namespace Php

variable {s s' : Php} {o : Nat} {events : List Event}

/-- A call on the connection of an object. -/
theorem onConn_nullPointer_iff {α : Type} {obj : ClientObject}
    (call : LinkCall α) (ho : s.object o = some obj) :
    s.onConn o call events = .error .nullPointer ↔ obj.conn = none := by
  obtain ⟨conn?⟩ := obj
  unfold onConn
  rw [ho]
  cases conn? with
  | none => exact iff_of_true rfl rfl
  | some i =>
      refine iff_of_false ?_ (Option.some_ne_none i)
      dsimp only
      unfold deref
      cases s.conn i with
      | none =>
          intro h
          cases h
      | some c =>
          dsimp only [bind, Except.bind]
          cases call events c.res with
          | none =>
              intro h
              cases h
          | some out =>
              intro h
              cases h

theorem perform_nullPointer_iff {obj : ClientObject} (call : Prepared)
    (ho : s.object o = some obj) :
    s.perform o call events = .error .nullPointer ↔ obj.conn = none := by
  cases call with
  | setTimeout timeout => exact bind_error_iff.trans (onConn_nullPointer_iff _ ho)
  | recv => exact bind_error_iff.trans (onConn_nullPointer_iff _ ho)
  | send request => exact bind_error_iff.trans (onConn_nullPointer_iff _ ho)

/-- A method that goes on changes the process as a call does. -/
theorem perform_cases {call : Prepared} {r : Reported} (hs : Linked s)
    (h : s.perform o call events = .ok (r, s')) :
    ∃ op, op.caller = some o ∧ Stepped s op s' := by
  have hcases : ∀ (op : Op) {α : Type} {call : LinkCall α} {f : α → Reported},
      op.caller = some o → op.events = events →
      LinkCall.Within op.scope call →
      (do let (a, s) ← s.onConn o call events; .ok (f a, s))
        = (.ok (r, s') : Except Stop (Reported × Php)) →
      ∃ op, op.caller = some o ∧ Stepped s op s' := by
    intro op α call f hop hev hw h
    rcases onConn_cases hs (op.scope_events.trans hev) hw
      with ⟨e, he, -⟩ | ⟨a, i, c, res, hok, ho, hc, hx⟩
    · rw [he] at h
      cases h
    · rw [hok] at h
      cases h
      exact ⟨op, hop, .called hop ho hc hx⟩
  cases call with
  | setTimeout timeout =>
      exact hcases (.setTimeout o timeout events) rfl rfl
        (Link.setTimeout_within _ trivial) h
  | recv =>
      exact hcases (.recv o events) rfl rfl (Link.recv_within _) h
  | send request =>
      exact hcases (.command o request.kind events) rfl rfl
        (Link.send_within _ rfl) h

end Php

-- ============================================================= one operation

namespace Script

variable {s s' : Script} {op : ScriptOp}

/-- What holds of the process of any script. -/
def Sound (s : Script) : Prop := ∃ slack, Php.Owned slack s.php

theorem sound_start (ini : Ini) : Sound (start ini) :=
  ⟨_, Php.owned_start ini⟩

theorem Sound.linked (h : Sound s) : Php.Linked s.php := by
  obtain ⟨slack, h⟩ := h
  exact h.toLinked

theorem Sound.stepped {php : Php} {op : Op} (h : Sound s)
    (hx : Php.Stepped s.php op php) : ∃ slack, Php.Owned slack php := by
  obtain ⟨slack, h⟩ := h
  obtain ⟨slack', h', -⟩ := Php.owned_step h hx
  exact ⟨slack', h'⟩

/-- The objects that have a connection. -/
def Connected (s : Script) (o : Nat) : Prop :=
  ∃ i, s.php.object o = some ⟨some i⟩

/-- A constructor that returns gives the object its connection, and one
that throws leaves all objects as they are. -/
theorem construct_objects {o : Nat} {persistId keyPrefix : List UInt8}
    {events : List Event} {t : Option Thrown} (hs : Sound s)
    (h : s.construct o persistId keyPrefix events = .ok (t, s')) :
    (t ≠ none ∧ s'.php.objects = s.php.objects)
    ∨ (t = none ∧ (∃ obj, s.php.object o = some obj)
      ∧ ∃ i, s'.php.objects = s.php.objects.set o (some ⟨some i⟩)) := by
  unfold construct at h
  obtain ⟨⟨t', php⟩, hc, heq⟩ := bind_ok h
  cases heq
  unfold Php.construct at hc
  cases ho : s.php.object o with
  | none =>
      rw [ho] at hc
      cases hc
  | some obj =>
      rw [ho] at hc
      dsimp only [bind, Except.bind] at hc
      rcases Php.obtainConn_cases hs.linked persistId events
        with hb | ⟨r, s₁, hr, hx⟩
      · rw [hb] at hc
        cases hc
      · rw [hr] at hc
        have hobj := hx.objects
        match r with
        | .error t =>
            cases hc
            exact .inl ⟨Option.some_ne_none _, hobj⟩
        | .ok (i, none) =>
            cases hc
            refine .inr ⟨rfl, ⟨obj, rfl⟩, i, ?_⟩
            show s₁.objects.set o _ = _
            rw [hobj]
        | .ok (i, some key) =>
            dsimp only at hc
            rw [Php.hashUpdate_eq hx.vacant] at hc
            cases hc
            refine .inr ⟨rfl, ⟨obj, rfl⟩, i, ?_⟩
            show s₁.objects.set o _ = _
            rw [hobj]

theorem stepped_of_step {php : Php} {op : Op} (hs : Sound s)
    (h : s.php.step op = .ok php) : Php.Stepped s.php op php := by
  rcases Php.step_cases hs.linked op with ⟨e, he, -⟩ | ⟨php', hok, hx⟩
  · rw [he] at h
    cases h
  · rw [hok] at h
    cases h
    exact hx

theorem construct_stepped {o : Nat} {persistId keyPrefix : List UInt8}
    {events : List Event} {t : Option Thrown} (hs : Sound s)
    (h : s.construct o persistId keyPrefix events = .ok (t, s')) :
    Php.Stepped s.php (.construct o persistId events) s'.php := by
  apply stepped_of_step hs
  unfold construct at h
  obtain ⟨⟨t', php⟩, hc, heq⟩ := bind_ok h
  cases heq
  unfold Php.step
  dsimp only
  rw [hc]
  rfl

theorem delete_stepped {o : Nat} {events : List Event} (hs : Sound s)
    (h : s.step (.delete o events) = .ok s') :
    Php.Stepped s.php (.delete o events) s'.php := by
  apply stepped_of_step hs
  unfold step at h
  obtain ⟨php, hc, heq⟩ := bind_ok h
  cases heq
  exact hc

/-- A method that ends leaves the process as it is or makes a call. -/
theorem method_stepped {o : Nat} {m : Method} {events : List Event}
    {r : Reported} (hs : Sound s) (h : s.method o m events = .ok (r, s')) :
    s' = s ∨ ∃ op, op.caller = some o ∧ Php.Stepped s.php op s'.php := by
  unfold method at h
  split at h
  next => cases h
  next =>
    split at h
    next =>
      cases h
      exact .inl rfl
    next call hcall =>
      obtain ⟨⟨r', php⟩, hp, heq⟩ := bind_ok h
      cases heq
      exact .inr (Php.perform_cases hs.linked hp)

/-- A step is that of its operation. -/
theorem step_ok (h : s.step op = .ok s') :
    (op = .new ∧ s' = { s with php := s.php.clientNew })
    ∨ (∃ o persistId keyPrefix events t,
      op = .construct o persistId keyPrefix events
        ∧ s.construct o persistId keyPrefix events = .ok (t, s'))
    ∨ (∃ o m events r, op = .method o m events
      ∧ s.method o m events = .ok (r, s'))
    ∨ ∃ o events, op = .delete o events := by
  cases op with
  | new =>
      cases h
      exact .inl ⟨rfl, rfl⟩
  | construct o persistId keyPrefix events =>
      unfold step at h
      obtain ⟨⟨t, s₁⟩, hc, heq⟩ := bind_ok h
      cases heq
      exact .inr (.inl ⟨o, persistId, keyPrefix, events, t, rfl, hc⟩)
  | method o m events =>
      unfold step at h
      obtain ⟨⟨r, s₁⟩, hm, heq⟩ := bind_ok h
      cases heq
      exact .inr (.inr (.inl ⟨o, m, events, r, rfl, hm⟩))
  | delete o events => exact .inr (.inr (.inr ⟨o, events, rfl⟩))

theorem step_sound (hs : Sound s) (h : s.step op = .ok s') : Sound s' := by
  rcases step_ok h with ⟨rfl, rfl⟩ | ⟨o, persistId, keyPrefix, events, t, rfl, hc⟩
    | ⟨o, m, events, r, rfl, hm⟩ | ⟨o, events, rfl⟩
  · exact hs.stepped .new
  · exact hs.stepped (construct_stepped hs hc)
  · rcases method_stepped hs hm with rfl | ⟨op, -, hx⟩
    · exact hs
    · exact hs.stepped hx
  · exact hs.stepped (delete_stepped hs h)

theorem delete_objects {php : Php} {o : Nat} {events : List Event}
    (hx : Php.Stepped s.php (.delete o events) php) :
    php.objects = s.php.objects.set o none := by
  cases hx with
  | called hop => cases hop
  | deleted => rfl
  | destructed _ _ _ hx =>
      show List.set _ _ _ = _
      rw [hx.objects]

theorem called_objects {php : Php} {op : Op} {o : Nat}
    (hop : op.caller = some o) (hx : Php.Stepped s.php op php) :
    php.objects = s.php.objects := by
  cases hx with
  | called => rfl
  | _ => cases hop

/-- What an operation does to the objects: one more, without connection,
or one that gets a connection because its constructor returns, or one
less, or nothing. -/
theorem step_objects (hs : Sound s) (h : s.step op = .ok s') :
    (s'.php.objects = s.php.objects ++ [some ⟨none⟩] ∧ s.returns op = none)
    ∨ (∃ o obj i, s.php.object o = some obj
      ∧ s'.php.objects = s.php.objects.set o (some ⟨some i⟩)
      ∧ s.returns op = some o)
    ∨ (∃ o, s'.php.objects = s.php.objects.set o none ∧ s.returns op = none)
    ∨ (s'.php.objects = s.php.objects ∧ s.returns op = none) := by
  rcases step_ok h with ⟨rfl, rfl⟩ | ⟨o, persistId, keyPrefix, events, t, rfl, hc⟩
    | ⟨o, m, events, r, rfl, hm⟩ | ⟨o, events, rfl⟩
  · exact .inl ⟨rfl, rfl⟩
  · have hret : s.returns (.construct o persistId keyPrefix events)
        = if t = none then some o else none := by
      unfold returns
      dsimp only
      rw [hc]
      cases t with
      | none => rfl
      | some t => rfl
    rcases construct_objects hs hc with ⟨ht, hobj⟩ | ⟨rfl, ⟨obj, ho⟩, i, hobj⟩
    · rw [if_neg ht] at hret
      exact .inr (.inr (.inr ⟨hobj, hret⟩))
    · rw [if_pos rfl] at hret
      exact .inr (.inl ⟨o, obj, i, ho, hobj, hret⟩)
  · rcases method_stepped hs hm with rfl | ⟨op, hop, hx⟩
    · exact .inr (.inr (.inr ⟨rfl, rfl⟩))
    · exact .inr (.inr (.inr ⟨called_objects hop hx, rfl⟩))
  · exact .inr (.inr (.inl ⟨o, delete_objects (delete_stepped hs h), rfl⟩))

-- ============================================================ over a run

/-- An object that has been deleted. -/
def Gone (s : Script) (o : Nat) : Prop :=
  o < s.php.objects.length ∧ s.php.object o = none

/-- Deleted objects do not come back. -/
theorem Gone.step {o : Nat} (hs : Sound s) (h : s.step op = .ok s')
    (hgone : s.Gone o) : s'.Gone o := by
  obtain ⟨hlt, hnone⟩ := hgone
  unfold Gone Php.object at *
  rcases step_objects hs h with ⟨hobj, -⟩ | ⟨o', obj, i, ho, hobj, -⟩
    | ⟨o', hobj, -⟩ | ⟨hobj, -⟩
  · rw [hobj, List.length_append, Slots.get_append, if_neg (Nat.ne_of_lt hlt)]
    exact ⟨Nat.lt_add_right _ hlt, hnone⟩
  · have hne : o ≠ o' := by
      rintro rfl
      exact Option.some_ne_none _ (ho.symm.trans hnone)
    rw [hobj, List.length_set, Slots.get_set_ne hne]
    exact ⟨hlt, hnone⟩
  · rw [hobj, List.length_set]
    refine ⟨hlt, ?_⟩
    by_cases heq : o = o'
    · rw [heq, Slots.get_set (by rw [← heq]; exact hlt), if_pos rfl]
    · rw [Slots.get_set_ne heq]
      exact hnone
  · rw [hobj]
    exact ⟨hlt, hnone⟩

/-- After a step an object has a connection if its constructor returned in
it, or if it had one and is not gone. -/
theorem step_connected (hs : Sound s) (h : s.step op = .ok s') {o : Nat}
    (hgone : ¬ s'.Gone o) :
    s'.Connected o ↔ s.returns op = some o ∨ s.Connected o := by
  unfold Gone Connected Php.object at *
  rcases step_objects hs h with ⟨hobj, hret⟩ | ⟨o', obj, i, ho, hobj, hret⟩
    | ⟨o', hobj, hret⟩ | ⟨hobj, hret⟩
  · rw [hobj, hret, Slots.get_append]
    by_cases heq : o = s.php.objects.length
    · rw [if_pos heq, Slots.get_of_le (Nat.le_of_eq heq.symm)]
      refine iff_of_false ?_ ?_
      · rintro ⟨i, hi⟩
        cases hi
      · rintro (hi | ⟨i, hi⟩) <;> cases hi
    · rw [if_neg heq]
      exact ⟨.inr, fun hor => hor.resolve_left fun hn => by cases hn⟩
  · rw [hobj, hret, Slots.get_set (Slots.lt_of_get ho)]
    by_cases heq : o = o'
    · rw [if_pos heq, heq]
      exact iff_of_true ⟨i, rfl⟩ (.inl rfl)
    · rw [if_neg heq]
      exact ⟨.inr, fun hor => hor.resolve_left fun hsome =>
        heq (Option.some.inj hsome).symm⟩
  · rw [hobj, List.length_set] at hgone
    rw [hobj, hret]
    by_cases heq : o = o'
    · rw [heq] at hgone ⊢
      have hlen : s.php.objects.length ≤ o' := by
        refine Nat.le_of_not_lt fun hlt => hgone ⟨hlt, ?_⟩
        rw [Slots.get_set hlt, if_pos rfl]
      rw [List.set_eq_of_length_le hlen]
      exact ⟨.inr, fun hor => hor.resolve_left fun hn => by cases hn⟩
    · rw [Slots.get_set_ne heq]
      exact ⟨.inr, fun hor => hor.resolve_left fun hn => by cases hn⟩
  · rw [hobj, hret]
    exact ⟨.inr, fun hor => hor.resolve_left fun hn => by cases hn⟩

theorem run_gone {ops : List ScriptOp} {o : Nat} (hs : Sound s)
    (hrun : exec step s ops = .ok s') (hgone : s.Gone o) : s'.Gone o :=
  (exec_inv (I := fun s : Script => s.Sound ∧ s.Gone o) (P := fun _ _ => True)
    (fun _ _ _ hw _ h => ⟨step_sound hw.1 h, hw.2.step hw.1 h⟩) ⟨hs, hgone⟩
    guarded_true hrun).2

/-- The objects that have a connection are those for which a constructor
has returned without throwing. -/
theorem conn_iff_constructed {ops : List ScriptOp} {o : Nat} (hs : Sound s)
    (hrun : exec step s ops = .ok s') (hgone : ¬ s'.Gone o) :
    s'.Connected o ↔ o ∈ s.constructed ops ∨ s.Connected o := by
  induction ops generalizing s with
  | nil =>
      cases hrun
      rw [constructed]
      exact ⟨.inr, fun hor => hor.resolve_left (List.not_mem_nil)⟩
  | cons op ops ih =>
      rw [exec] at hrun
      rw [constructed]
      cases hstep : s.step op with
      | error e =>
          rw [hstep] at hrun
          cases hrun
      | ok s₁ =>
          rw [hstep] at hrun
          have hs₁ := step_sound hs hstep
          have hgone₁ : ¬ s₁.Gone o := fun h => hgone (run_gone hs₁ hrun h)
          rw [ih hs₁ hrun, step_connected hs hstep hgone₁, List.mem_append,
            Option.mem_toList]
          constructor
          · rintro (h | h | h)
            · exact .inl (.inr h)
            · exact .inl (.inl h)
            · exact .inr h
          · rintro ((h | h) | h)
            · exact .inr (.inl h)
            · exact .inl h
            · exact .inr (.inr h)

-- ============================================================= every method

/-- A method of an object stops at `NULL` when it passes its checks and
the object has no connection. -/
theorem method_nullPointer {o : Nat} {obj : ClientObject} {m : Method}
    {events : List Event} (ho : s.php.object o = some obj) :
    s.method o m events = .error .nullPointer ↔
      (∃ call, m.check (s.prefixes o) = .ok call) ∧ ¬ s.Connected o := by
  have hconn : obj.conn = none ↔ ¬ s.Connected o := by
    unfold Connected
    rw [ho]
    obtain ⟨conn?⟩ := obj
    cases conn? with
    | none =>
        apply iff_of_true rfl
        rintro ⟨i, hi⟩
        cases hi
    | some i => exact iff_of_false (Option.some_ne_none i) (not_not_intro ⟨i, rfl⟩)
  unfold method
  rw [ho]
  dsimp only
  cases hcheck : m.check (s.prefixes o) with
  | error e =>
      apply iff_of_false (fun h => by cases h)
      rintro ⟨⟨call, hcall⟩, -⟩
      cases hcall
  | ok call =>
      refine (bind_error_iff.trans
        ((Php.perform_nullPointer_iff call ho).trans hconn)).trans ?_
      exact ⟨fun h => ⟨⟨call, rfl⟩, h⟩, fun h => h.2⟩

/-- Nothing but a method stops at `NULL`. -/
theorem step_nullPointer (hs : Sound s) (h : s.step op = .error .nullPointer) :
    ∃ o m events, op = .method o m events
      ∧ s.method o m events = .error .nullPointer := by
  cases op with
  | new => cases h
  | construct o persistId keyPrefix events =>
      exfalso
      have hc : s.php.construct o persistId events = .error .nullPointer :=
        bind_error_iff.mp (bind_error_iff.mp h)
      unfold Php.construct at hc
      cases ho : s.php.object o with
      | none =>
          rw [ho] at hc
          cases hc
      | some obj =>
          rw [ho] at hc
          dsimp only [bind, Except.bind] at hc
          rcases Php.obtainConn_cases hs.linked persistId events
            with hb | ⟨r, s₁, hr, hx⟩
          · rw [hb] at hc
            cases hc
          · rw [hr] at hc
            match r with
            | .error t => cases hc
            | .ok (i, none) => cases hc
            | .ok (i, some key) =>
                dsimp only at hc
                rw [Php.hashUpdate_eq hx.vacant] at hc
                cases hc
  | method o m events => exact ⟨o, m, events, rfl, bind_error_iff.mp h⟩
  | delete o events =>
      exfalso
      have hd : s.php.clientDelete o events = .error .nullPointer :=
        bind_error_iff.mp h
      unfold Php.clientDelete at hd
      cases ho : s.php.object o with
      | none =>
          rw [ho] at hd
          cases hd
      | some obj =>
          rw [ho] at hd
          obtain ⟨conn?⟩ := obj
          cases conn? with
          | none => cases hd
          | some i =>
              obtain ⟨c, hc, hl⟩ := hs.linked.held (Php.holders_pos ho)
              dsimp only [bind, Except.bind] at hd
              rcases Php.destructConn_cases events hc hl
                with hb | ⟨s₁, hr, hx⟩
              · rw [hb] at hd
                cases hd
              · rw [hr] at hd
                cases hd

/-- A method that passes its argument checks stops at `NULL` exactly when
no constructor of its object has returned in the run before it; and a run
in which every such method comes after one never does. -/
theorem method_nullPointer_iff (ini : Ini) :
    (∀ ops s, exec step (start ini) ops = .ok s →
      ∀ o, s.php.object o ≠ none → ∀ m events,
        s.method o m events = .error .nullPointer ↔
          (∃ call, m.check (s.prefixes o) = .ok call)
            ∧ o ∉ (start ini).constructed ops)
    ∧ ∀ ops, (∀ before o m events after,
        ops = before ++ .method o m events :: after →
        o ∈ (start ini).constructed before
          ∨ ∀ keyPrefix call, m.check keyPrefix ≠ .ok call) →
      exec step (start ini) ops ≠ .error .nullPointer := by
  have hnobody : ∀ o, ¬ (start ini).Connected o := by
    rintro o ⟨i, hi⟩
    cases hi
  have hiff : ∀ ops s, exec step (start ini) ops = .ok s →
      ∀ o, s.php.object o ≠ none →
        (s.Connected o ↔ o ∈ (start ini).constructed ops) := by
    intro ops s hrun o ho
    rw [conn_iff_constructed (sound_start ini) hrun fun hgone => ho hgone.2]
    exact ⟨fun hor => hor.resolve_right (hnobody o), .inl⟩
  constructor
  · intro ops s hrun o ho m events
    obtain ⟨obj, hobj⟩ := Option.ne_none_iff_exists'.mp ho
    rw [method_nullPointer hobj, hiff ops s hrun o ho]
  · intro ops hops hnull
    refine exec_error (I := Sound) (E := (· ≠ .nullPointer))
      (P := fun s op => ∀ o m events, op = .method o m events →
        s.method o m events ≠ .error .nullPointer)
      (fun _ _ _ hs _ h => step_sound hs h)
      (fun s op e hs hP h hnull => ?_) (sound_start ini)
      (guarded_of_reached ?_) hnull rfl
    · subst hnull
      obtain ⟨o, m, events, hop, hm⟩ := step_nullPointer hs h
      exact hP o m events hop hm
    · rintro before op after s hsplit hrun o m events rfl hm
      cases ho : s.php.object o with
      | none =>
          unfold method at hm
          rw [ho] at hm
          cases hm
      | some obj =>
          have hne : s.php.object o ≠ none := by
            rw [ho]
            exact Option.some_ne_none _
          obtain ⟨⟨call, hcall⟩, hnot⟩ := (method_nullPointer ho).mp hm
          rcases hops before o m events after hsplit with hmem | hfails
          · exact hnot ((hiff before s hrun o hne).mpr hmem)
          · exact hfails _ call hcall

/-- Nothing stops at `NULL` once the constructor has returned. -/
theorem method_nullPointer_noop :
    exec step (start ⟨16384, 5, true⟩)
      [.new, .construct 0 [] [] [.connected, .sockopt true, .sockopt true],
        .method 0 .noop [.sent [Status.ok]]] ≠ .error .nullPointer := by
  refine (method_nullPointer_iff ⟨16384, 5, true⟩).2 _ ?_
  rintro before o m events after hsplit
  rcases before with _ | ⟨a, _ | ⟨b, _ | ⟨c, before⟩⟩⟩
  · cases hsplit
  · cases hsplit
  · cases hsplit
    exact .inl (by decide)
  · have hlen := congrArg List.length hsplit
    simp at hlen

/-- An object of a subclass whose constructor does not call the parent's:
its first `recv()` stops at `NULL`. -/
theorem recv_without_constructor :
    ¬ ∀ (ini : Ini) (ops : List ScriptOp),
      exec step (start ini) ops ≠ .error .nullPointer :=
  fun h => h ⟨16384, 5, true⟩ [.new, .method 0 .recv []] rfl

end Script

end Yrmcds
