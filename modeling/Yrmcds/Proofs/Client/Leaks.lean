/-
The counts are exact, and when nothing is leaked.

Both results read the ownership invariant in the state a run reaches. A
script that constructs each object once keeps all slack off the persistent
list, which makes the counts exact (`run_exact`). A script whose steps
neither reassign nor orphan a connection has no slack, and then every
open socket has an owner and every connection without a holder has count
zero (`run_noLeak`).
-/
import Yrmcds.Proofs.Client.Ownership

namespace Yrmcds

namespace Php

variable {slack : Nat → Nat} {s s' : Php} {op : Op} {ops : List Op}

/-- An operation from an owned state, in terms of its cases. -/
theorem stepped (h : Owned slack s) (hstep : s.step op = .ok s') :
    Stepped s op s' := by
  rcases step_cases h.toLinked op with ⟨e, he, -⟩ | ⟨s₁, hs, hx⟩
  · cases he.symm.trans hstep
  · cases hs.symm.trans hstep
    exact hx

/-- No operation follows a pointer to a freed connection. -/
theorem step_error (h : Owned slack s) {e : Stop}
    (hstep : s.step op = .error e) : e ≠ .useAfterFree := by
  rcases step_cases h.toLinked op with ⟨e', he, hne⟩ | ⟨s₁, hs, -⟩
  · cases he.symm.trans hstep
    exact hne
  · cases hs.symm.trans hstep

-- =========================================================== exact counts

/-- Counts are exact, pointers are good, and a connection has an open
socket of its own until it is freed. -/
structure Exact (s : Php) : Prop where
  counted : ∀ i c, s.conn i = some c →
    (0 < s.holders i ∨ ∃ key, s.persistentList key = some i) →
      c.referenceCount = s.holders i
  listed : ∀ key i, s.persistentList key = some i →
    ∃ c, s.conn i = some c ∧ c.pkey = some key
  held : ∀ o i, s.object o = some ⟨some i⟩ →
    ∃ c, s.conn i = some c
      ∧ ∀ key, c.pkey = some key → s.persistentList key = some i
  sock : ∀ i c, s.conn i = some c →
    ∃ fd, c.res.sock = some fd ∧ s.sockets[fd]? = some true
      ∧ ∀ j d, s.conn j = some d → d.res.sock = some fd → j = i

/-- What a run is to come to. -/
structure Sound (r : Except Stop Php) : Prop where
  exact : ∀ s, r = .ok s → Exact s
  noUseAfterFree : r ≠ .error .useAfterFree

/-- Slack that stays off the list does not matter. -/
theorem Owned.exact (h : Owned slack s) (hi : Idle slack s) : Exact s where
  counted i c hc hused := by
    have hcount := h.counted hc
    by_cases hlist : ∃ key, s.persistentList key = some i
    · obtain ⟨key, hl⟩ := hlist
      have := hi hl
      omega
    · have h1 := h.alone hc fun key _ hl => hlist ⟨key, hl⟩
      have hpos := hused.resolve_right hlist
      omega
  listed _ _ hl := h.listed hl
  held _ _ ho := h.held (holders_pos ho)
  sock i c hc := by
    refine ⟨i, h.sock hc, h.opened.mpr ⟨c, hc⟩, fun j d hd hs => ?_⟩
    exact Option.some.inj ((h.sock hd).symm.trans hs)

/-- A script that constructs each object once never reassigns. -/
theorem guarded_once (h : Owned slack s)
    (hfresh : ∀ o i, s.object o = some ⟨some i⟩ →
      o ∉ ops.filterMap Op.constructs)
    (hnd : (ops.filterMap Op.constructs).Nodup) :
    Run.Guarded step (fun s op => ¬ Reassigns s op) s ops := by
  induction ops generalizing s slack with
  | nil => trivial
  | cons op ops ih =>
      refine ⟨?_, fun s' hstep => ?_⟩
      · intro hre
        match op, hre with
        | .construct o persistId events, ⟨⟨i, ho⟩, _⟩ =>
            exact hfresh o i ho (List.mem_cons_self ..)
      · have hx := stepped h hstep
        obtain ⟨slack', h', -⟩ := owned_step h hx
        refine ih h' (fun o i ho hmem => ?_) ?_
        · cases hc : op.constructs with
          | none =>
              have ho := (hx.object ho).resolve_left (by simp [hc])
              exact hfresh o i ho (by simpa [hc] using hmem)
          | some o' =>
              rw [List.filterMap_cons_some hc] at hfresh hnd
              rcases hx.object ho with heq | ho
              · cases hc.symm.trans heq
                exact (List.nodup_cons.mp hnd).1 hmem
              · exact hfresh o i ho (List.mem_cons_of_mem _ hmem)
        · cases hc : op.constructs with
          | none => rwa [List.filterMap_cons_none hc] at hnd
          | some o' =>
              rw [List.filterMap_cons_some hc] at hnd
              exact (List.nodup_cons.mp hnd).2

/-- Where each object is constructed at most once, the counts are exact in
every state reached, and no freed connection is used or freed again. -/
theorem run_exact (ini : Ini) (ops : List Op)
    (hnd : (ops.filterMap Op.constructs).Nodup) :
    Sound ((start ini).run ops) := by
  have hg := guarded_once (owned_start ini)
    (fun o i ho => by cases ho) hnd
  have hstart : ∃ slack, Owned slack (start ini) ∧ Idle slack (start ini) :=
    ⟨_, owned_start ini, fun hl => by cases hl⟩
  have hkeep : ∀ s op s', (∃ slack, Owned slack s ∧ Idle slack s) →
      ¬ Reassigns s op → step s op = .ok s' →
      ∃ slack, Owned slack s' ∧ Idle slack s' := by
    rintro s op s' ⟨slack, h, hi⟩ hre hstep
    obtain ⟨slack', h', hrest⟩ := owned_step h (stepped h hstep)
    exact ⟨slack', h', (hrest hre).1 hi⟩
  refine ⟨fun s hrun => ?_, fun hrun => ?_⟩
  · obtain ⟨slack, h, hi⟩ := Run.exec_inv hkeep hstart hg hrun
    exact h.exact hi
  · refine Run.exec_error (E := (· ≠ .useAfterFree)) hkeep ?_ hstart hg hrun
      rfl
    rintro s op e ⟨slack, h, -⟩ - herr
    exact step_error h herr

/-- Two objects share a connection, and one of them goes. -/
theorem run_exact_shared :
    Sound ((start ⟨0, 5, false⟩).run
      [.new, .construct 0 [97] [.connected, .sockopt true, .sockopt true],
        .new, .construct 1 [97] [],
        .delete 0 [.sockopt true, .sockopt true, .sent [Status.ok],
          .reply]]) :=
  run_exact _ _ (by decide)

-- ================================================================== leaks

/-- Every open socket has an owner, and a connection that nobody holds is
ready to be evicted. -/
structure NoLeak (s : Php) : Prop where
  owner : ∀ fd, s.sockets[fd]? = some true →
    ∃ i c, s.conn i = some c ∧ c.res.sock = some fd
      ∧ ((∃ o, s.object o = some ⟨some i⟩)
        ∨ ∃ key, s.persistentList key = some i)
  unheld : ∀ i c, s.conn i = some c → (∀ o, s.object o ≠ some ⟨some i⟩) →
    c.referenceCount = 0
  evicted : ∀ key i events u s' rest, s.persistentList key = some i →
    (∀ o, s.object o ≠ some ⟨some i⟩) →
    s.useExistingPersistentConnection key events = .ok (u, s', rest) →
      u = .ok i ∨ u = .broken ∧ s'.persistentList key = none
        ∧ s'.conn i = none

theorem holders_eq_zero_of {i : Nat}
    (hno : ∀ o, s.object o ≠ some ⟨some i⟩) : s.holders i = 0 := by
  by_contra hne
  obtain ⟨o, obj, ho, hconn⟩ :=
    Slots.exists_of_refs_pos (Nat.pos_of_ne_zero hne)
  obtain ⟨conn?⟩ := obj
  cases hconn
  exact hno o ho

/-- Without slack nothing is leaked. -/
theorem Owned.noLeak (h : Owned (fun _ => 0) s) : NoLeak s := by
  have hunheld : ∀ i c, s.conn i = some c →
      (∀ o, s.object o ≠ some ⟨some i⟩) → c.referenceCount = 0 := by
    intro i c hc hno
    have := h.counted hc
    have := holders_eq_zero_of hno
    omega
  refine ⟨fun fd hfd => ?_, hunheld, ?_⟩
  · obtain ⟨c, hc⟩ := h.opened.mp hfd
    refine ⟨fd, c, hc, h.sock hc, ?_⟩
    by_contra hne
    rw [not_or, not_exists, not_exists] at hne
    have h1 := h.alone hc fun key _ => hne.2 key
    have h0 := hunheld fd c hc hne.1
    omega
  · intro key i events u s' rest hl hno hu
    rcases useExisting_cases h.toLinked key events
      with hb | ⟨u', s₁, rest', hok, hx⟩
    · cases hb.symm.trans hu
    · cases hok.symm.trans hu
      cases hx with
      | notFound hl' => cases hl.symm.trans hl'
      | ok hl' => 
          cases hl.symm.trans hl'
          exact .inl rfl
      | broken hl' hc =>
          cases hl.symm.trans hl'
          exact .inr ⟨rfl, if_pos rfl, (conn_closeAndFree hc i).trans (if_pos rfl)⟩
      | occupied hl' hc hx h0 =>
          cases hl.symm.trans hl'
          exact absurd (hunheld i _ hc hno) h0

/-- Nothing is leaked by a run whose steps neither reassign nor orphan a
connection. -/
theorem run_noLeak (ini : Ini) {ops : List Op} {s : Php}
    (hg : Run.Guarded step
      (fun s op => ¬ Reassigns s op ∧ ¬ Orphans s op) (start ini) ops)
    (hrun : (start ini).run ops = .ok s) : NoLeak s := by
  have h : Owned (fun _ => 0) s := by
    refine Run.exec_inv (I := Owned fun _ => 0) ?_ (owned_start ini) hg hrun
    intro s op s' h hguard hstep
    obtain ⟨slack', h', hrest⟩ := owned_step h (stepped h hstep)
    rwa [(hrest hguard.1).2 hguard.2] at h'
  exact h.noLeak

/-- A connection is made, held and released. -/
theorem run_noLeak_released :
    ∃ s, (start ⟨0, 5, false⟩).run
      [.new, .construct 0 [97] [.connected, .sockopt true, .sockopt true],
        .delete 0 [.sockopt true, .sockopt true, .sent [Status.ok],
          .reply]] = .ok s ∧ NoLeak s := by
  have hrun : ∃ s, (start ⟨0, 5, false⟩).run
      [.new, .construct 0 [97] [.connected, .sockopt true, .sockopt true],
        .delete 0 [.sockopt true, .sockopt true, .sent [Status.ok],
          .reply]] = .ok s := ⟨_, rfl⟩
  obtain ⟨s, hrun⟩ := hrun
  refine ⟨s, hrun, run_noLeak _ ?_ hrun⟩
  refine ⟨⟨nofun, nofun⟩, ?_⟩
  rintro _ ⟨⟩
  refine ⟨⟨?_, ?_⟩, ?_⟩
  · rintro ⟨⟨i, ⟨⟩⟩, -⟩
  · rintro ⟨-, rest, e, res, rest', ⟨⟩, ⟨⟩, he⟩
    exact he rfl
  · rintro _ ⟨⟩
    exact ⟨⟨nofun, nofun⟩, fun _ _ => trivial⟩

/-- A negative timeout orphans a connection, and a second constructor call
makes another forget its holder. -/
theorem noLeak_fails :
    (∃ s, (start ⟨0, -1, false⟩).run [.new, .construct 0 [] [.connected]]
        = .ok s ∧ ¬ NoLeak s)
      ∧ ∃ s, (start ⟨0, 5, false⟩).run
        [.new, .construct 0 [] [.connected, .sockopt true, .sockopt true],
          .construct 0 [] [.connected, .sockopt true, .sockopt true]]
        = .ok s ∧ ¬ NoLeak s := by
  refine ⟨⟨_, rfl, fun h => ?_⟩, ⟨_, rfl, fun h => ?_⟩⟩
  · cases h.unheld 0 _ rfl (by intro o; match o with | 0 => nofun | _ + 1 => nofun)
  · cases h.unheld 0 _ rfl (by intro o; match o with | 0 => nofun | _ + 1 => nofun)

end Php

end Yrmcds
