/-
Who owns a connection: the objects that hold it and the persistent list.

`Owned slack` ties the three together through every failure path. The
count of a connection is the number of its holders and `slack` more, a
persistent connection that is held is the entry of its own key, and a
socket is open while its connection is live. `slack` is the count nobody
will ever take back; `owned_step` says when it grows. A constructor that
obtains a connection for an object that has one forgets the old one
(`Reassigns`), and one whose `yrmcds_set_timeout` fails after
`yrmcds_connect` loses the new one (`Orphans`). In between,
`use_existing_persistent_connection` and `destruct_conn` count one holder
ahead of the assignment to `obj->conn`, which is slack for that moment.

# Leaks

Without reassignments the slack stays off the list, so that all counts
that matter are exact. Without either, there is no slack at all, and
nothing is leaked.
-/
import Yrmcds.Proofs.Client.Steps

namespace Yrmcds

namespace Php

-- ============================================================== invariant

/-- One more at `i`. -/
def bump (slack : Nat → Nat) (i : Nat) : Nat → Nat :=
  fun j => if j = i then slack j + 1 else slack j

/-- The ownership invariant. -/
structure Owned (slack : Nat → Nat) (s : Php) : Prop extends Linked s where
  counted : ∀ {i c}, s.conn i = some c →
    c.referenceCount = s.holders i + slack i
  alone : ∀ {i c}, s.conn i = some c →
    (∀ key, c.pkey = some key → s.persistentList key ≠ some i) →
      c.referenceCount = 1
  sock : ∀ {i c}, s.conn i = some c → c.res.sock = some i
  fresh : ∀ {i}, s.heap.length ≤ i → slack i = 0
  sockets : s.sockets.length = s.heap.length
  opened : ∀ {i}, s.sockets[i]? = some true ↔ ∃ c, s.conn i = some c

variable {slack slack' : Nat → Nat} {s s' : Php} {i o : Nat} {c c' : PhpConn}
  {key : Key} {events : List Event}

theorem owned_start (ini : Ini) : Owned (fun _ => 0) (start ini) where
  listed h := by cases h
  held h := by cases h
  counted h := by cases h
  alone h := by cases h
  sock h := by cases h
  fresh _ := rfl
  sockets := rfl
  opened := by simp [start, conn, Slots.get]

theorem lt_of_conn (h : s.conn i = some c) : i < s.heap.length :=
  Slots.lt_of_get h

-- ================================================================ changes

/-- A connection changes in place; its count moves with the slack. -/
theorem Owned.put (h : Owned slack s) (hc : s.conn i = some c)
    (hk : c'.pkey = c.pkey) (hs : c'.res.sock = c.res.sock)
    (hslack : ∀ j, j ≠ i → slack' j = slack j)
    (hcount : c'.referenceCount = s.holders i + slack' i)
    (halone : (∀ key, c.pkey = some key → s.persistentList key ≠ some i) →
      c'.referenceCount = 1) :
    Owned slack' (s.put i c') where
  listed {key j} hl := by
    obtain ⟨d, hd, hdk⟩ := h.listed hl
    rw [conn_put hc]
    by_cases hj : j = i
    · subst hj
      cases hc.symm.trans hd
      exact ⟨c', if_pos rfl, hk.trans hdk⟩
    · exact ⟨d, (if_neg hj).trans hd, hdk⟩
  held {j} hpos := by
    obtain ⟨d, hd, hdk⟩ := h.held hpos
    rw [conn_put hc]
    by_cases hj : j = i
    · subst hj
      cases hc.symm.trans hd
      exact ⟨c', if_pos rfl, fun key hkey => hdk key (hk.symm.trans hkey)⟩
    · exact ⟨d, (if_neg hj).trans hd, hdk⟩
  counted {j d} hd := by
    rcases conn_put_cases hc hd with ⟨rfl, rfl⟩ | ⟨hj, hd⟩
    · exact hcount
    · rw [hslack j hj]
      exact h.counted hd
  alone {j d} hd hun := by
    rcases conn_put_cases hc hd with ⟨rfl, rfl⟩ | ⟨hj, hd⟩
    · exact halone fun key hkey => hun key (hk.trans hkey)
    · exact h.alone hd hun
  sock {j d} hd := by
    rcases conn_put_cases hc hd with ⟨rfl, rfl⟩ | ⟨-, hd⟩
    · exact hs.trans (h.sock hc)
    · exact h.sock hd
  fresh {j} hj := by
    have hlen : s.heap.length ≤ j := by simpa [Php.put] using hj
    have hlt := lt_of_conn hc
    rw [hslack j (by omega)]
    exact h.fresh hlen
  sockets := by simpa [Php.put] using h.sockets
  opened {j} := by
    rw [conn_put hc]
    show s.sockets[j]? = some true ↔ _
    rw [h.opened]
    by_cases hj : j = i
    · subst hj
      simp [hc]
    · rw [if_neg hj]

/-- A connection is made; nobody holds it yet. -/
theorem Owned.push (h : Owned slack s) {pkey : Option Key} {res : Link}
    (hs : res.sock = some s.sockets.length) :
    Owned (bump slack s.heap.length) (s.push ⟨pkey, 1, res⟩) where
  listed {key j} hl := by
    obtain ⟨d, hd, hdk⟩ := h.listed hl
    rw [conn_push, if_neg (Nat.ne_of_lt (lt_of_conn hd))]
    exact ⟨d, hd, hdk⟩
  held {j} hpos := by
    obtain ⟨d, hd, hdk⟩ := h.held hpos
    rw [conn_push, if_neg (Nat.ne_of_lt (lt_of_conn hd))]
    exact ⟨d, hd, hdk⟩
  counted {j d} hd := by
    show d.referenceCount = s.holders j + _
    rw [conn_push] at hd
    unfold bump
    split at hd
    next hj =>
      cases hd
      have hfree : s.holders j = 0 := by
        by_contra hne
        obtain ⟨d, hd, -⟩ := h.held (Nat.pos_of_ne_zero hne)
        have := lt_of_conn hd
        omega
      rw [if_pos hj, hfree, h.fresh (by omega)]
    next hj =>
      rw [if_neg hj]
      exact h.counted hd
  alone {j d} hd hun := by
    rw [conn_push] at hd
    split at hd
    next =>
      cases hd
      rfl
    next => exact h.alone hd hun
  sock {j d} hd := by
    rw [conn_push] at hd
    split at hd
    next hj =>
      cases hd
      rw [hs, h.sockets, hj]
    next => exact h.sock hd
  fresh {j} hj := by
    have hlen : s.heap.length + 1 ≤ j := by simpa [Php.push] using hj
    rw [bump, if_neg (by omega)]
    exact h.fresh (by omega)
  sockets := by simpa [Php.push] using h.sockets
  opened {j} := by
    rw [conn_push]
    show (s.sockets ++ [true])[j]? = some true ↔ _
    by_cases hj : j = s.heap.length
    · rw [if_pos hj, hj, ← h.sockets]
      simp
    · rw [if_neg hj, ← h.opened]
      by_cases hlt : j < s.sockets.length
      · rw [List.getElem?_append_left hlt]
      · have := h.sockets
        rw [List.getElem?_eq_none (by simp; omega),
          List.getElem?_eq_none (by omega)]

theorem sockets_closeAndFree (h : Owned slack s) (hc : s.conn i = some c) :
    (s.closeAndFree i c).sockets = s.sockets.set i false := by
  rw [closeAndFree, h.sock hc]

/-- A connection is closed and freed, and its entry is removed with it; no
object holds it. -/
theorem Owned.free (h : Owned slack s) (hc : s.conn i = some c)
    (h0 : s.holders i = 0) {list : Key → Option Nat}
    (hlist : ∀ key j, list key = some j ↔
      s.persistentList key = some j ∧ j ≠ i)
    (hslack : ∀ j, j ≠ i → slack' j = slack j) :
    Owned slack' { s.closeAndFree i c with persistentList := list } where
  listed {key j} hl := by
    obtain ⟨hl, hj⟩ := (hlist key j).mp hl
    obtain ⟨d, hd, hdk⟩ := h.listed hl
    exact ⟨d, (conn_closeAndFree hc j).trans ((if_neg hj).trans hd), hdk⟩
  held {j} hpos := by
    have hj : j ≠ i := by
      rintro rfl
      exact absurd hpos (by rw [Nat.not_lt]; exact Nat.le_of_eq h0)
    obtain ⟨d, hd, hdk⟩ := h.held hpos
    refine ⟨d, (conn_closeAndFree hc j).trans ((if_neg hj).trans hd), ?_⟩
    exact fun key hkey => (hlist key j).mpr ⟨hdk key hkey, hj⟩
  counted {j d} hd := by
    obtain ⟨hj, hd⟩ := conn_free_cases hc hd
    rw [hslack j hj]
    exact h.counted hd
  alone {j d} hd hun := by
    obtain ⟨hj, hd⟩ := conn_free_cases hc hd
    exact h.alone hd fun key hkey hl =>
      hun key hkey ((hlist key j).mpr ⟨hl, hj⟩)
  sock {j d} hd := by
    obtain ⟨-, hd⟩ := conn_free_cases hc hd
    exact h.sock hd
  fresh {j} hj := by
    have hlen : s.heap.length ≤ j := by simpa [closeAndFree] using hj
    have hlt := lt_of_conn hc
    rw [hslack j (by omega)]
    exact h.fresh hlen
  sockets := by
    show (s.closeAndFree i c).sockets.length = _
    rw [sockets_closeAndFree h hc]
    simpa [closeAndFree] using h.sockets
  opened {j} := by
    show (s.closeAndFree i c).sockets[j]? = _
      ↔ ∃ d, (s.closeAndFree i c).conn j = some d
    rw [sockets_closeAndFree h hc, conn_closeAndFree hc]
    by_cases hj : j = i
    · subst hj
      have hlt := lt_of_conn hc
      rw [List.getElem?_set_self (by rw [h.sockets]; exact hlt), if_pos rfl]
      simp
    · rw [List.getElem?_set_ne (Ne.symm hj), if_neg hj]
      exact h.opened

theorem Owned.closed (h : Owned slack s) (hc : s.conn i = some c)
    (h0 : s.holders i = 0) (hk : c.pkey = none)
    (hslack : ∀ j, j ≠ i → slack' j = slack j) :
    Owned slack' (s.closeAndFree i c) := by
  refine h.free hc h0 ?_ hslack
  refine fun key j => ⟨fun hl => ⟨hl, ?_⟩, And.left⟩
  rintro rfl
  obtain ⟨d, hd, hdk⟩ := h.listed hl
  cases hc.symm.trans hd
  cases hk.symm.trans hdk

theorem Owned.evict (h : Owned slack s) (hc : s.conn i = some c)
    (h0 : s.holders i = 0) (hl : s.persistentList key = some i)
    (hslack : ∀ j, j ≠ i → slack' j = slack j) :
    Owned slack' (s.evict key i c) := by
  refine h.free hc h0 (fun k j => ?_) hslack
  split
  next hk =>
    subst hk
    rw [hl]
    simp [eq_comm]
  next hk =>
    refine ⟨fun hj => ⟨hj, ?_⟩, And.left⟩
    rintro rfl
    -- a connection is listed under its own key only
    obtain ⟨d, hd, hdk⟩ := h.listed hj
    obtain ⟨d', hd', hdk'⟩ := h.listed hl
    cases hd.symm.trans hd'
    exact hk (Option.some.inj (hdk.symm.trans hdk'))

theorem holders_drop {obj : ClientObject} (ho : s.object o = some obj)
    (j : Nat) : (s.drop o).holders j + (if obj.conn = some j then 1 else 0)
      = s.holders j := by
  have h := Slots.refs_set ClientObject.conn j (Slots.get_eq_some.mp ho) none
  simpa [Slots.refers, holders, drop] using h

/-- An object goes; what it held is slack until the count is taken down. -/
theorem Owned.drop (h : Owned slack s) {obj : ClientObject}
    (ho : s.object o = some obj)
    (hslack : ∀ j, slack' j = slack j + if obj.conn = some j then 1 else 0) :
    Owned slack' (s.drop o) where
  listed := h.listed
  held {j} hpos := h.held (by have := holders_drop ho j; omega)
  counted {j d} hd := by
    have hcount := h.counted hd
    have := holders_drop ho j
    rw [hslack]
    omega
  alone := h.alone
  sock := h.sock
  fresh {j} hj := by
    rw [hslack, h.fresh hj, if_neg]
    intro hobj
    obtain ⟨d, hd, -⟩ := h.held (Slots.refs_pos ho hobj)
    have hlt := lt_of_conn hd
    have : s.heap.length ≤ j := hj
    omega
  sockets := h.sockets
  opened := h.opened

theorem holders_attach {obj : ClientObject} (key? : Option Key)
    (ho : s.object o = some obj) (i j : Nat) :
    (s.attach o i key?).holders j + (if obj.conn = some j then 1 else 0)
      = s.holders j + if i = j then 1 else 0 := by
  have h := Slots.refs_set ClientObject.conn j (Slots.get_eq_some.mp ho)
    (some ⟨some i⟩)
  simpa [Slots.refers, holders, attach] using h

/-- A connection that was counted for it is assigned to an object; what the
object held becomes slack. -/
theorem Owned.attach (h : Owned (bump slack i) s) {obj : ClientObject}
    {key? : Option Key} (ho : s.object o = some obj) (hc : s.conn i = some c)
    (hnew : ∀ key, key? = some key →
      c.pkey = some key ∧ s.persistentList key = none)
    (hold : key? = none →
      ∀ key, c.pkey = some key → s.persistentList key = some i)
    (hslack : ∀ j, slack' j = slack j + if obj.conn = some j then 1 else 0) :
    Owned slack' (s.attach o i key?) where
  listed {key j} hl := by
    change (if key? = some key then some i else s.persistentList key) = _ at hl
    split at hl
    next hk =>
      cases hl
      exact ⟨c, hc, (hnew key hk).1⟩
    next => exact h.listed hl
  held {j} hpos := by
    have hcount := holders_attach key? ho i j
    have hkeep : ∀ {key j}, s.persistentList key = some j →
        (s.attach o i key?).persistentList key = some j := by
      intro key j hl
      show (if key? = some key then some i else s.persistentList key) = _
      rw [if_neg, hl]
      intro hk
      cases (hnew key hk).2.symm.trans hl
    by_cases hj : i = j
    · subst hj
      refine ⟨c, hc, fun key hkey => ?_⟩
      match key? with
      | none => exact hkeep (hold rfl key hkey)
      | some k =>
          cases (hnew k rfl).1.symm.trans hkey
          exact if_pos rfl
    · obtain ⟨d, hd, hdk⟩ := h.held (i := j) (by rw [if_neg hj] at hcount; omega)
      exact ⟨d, hd, fun key hkey => hkeep (hdk key hkey)⟩
  counted {j d} hd := by
    have hcount := h.counted hd
    have hmove := holders_attach key? ho i j
    rw [hslack]
    rw [bump] at hcount
    by_cases hj : i = j
    · rw [if_pos hj] at hmove
      rw [if_pos hj.symm] at hcount
      omega
    · rw [if_neg hj] at hmove
      rw [if_neg (Ne.symm hj)] at hcount
      omega
  alone {j d} hd hun := by
    refine h.alone hd fun key hkey hl => hun key hkey ?_
    show (if key? = some key then some i else s.persistentList key) = _
    rw [if_neg, hl]
    intro hk
    cases (hnew key hk).2.symm.trans hl
  sock := h.sock
  fresh {j} hj := by
    have hlt := lt_of_conn hc
    have hlen : s.heap.length ≤ j := hj
    have hfresh := h.fresh hlen
    rw [bump, if_neg (by omega)] at hfresh
    rw [hslack, hfresh, if_neg]
    intro hobj
    obtain ⟨d, hd, -⟩ := h.held (Slots.refs_pos ho hobj)
    have := lt_of_conn hd
    omega
  sockets := h.sockets
  opened := h.opened

-- ================================================================== steps

/-- The constructor obtains a connection for an object that has one. -/
def Reassigns (s : Php) : Op → Prop
  | .construct o persistId events =>
      (∃ i, s.object o = some ⟨some i⟩)
        ∧ ∃ r s', s.obtainConn persistId events = .ok (.ok r, s')
  | _ => False

/-- The events a constructor meets when it makes a new connection, if it
comes to that. -/
def newConnEvents (s : Php) (persistId : List UInt8) (events : List Event) :
    Option (List Event) :=
  if persistId.length > 0 then
    match s.useExistingPersistentConnection (hashKey persistId) events with
    | .ok (.notFound, _, rest) => some rest
    | .ok (.broken, _, rest) => some rest
    | _ => none
  else some events

/-- The constructor connects, and setting the timeout fails. -/
def Orphans (s : Php) : Op → Prop
  | .construct o persistId events => (s.object o).isSome
      ∧ ∃ rest e res rest',
        s.newConnEvents persistId events = some (.connected :: rest)
          ∧ s.newRes.setTimeout s.timeout rest = some (e, res, rest')
          ∧ e ≠ .ok
  | _ => False

/-- No slack on listed connections. -/
def Idle (slack : Nat → Nat) (s : Php) : Prop :=
  ∀ {key i}, s.persistentList key = some i → slack i = 0

theorem holders_eq_zero (h : Owned slack s) (hc : s.conn i = some c)
    (h0 : c.referenceCount = 0) : s.holders i = 0 := by
  have := h.counted hc
  omega

theorem Existing.owned {u : Uepc} (h : Owned slack s)
    (hx : Existing s key events u s') (hn : u = .notFound ∨ u = .broken) :
    Owned slack s' := by
  cases hx with
  | notFound hl => exact h
  | broken hl hc hx h0 =>
      exact h.evict hc (holders_eq_zero h hc h0) hl fun _ _ => rfl
  | ok => rcases hn with hn | hn <;> cases hn
  | occupied => rcases hn with hn | hn <;> cases hn

/-- A listed connection is not alone. -/
theorem not_alone {P : Prop} (h : Owned slack s)
    (hl : s.persistentList key = some i) (hc : s.conn i = some c)
    (hun : ∀ key, c.pkey = some key → s.persistentList key ≠ some i) : P := by
  obtain ⟨d, hd, hk⟩ := h.listed hl
  cases hc.symm.trans hd
  exact absurd hl (hun key hk)

/-- A connection that is ready for an object. -/
structure Ready (slack : Nat → Nat) (s s' : Php) (i : Nat)
    (key? : Option Key) : Prop where
  owned : Owned (bump slack i) s'
  objects : s'.objects = s.objects
  conn : ∃ c, s'.conn i = some c
    ∧ (∀ key, key? = some key → c.pkey = some key)
    ∧ (key? = none → ∀ key, c.pkey = some key → s'.persistentList key = some i)
  idle : key? ≠ none → slack i = 0

theorem Made.ready {pkey : Option Key} {s₁ : Php} (h : Owned slack s₁)
    (hcl : Cleared s s₁) (hm : Made s₁ pkey events (.ok i) s') :
    Ready slack s s' i pkey := by
  cases hm with
  | @made res _ _ hx =>
      refine ⟨h.push (newRes_sock hx), hcl.objects, ⟨⟨pkey, 1, res⟩,
        (conn_push ..).trans (if_pos rfl), fun key hk => hk, ?_⟩,
        fun _ => h.fresh (Nat.le_refl _)⟩
      intro hk key hkey
      cases hk.symm.trans hkey

theorem Obtained.ready {persistId : List UInt8} {key? : Option Key}
    (h : Owned slack s)
    (hx : Obtained s persistId events (.ok (i, key?)) s') :
    Ready slack s s' i key? := by
  generalize hr : Except.ok (i, key?) = r at hx
  cases hx with
  | occupied => cases hr
  | reused hp hx =>
      cases hr
      cases hx with
      | @ok _ c res hl hc hx =>
          have hcount := h.counted hc
          refine ⟨h.put hc rfl hx.steps.sock (fun j hj => if_neg hj) ?_
              (fun hun => not_alone h hl hc hun), rfl,
            ⟨{ c with res, referenceCount := c.referenceCount + 1 },
              (conn_put hc _ i).trans (if_pos rfl), (fun _ hk => by cases hk),
              ?_⟩, fun hne => absurd rfl hne⟩
          · show c.referenceCount + 1 = _
            rw [bump, if_pos rfl]
            omega
          · intro _ key hk
            obtain ⟨d, hd, hdk⟩ := h.listed hl
            cases hc.symm.trans hd
            cases hdk.symm.trans hk
            exact hl
  | @listed u r s₁ _ rest hp hu hx hn hm =>
      cases r with
      | error => cases hr
      | ok =>
          cases hr
          exact hm.ready (hx.owned h hn) (hx.cleared hn)
  | @unlisted r _ hp hm =>
      cases r with
      | error => cases hr
      | ok =>
          cases hr
          exact hm.ready h ⟨rfl, rfl, rfl, rfl, id⟩

/-- A failed constructor leaves at most a new connection behind. -/
theorem Obtained.owned_error {persistId : List UInt8} {t : Thrown}
    {obj : ClientObject} (h : Owned slack s) (ho : s.object o = some obj)
    (hx : Obtained s persistId events (.error t) s') :
    ∃ slack', Owned slack' s' ∧ (Idle slack s → Idle slack' s')
      ∧ (¬ Orphans s (.construct o persistId events) → slack' = slack) := by
  have hmade : ∀ {s₁ pkey rest t}, Owned slack s₁ → Cleared s s₁ →
      s.newConnEvents persistId events = some rest →
      Made s₁ pkey rest (.error t) s' →
      ∃ slack', Owned slack' s' ∧ (Idle slack s → Idle slack' s')
        ∧ (¬ Orphans s (.construct o persistId events) → slack' = slack) := by
    intro s₁ pkey rest t h₁ hcl hev hm
    cases hm with
    | refused =>
        exact ⟨slack, h₁, fun hi _ _ hl => hi (hcl.listed hl), fun _ => rfl⟩
    | orphaned hrest hset he =>
        refine ⟨_, h₁.push (newRes_sock hset), ?_, ?_⟩
        · intro hi key j hl
          obtain ⟨d, hd, -⟩ := h₁.listed hl
          rw [bump, if_neg (Nat.ne_of_lt (lt_of_conn hd))]
          exact hi (hcl.listed hl)
        · intro hno
          rw [hcl.newRes, hcl.timeout] at hset
          exact absurd ⟨by simp [ho], _, _, _, _, hrest ▸ hev, hset, he⟩ hno
  generalize hr : Except.error t = r at hx
  cases hx with
  | reused => cases hr
  | occupied hp hx =>
      cases hx with
      | @occupied _ c _ _ hl hc hx h0 =>
          refine ⟨slack, h.put hc rfl hx.steps.sock (fun _ _ => rfl)
            (h.counted (c := c) hc) (h.alone (c := c) hc), id, fun _ => rfl⟩
  | @listed u r s₁ _ rest hp hu hx hn hm =>
      cases r with
      | ok => cases hr
      | error =>
          refine hmade (hx.owned h hn) (hx.cleared hn) ?_ hm
          rw [newConnEvents, if_pos hp, hu]
          rcases hn with rfl | rfl <;> rfl
  | @unlisted r _ hp hm =>
      cases r with
      | ok => cases hr
      | error =>
          refine hmade h ⟨rfl, rfl, rfl, rfl, id⟩ ?_ hm
          rw [newConnEvents, if_neg hp]

theorem Destructed.owned (h : Owned slack s) (ho : s.object o = some ⟨some i⟩)
    (hc : s.conn i = some c)
    (hl : ∀ key, c.pkey = some key → s.persistentList key = some i)
    (hx : Destructed s i c events s') :
    Owned slack (s'.drop o) := by
  have hd : Owned (bump slack i) (s.drop o) := by
    apply h.drop ho
    intro j
    rw [bump]
    by_cases hj : j = i
    · subst hj
      simp
    · rw [if_neg hj, if_neg (by simpa using Ne.symm hj), Nat.add_zero]
  have hcd : (s.drop o).conn i = some c := hc
  have hcount := hd.counted hcd
  rw [bump, if_pos rfl] at hcount
  have hback : ∀ j, j ≠ i → slack j = bump slack i j :=
    fun j hj => (if_neg hj).symm
  cases hx with
  | closed hk =>
      have h1 := h.alone hc fun key hkey => by cases hk.symm.trans hkey
      exact hd.closed hcd (by omega) hk hback
  | kept hk hx =>
      refine hd.put hcd rfl (Link.unlockAndDrain_steps hx).sock hback ?_
        (fun hun => not_alone hd (hl _ hk) hcd hun)
      show c.referenceCount - 1 = _
      omega
  | evicted hk hx h0 =>
      exact hd.evict hcd (by omega) (hl _ hk) hback

theorem Owned.clientNew (h : Owned slack s) : Owned slack s.clientNew := by
  have hsame : ∀ j, s.clientNew.holders j = s.holders j := by
    intro j
    have := Slots.refs_append ClientObject.conn s.objects ⟨none⟩ j
    simpa [Slots.refers, holders, Php.clientNew] using this
  refine ⟨⟨h.listed, fun hpos => h.held ?_⟩, fun hc => ?_, h.alone, h.sock,
    h.fresh, h.sockets, h.opened⟩
  · rwa [hsame] at hpos
  · rw [hsame]
    exact h.counted hc

/-- What a step does to the slack. -/
theorem owned_step {op : Op} (h : Owned slack s) (hx : Stepped s op s') :
    ∃ slack', Owned slack' s' ∧ (¬ Reassigns s op →
      (Idle slack s → Idle slack' s')
        ∧ (¬ Orphans s op → slack' = slack)) := by
  cases hx with
  | new => exact ⟨slack, h.clientNew, fun _ => ⟨id, fun _ => rfl⟩⟩
  | failed ho hx =>
      obtain ⟨slack', h', hidle, hsame⟩ := hx.owned_error h ho
      exact ⟨slack', h', fun _ => ⟨hidle, hsame⟩⟩
  | @constructed o _ _ obj i key? s₁ ho hr hx =>
      have hready := hx.ready h
      obtain ⟨c, hc, hnew, hold⟩ := hready.conn
      have ho₁ : s₁.object o = some obj := by
        rw [object, hready.objects]
        exact ho
      refine ⟨_, hready.owned.attach ho₁ hc ?_ hold fun _ => rfl, ?_⟩
      · rintro key rfl
        exact ⟨hnew key rfl, hx.vacant⟩
      · intro hre
        obtain ⟨conn?⟩ := obj
        cases conn? with
        | some j => exact absurd ⟨⟨j, ho⟩, _, _, hr⟩ hre
        | none =>
            refine ⟨?_, fun _ => funext fun j => by simp⟩
            intro hi key j hl
            change (if key? = some key then some i
              else s₁.persistentList key) = _ at hl
            split at hl
            next hk =>
              cases hl
              simpa using hready.idle (by simp [hk])
            next => simpa using hi (hx.sublist hl)
  | @called _ _ _ c _ hop ho hc hx =>
      exact ⟨slack, h.put hc rfl hx.sock (fun _ _ => rfl)
        (h.counted (c := c) hc) (h.alone (c := c) hc), fun _ => ⟨id, fun _ => rfl⟩⟩
  | deleted ho =>
      exact ⟨slack, h.drop ho fun j => by simp,
        fun _ => ⟨id, fun _ => rfl⟩⟩
  | destructed ho hc hl hx =>
      exact ⟨slack, hx.owned h ho hc hl,
        fun _ => ⟨fun hi _ _ hl => hi (hx.sublist hl), fun _ => rfl⟩⟩

end Php

end Yrmcds
