/-
What each operation of a PHP process can do, said once.

Pointers are followed in every function, so the cases here assume the two
facts that make following them safe (`Linked`): an entry of the persistent
list points to a live connection with that key, and so does a client
object, whose connection, if it is persistent, is the entry of its own key.
From them each operation is one of a few explicit changes of the process
(`Stepped`), and no error is a use after free.

The invariants of `Ownership`, `Handover` and `Sharing` go through these
cases and never unfold a function of the model.
-/
import Yrmcds.Proofs.Client.Link

namespace Yrmcds

/-- The object a method is called on. -/
def Op.caller : Op → Option Nat
  | .recv o _ => some o
  | .command o _ _ => some o
  | .setTimeout o _ _ => some o
  | _ => none

/-- The events an operation meets. -/
def Op.events : Op → List Event
  | .new => []
  | .construct _ _ events => events
  | .recv _ events => events
  | .command _ _ events => events
  | .setTimeout _ _ events => events
  | .delete _ events => events

/-- What an operation may do to a connection. -/
def Op.scope : Op → Link.Scope
  | .new => ⟨fun _ => False, False, .extension, []⟩
  | .construct _ _ events => .checking events
  | .delete _ events => .unlocking events
  | .recv o events => ⟨fun _ => False, False, .client o, events⟩
  | .command o kind events => ⟨(kind = ·), False, .client o, events⟩
  | .setTimeout o _ events => ⟨fun _ => False, True, .client o, events⟩

theorem Op.scope_events (op : Op) : op.scope.events = op.events := by
  cases op <;> rfl

theorem Op.party_of_caller {op : Op} {o : Nat} (h : op.caller = some o) :
    op.scope.party = .client o := by
  cases op <;> cases h <;> rfl

/-- The object a constructor is called on. -/
def Op.constructs : Op → Option Nat
  | .construct o _ _ => some o
  | _ => none

namespace Php

-- ================================================================ changes

/-- How many live objects hold connection `i`. -/
def holders (s : Php) (i : Nat) : Nat :=
  Slots.refs ClientObject.conn s.objects i

/-- Following a pointer of the list or of an object is safe. -/
structure Linked (s : Php) : Prop where
  listed : ∀ {key i}, s.persistentList key = some i →
    ∃ c, s.conn i = some c ∧ c.pkey = some key
  held : ∀ {i}, 0 < s.holders i →
    ∃ c, s.conn i = some c
      ∧ ∀ key, c.pkey = some key → s.persistentList key = some i

/-- A connection more, on a socket of its own. -/
def push (s : Php) (c : PhpConn) : Php :=
  { s with sockets := s.sockets ++ [true], heap := s.heap ++ [some c] }

/-- The entry of `key`, connection `i`, destructed and removed. -/
def evict (s : Php) (key : Key) (i : Nat) (c : PhpConn) : Php :=
  { s.closeAndFree i c with
    persistentList := fun k => if k = key then none else s.persistentList k }

/-- `obj->conn = c`, and `c` listed under its key if it is a new one. -/
def attach (s : Php) (o i : Nat) (key? : Option Key) : Php :=
  { s with
    objects := s.objects.set o (some ⟨some i⟩)
    persistentList := fun k =>
      if key? = some k then some i else s.persistentList k }

/-- Object `o` is gone. -/
def drop (s : Php) (o : Nat) : Php :=
  { s with objects := s.objects.set o none }

variable {s s' : Php} {i o : Nat} {c : PhpConn} {key : Key}
  {events : List Event}

theorem holders_pos (h : s.object o = some ⟨some i⟩) : 0 < s.holders i :=
  Slots.refs_pos h rfl

theorem conn_put (h : s.conn i = some c) (c' : PhpConn) (j : Nat) :
    (s.put i c').conn j = if j = i then some c' else s.conn j :=
  Slots.get_set (Slots.lt_of_get h)

theorem conn_push (s : Php) (c : PhpConn) (j : Nat) :
    (s.push c).conn j = if j = s.heap.length then some c else s.conn j :=
  Slots.get_append

theorem conn_closeAndFree (h : s.conn i = some c) (j : Nat) :
    (s.closeAndFree i c).conn j = if j = i then none else s.conn j :=
  Slots.get_set (Slots.lt_of_get h)

/-- A connection is the one that was changed, or another one. -/
theorem conn_put_cases (hc : s.conn i = some c) {c' d : PhpConn} {j : Nat}
    (hd : (s.put i c').conn j = some d) :
    j = i ∧ d = c' ∨ j ≠ i ∧ s.conn j = some d := by
  rw [conn_put hc] at hd
  split at hd
  next hj =>
    cases hd
    exact .inl ⟨hj, rfl⟩
  next hj => exact .inr ⟨hj, hd⟩

theorem conn_free_cases (hc : s.conn i = some c) {d : PhpConn} {j : Nat}
    (hd : (s.closeAndFree i c).conn j = some d) :
    j ≠ i ∧ s.conn j = some d := by
  rw [conn_closeAndFree hc] at hd
  split at hd
  next => cases hd
  next hj => exact ⟨hj, hd⟩

theorem conn_push_cases (hlt : i < s.heap.length) {d : PhpConn}
    (hd : (s.push c).conn i = some d) : s.conn i = some d := by
  rwa [conn_push, if_neg (Nat.ne_of_lt hlt)] at hd

theorem deref_eq (h : s.conn i = some c) : s.deref i = .ok c := by
  rw [deref, h]

theorem hashDel_eq (hl : s.persistentList key = some i)
    (hc : s.conn i = some c) : s.hashDel key = .ok (s.evict key i c) := by
  rw [hashDel, hl]
  dsimp only
  rw [resourcePdtor, deref_eq hc]
  rfl

theorem onBroken_eq (hc : s.conn i = some c) (hk : c.pkey = some key)
    (hl : s.persistentList key = some i) :
    s.onBrokenConnectionDetected i
      = .ok (if c.referenceCount = 0 then s.evict key i c else s) := by
  rw [onBrokenConnectionDetected, deref_eq hc]
  show (if c.referenceCount = 0 then _ else _) = _
  split
  next =>
    rw [hk]
    exact hashDel_eq hl hc
  next => rfl

/-- Evicting a connection closes the socket it has always had. -/
theorem evict_put {c' : PhpConn} (hs : c'.res.sock = c.res.sock) :
    (s.put i c').evict key i c' = s.evict key i c := by
  unfold evict closeAndFree put
  rw [hs, List.set_set]

-- ============================================================= destructor

/-- What `destruct_conn` makes of connection `i`. -/
inductive Destructed (s : Php) (i : Nat) (c : PhpConn)
    (events : List Event) : Php → Prop where
  | closed (hk : c.pkey = none) :
      Destructed s i c events (s.closeAndFree i c)
  | kept {key : Key} {good : Bool} {res : Link} {rest : List Event}
      (hk : c.pkey = some key)
      (hx : c.res.unlockAndDrain s.timeout events = some (good, res, rest))
      (hgood : good = true ∨ c.referenceCount - 1 ≠ 0) :
      Destructed s i c events
        (s.put i { c with referenceCount := c.referenceCount - 1, res })
  | evicted {key : Key} {res : Link} {rest : List Event}
      (hk : c.pkey = some key)
      (hx : c.res.unlockAndDrain s.timeout events = some (false, res, rest))
      (h0 : c.referenceCount - 1 = 0) :
      Destructed s i c events (s.evict key i c)

theorem destructConn_cases (events : List Event) (hc : s.conn i = some c)
    (hl : ∀ key, c.pkey = some key → s.persistentList key = some i) :
    s.destructConn i events = .error .blocked
      ∨ ∃ s', s.destructConn i events = .ok s'
        ∧ Destructed s i c events s' := by
  rw [destructConn, deref_eq hc]
  dsimp only [bind, Except.bind]
  rcases Option.eq_none_or_eq_some c.pkey with hk | ⟨key, hk⟩
  · rw [if_neg (by simp [hk])]
    exact .inr ⟨_, rfl, .closed hk⟩
  · rw [if_pos (by simp [hk])]
    split
    next => exact .inl rfl
    next res rest hx => exact .inr ⟨_, rfl, .kept hk hx (.inl rfl)⟩
    next res rest hx =>
      have hc' := conn_put hc
        { c with referenceCount := c.referenceCount - 1, res } i
      rw [if_pos rfl] at hc'
      refine .inr ⟨_, onBroken_eq hc' hk (hl key hk), ?_⟩
      split
      next h0 =>
        have hs : res.sock = c.res.sock :=
          (Link.unlockAndDrain_steps hx).sock
        rw [evict_put hs]
        exact .evicted hk hx h0
      next h0 => exact .kept hk hx (.inr h0)

-- ============================================================ constructor

/-- The constructor's look at an existing connection. -/
inductive Checked (s : Php) (c : PhpConn) (events : List Event) :
    Bool → Link → Prop where
  | unchecked (hd : s.ini.detectStaleConnection = false) :
      Checked s c events true c.res
  | alive {res : Link} {rest : List Event}
      (hd : s.ini.detectStaleConnection = true)
      (hx : c.res.checkPersistentConnection s.timeout events
        = some ((.ok, Status.ok), res, rest)) : Checked s c events true res
  | broken {err : Error} {status : Status} {res : Link} {rest : List Event}
      (hd : s.ini.detectStaleConnection = true)
      (hx : c.res.checkPersistentConnection s.timeout events
        = some ((err, status), res, rest))
      (hbad : err ≠ .ok ∨ status ≠ Status.ok) : Checked s c events false res

/-- What the constructor finds under its key. -/
inductive Existing (s : Php) (key : Key) (events : List Event) :
    Uepc → Php → Prop where
  | notFound (hl : s.persistentList key = none) :
      Existing s key events .notFound s
  | ok {i : Nat} {c : PhpConn} {res : Link}
      (hl : s.persistentList key = some i) (hc : s.conn i = some c)
      (hx : Checked s c events true res) :
      Existing s key events (.ok i)
        (s.put i { c with res, referenceCount := c.referenceCount + 1 })
  | broken {i : Nat} {c : PhpConn} {res : Link}
      (hl : s.persistentList key = some i) (hc : s.conn i = some c)
      (hx : Checked s c events false res) (h0 : c.referenceCount = 0) :
      Existing s key events .broken (s.evict key i c)
  | occupied {i : Nat} {c : PhpConn} {res : Link} {t : Thrown}
      (hl : s.persistentList key = some i) (hc : s.conn i = some c)
      (hx : Checked s c events false res) (h0 : c.referenceCount ≠ 0) :
      Existing s key events (.brokenAndOccupied t)
        (s.put i { c with res })

theorem useExisting_cases (hs : Linked s) (key : Key)
    (events : List Event) :
    s.useExistingPersistentConnection key events = .error .blocked
      ∨ ∃ u s' rest,
        s.useExistingPersistentConnection key events = .ok (u, s', rest)
          ∧ Existing s key events u s' := by
  unfold useExistingPersistentConnection
  split
  next hl => exact .inr ⟨_, _, _, rfl, .notFound hl⟩
  next i hl =>
    obtain ⟨c, hc, hk⟩ := hs.listed hl
    rw [deref_eq hc]
    dsimp only [bind, Except.bind]
    split
    next hd =>
      split
      next => exact .inl rfl
      next err status res rest hx =>
        have hsock : res.sock = c.res.sock :=
          (Link.checkPersistentConnection_steps hx).sock
        have hc' := conn_put hc { c with res } i
        rw [if_pos rfl] at hc'
        split
        next hbad =>
          rw [onBroken_eq hc' hk hl, evict_put hsock]
          have hx := Checked.broken hd hx hbad
          dsimp only
          split
          next h0 => exact .inr ⟨_, _, _, rfl, .broken hl hc hx h0⟩
          next h0 => exact .inr ⟨_, _, _, rfl, .occupied hl hc hx h0⟩
        next hgood =>
          obtain ⟨rfl, rfl⟩ : err = .ok ∧ status = Status.ok := by
            simpa using hgood
          exact .inr ⟨_, _, _, rfl, .ok hl hc (.alive hd hx)⟩
    next hd =>
      exact .inr ⟨_, _, _, rfl,
        .ok hl hc (.unchecked (Bool.eq_false_iff.mpr hd))⟩

/-- A new connection, before its timeouts are set. -/
def newRes (s : Php) : Link :=
  ((Link.connected s.sockets.length).setCompression
    (s.ini.compressionThreshold % 2 ^ 64).toNat).2

/-- What becomes of an attempt to make a connection. -/
inductive Made (s : Php) (pkey : Option Key) (events : List Event) :
    Except Thrown Nat → Php → Prop where
  | refused {t : Thrown} : Made s pkey events (.error t) s
  | orphaned {t : Thrown} {e : Error} {res : Link} {rest rest' : List Event}
      (hev : events = .connected :: rest)
      (hx : s.newRes.setTimeout s.timeout rest = some (e, res, rest'))
      (he : e ≠ .ok) : Made s pkey events (.error t) (s.push ⟨pkey, 1, res⟩)
  | made {res : Link} {rest rest' : List Event}
      (hx : s.newRes.setTimeout s.timeout rest = some (.ok, res, rest')) :
      Made s pkey events (.ok s.heap.length) (s.push ⟨pkey, 1, res⟩)

theorem push_put (s : Php) (c c' : PhpConn) :
    (s.push c).put s.heap.length c' = s.push c' := by
  simp [push, put]

theorem newConn_connected (s : Php) (pkey : Option Key)
    (rest : List Event) :
    s.newConn pkey (.connected :: rest) =
      (match s.newRes.setTimeout s.timeout rest with
      | none => .error .blocked
      | some (e, res, _) =>
          if e ≠ .ok then .ok (.error (.error e), s.push ⟨pkey, 1, res⟩)
          else .ok (.ok s.heap.length, s.push ⟨pkey, 1, res⟩) :
        Except Stop (Except Thrown Nat × Php)) := by
  unfold newConn
  dsimp only
  rw [if_neg (by simp [Link.setCompression])]
  show (match s.newRes.setTimeout s.timeout rest with
    | none => _
    | some (e, res, _) => _ : Except Stop (Except Thrown Nat × Php)) = _
  split
  next => rfl
  next e res _ _ =>
    show (if e ≠ .ok then _ else _) = _
    rw [← push_put s ⟨pkey, 1, s.newRes⟩ ⟨pkey, 1, res⟩]
    rfl

theorem newConn_cases (s : Php) (pkey : Option Key) (events : List Event) :
    s.newConn pkey events = .error .blocked
      ∨ ∃ r s', s.newConn pkey events = .ok (r, s')
        ∧ Made s pkey events r s' := by
  match events with
  | .connectFailed e :: _ => exact .inr ⟨_, _, rfl, .refused⟩
  | .connected :: rest =>
      rw [newConn_connected]
      split
      next => exact .inl rfl
      next e res rest' hx =>
        split
        next he => exact .inr ⟨_, _, rfl, .orphaned rfl hx he⟩
        next he =>
          obtain rfl : e = .ok := by simpa using he
          exact .inr ⟨_, _, rfl, .made hx⟩
  | [] | .sockopt _ :: _ | .sent _ :: _ | .sendFailed :: _ | .sendTorn :: _
  | .garbled _ _ :: _ | .refused _ :: _
  | .reply :: _ | .recvFailed _ :: _ => exact .inl rfl

/-- The connection a constructor gets, and the key under which it is to be
listed. -/
inductive Obtained (s : Php) (persistId : List UInt8) (events : List Event) :
    Except Thrown (Nat × Option Key) → Php → Prop where
  | reused {i : Nat} {s' : Php} (hp : 0 < persistId.length)
      (hx : Existing s (hashKey persistId) events (.ok i) s') :
      Obtained s persistId events (.ok (i, none)) s'
  | occupied {t : Thrown} {s' : Php} (hp : 0 < persistId.length)
      (hx : Existing s (hashKey persistId) events (.brokenAndOccupied t) s') :
      Obtained s persistId events (.error t) s'
  | listed {u : Uepc} {r : Except Thrown Nat} {s₁ s' : Php}
      {rest : List Event} (hp : 0 < persistId.length)
      (hu : s.useExistingPersistentConnection (hashKey persistId) events
        = .ok (u, s₁, rest))
      (hx : Existing s (hashKey persistId) events u s₁)
      (hn : u = .notFound ∨ u = .broken)
      (hm : Made s₁ (some (hashKey persistId)) rest r s') :
      Obtained s persistId events (r.map fun i => (i, some (hashKey persistId)))
        s'
  | unlisted {r : Except Thrown Nat} {s' : Php} (hp : ¬ 0 < persistId.length)
      (hm : Made s none events r s') :
      Obtained s persistId events (r.map fun i => (i, none)) s'

theorem obtainConn_cases (hs : Linked s) (persistId : List UInt8)
    (events : List Event) :
    s.obtainConn persistId events = .error .blocked
      ∨ ∃ r s', s.obtainConn persistId events = .ok (r, s')
        ∧ Obtained s persistId events r s' := by
  unfold obtainConn
  split
  next hp =>
    dsimp only [bind, Except.bind]
    rcases useExisting_cases hs (hashKey persistId) events
      with hb | ⟨u, s₁, rest, hu, hx⟩
    · rw [hb]
      exact .inl rfl
    · rw [hu]
      cases u with
      | ok i => exact .inr ⟨_, _, rfl, .reused hp hx⟩
      | brokenAndOccupied t => exact .inr ⟨_, _, rfl, .occupied hp hx⟩
      | notFound =>
          rcases newConn_cases s₁ (some (hashKey persistId)) rest
            with hb | ⟨r, s', hr, hm⟩
          · dsimp only
            rw [hb]
            exact .inl rfl
          · dsimp only
            rw [hr]
            exact .inr ⟨_, _, rfl, .listed hp hu hx (.inl rfl) hm⟩
      | broken =>
          rcases newConn_cases s₁ (some (hashKey persistId)) rest
            with hb | ⟨r, s', hr, hm⟩
          · dsimp only
            rw [hb]
            exact .inl rfl
          · dsimp only
            rw [hr]
            exact .inr ⟨_, _, rfl, .listed hp hu hx (.inr rfl) hm⟩
  next hp =>
    dsimp only [bind, Except.bind]
    rcases newConn_cases s none events with hb | ⟨r, s', hr, hm⟩
    · rw [hb]
      exact .inl rfl
    · rw [hr]
      exact .inr ⟨_, _, rfl, .unlisted hp hm⟩

-- ============================================================= operations

theorem Existing.vacant {u : Uepc} (hx : Existing s key events u s')
    (hn : u = .notFound ∨ u = .broken) : s'.persistentList key = none := by
  cases hx with
  | notFound hl => exact hl
  | broken => exact if_pos rfl
  | ok => rcases hn with hn | hn <;> cases hn
  | occupied => rcases hn with hn | hn <;> cases hn

theorem Made.persistentList {pkey : Option Key} {r : Except Thrown Nat}
    (hm : Made s pkey events r s') : s'.persistentList = s.persistentList := by
  cases hm <;> rfl

/-- A key is listed only while it has no entry. -/
theorem Obtained.vacant {persistId : List UInt8}
    (hx : Obtained s persistId events (.ok (i, some key)) s') :
    s'.persistentList key = none := by
  generalize hr : Except.ok (i, some key) = r at hx
  cases hx with
  | reused => cases hr
  | occupied => cases hr
  | @listed u r _ _ _ hp hu hx hn hm =>
      cases r with
      | error => cases hr
      | ok =>
          cases hr
          rw [hm.persistentList]
          exact hx.vacant hn
  | @unlisted r _ hp hm =>
      cases r with
      | error => cases hr
      | ok => cases hr

/-- What an operation makes of the process. -/
inductive Stepped (s : Php) : Op → Php → Prop where
  | new : Stepped s .new s.clientNew
  | failed {o : Nat} {persistId : List UInt8} {events : List Event}
      {obj : ClientObject} {t : Thrown} {s' : Php} (ho : s.object o = some obj)
      (hx : Obtained s persistId events (.error t) s') :
      Stepped s (.construct o persistId events) s'
  | constructed {o : Nat} {persistId : List UInt8} {events : List Event}
      {obj : ClientObject} {i : Nat} {key? : Option Key} {s₁ : Php}
      (ho : s.object o = some obj)
      (hr : s.obtainConn persistId events = .ok (.ok (i, key?), s₁))
      (hx : Obtained s persistId events (.ok (i, key?)) s₁) :
      Stepped s (.construct o persistId events) (s₁.attach o i key?)
  | called {op : Op} {o i : Nat} {c : PhpConn} {res : Link}
      (hop : op.caller = some o) (ho : s.object o = some ⟨some i⟩)
      (hc : s.conn i = some c)
      (hx : Link.Steps op.scope c.res res) :
      Stepped s op (s.put i { c with res })
  | deleted {o : Nat} {events : List Event} (ho : s.object o = some ⟨none⟩) :
      Stepped s (.delete o events) (s.drop o)
  | destructed {o i : Nat} {events : List Event} {c : PhpConn} {s₁ : Php}
      (ho : s.object o = some ⟨some i⟩) (hc : s.conn i = some c)
      (hl : ∀ key, c.pkey = some key → s.persistentList key = some i)
      (hx : Destructed s i c events s₁) :
      Stepped s (.delete o events) (s₁.drop o)

/-- An operation goes on, or stops for a reason other than a freed
connection. -/
def Outcome (s : Php) (op : Op) : Prop :=
  (∃ e, s.step op = .error e ∧ e ≠ .useAfterFree)
    ∨ ∃ s', s.step op = .ok s' ∧ Stepped s op s'

theorem onConn_cases {α : Type} {scope : Link.Scope} {call : LinkCall α}
    (hs : Linked s) (hev : scope.events = events)
    (hw : LinkCall.Within scope call) :
    (∃ e, s.onConn o call events = .error e ∧ e ≠ .useAfterFree)
      ∨ ∃ a i c res, s.onConn o call events = .ok (a, s.put i { c with res })
        ∧ s.object o = some ⟨some i⟩ ∧ s.conn i = some c
        ∧ Link.Steps scope c.res res := by
  unfold onConn
  split
  next => exact .inl ⟨_, rfl, by simp⟩
  next obj ho =>
    obtain ⟨conn?⟩ := obj
    cases conn? with
    | none => exact .inl ⟨_, rfl, by simp⟩
    | some i =>
        obtain ⟨c, hc, -⟩ := hs.held (holders_pos ho)
        dsimp only
        rw [deref_eq hc]
        dsimp only [bind, Except.bind]
        split
        next => exact .inl ⟨_, rfl, by simp⟩
        next a res rest hx =>
          exact .inr ⟨a, i, c, res, rfl, ho, hc,
            (hw (hev ▸ List.suffix_refl _) hx).1⟩

theorem method_cases {α : Type} {op : Op} (call : LinkCall α)
    (hs : Linked s) (hop : op.caller = some o)
    (hw : LinkCall.Within op.scope call)
    (hstep : s.step op = (s.onConn o call op.events).map Prod.snd) :
    Outcome s op := by
  rcases onConn_cases hs op.scope_events hw
    with ⟨e, he, hne⟩ | ⟨a, i, c, res, h, ho, hc, hx⟩
  · rw [he] at hstep
    exact .inl ⟨e, hstep, hne⟩
  · rw [h] at hstep
    exact .inr ⟨_, hstep, .called hop ho hc hx⟩

theorem hashUpdate_eq (hl : s.persistentList key = none) :
    ({ s with objects := s.objects.set o (some ⟨some i⟩) } : Php).hashUpdate
      key i = .ok (s.attach o i (some key)) := by
  rw [hashUpdate, hashDel, hl]
  show Except.ok _ = Except.ok _
  unfold attach
  congr 2
  funext k
  by_cases hk : k = key
  · subst hk
    simp
  · rw [if_neg hk, if_neg (by simpa using fun h => hk h.symm)]

theorem attach_none : s.attach o i none
    = { s with objects := s.objects.set o (some ⟨some i⟩) } := by
  simp [attach]

theorem step_construct {persistId : List UInt8} (hs : Linked s) :
    Outcome s (.construct o persistId events) := by
  unfold Outcome step
  dsimp only
  unfold construct
  cases ho : s.object o with
  | none => exact .inl ⟨_, rfl, by simp⟩
  | some obj =>
      dsimp only [bind, Except.bind]
      rcases obtainConn_cases hs persistId events
        with hb | ⟨r, s₁, hr, hx⟩
      · rw [hb]
        exact .inl ⟨_, rfl, by simp⟩
      · rw [hr]
        match r with
        | .error t => exact .inr ⟨_, rfl, .failed ho hx⟩
        | .ok (i, none) =>
            refine .inr ⟨s₁.attach o i none, ?_, .constructed ho hr hx⟩
            rw [attach_none]
        | .ok (i, some key) =>
            refine .inr ⟨s₁.attach o i (some key), ?_,
              .constructed ho hr hx⟩
            dsimp only
            rw [hashUpdate_eq hx.vacant]

theorem step_delete (hs : Linked s) : Outcome s (.delete o events) := by
  unfold Outcome step
  dsimp only
  unfold clientDelete
  cases ho : s.object o with
  | none => exact .inl ⟨_, rfl, by simp⟩
  | some obj =>
      obtain ⟨conn?⟩ := obj
      cases conn? with
      | none => exact .inr ⟨_, rfl, .deleted ho⟩
      | some i =>
          obtain ⟨c, hc, hl⟩ := hs.held (holders_pos ho)
          dsimp only [bind, Except.bind]
          rcases destructConn_cases events hc hl
            with hb | ⟨s₁, hr, hx⟩
          · rw [hb]
            exact .inl ⟨_, rfl, by simp⟩
          · rw [hr]
            refine .inr ⟨s₁.drop o, ?_, .destructed ho hc hl hx⟩
            rw [drop]

/-- What each operation can do. -/
theorem step_cases (hs : Linked s) (op : Op) : Outcome s op := by
  cases op with
  | new => exact .inr ⟨_, rfl, .new⟩
  | construct o persistId events => exact step_construct hs
  | recv o events =>
      exact method_cases (fun events l => l.recv (.client o) events) hs rfl
        (Link.recv_within (Op.scope (.recv o events))) rfl
  | command o kind events =>
      exact method_cases (fun events l => l.send kind (.client o) events) hs rfl
        (Link.send_within (Op.scope (.command o kind events)) rfl) rfl
  | setTimeout o timeout events =>
      exact method_cases _ hs rfl (Link.setTimeout_within _ trivial) rfl
  | delete o events => exact step_delete hs

-- ================================================================ objects

theorem Existing.objects {u : Uepc} (hx : Existing s key events u s') :
    s'.objects = s.objects := by
  cases hx <;> rfl

theorem Made.objects {pkey : Option Key} {r : Except Thrown Nat}
    (hm : Made s pkey events r s') : s'.objects = s.objects := by
  cases hm <;> rfl

theorem Obtained.objects {persistId : List UInt8}
    {r : Except Thrown (Nat × Option Key)}
    (hx : Obtained s persistId events r s') : s'.objects = s.objects := by
  cases hx with
  | reused hp hx => exact hx.objects
  | occupied hp hx => exact hx.objects
  | listed hp hu hx hn hm => exact hm.objects.trans hx.objects
  | unlisted hp hm => exact hm.objects

theorem Destructed.objects (hx : Destructed s i c events s') :
    s'.objects = s.objects := by
  cases hx <;> rfl

/-- Only a constructor sets the connection of an object. -/
theorem Stepped.object {op : Op} (hx : Stepped s op s')
    (ho : s'.object o = some ⟨some i⟩) :
    op.constructs = some o ∨ s.object o = some ⟨some i⟩ := by
  have hdrop : ∀ {s₁ : Php} {o'}, s₁.objects = s.objects →
      (s₁.drop o').object o = some ⟨some i⟩ →
      s.object o = some ⟨some i⟩ := by
    intro s₁ o' hobj hd
    unfold Php.object Php.drop at hd
    rw [hobj] at hd
    by_cases hlt : o' < s.objects.length
    · rw [Slots.get_set hlt] at hd
      split at hd
      next => cases hd
      next => exact hd
    · rwa [List.set_eq_of_length_le (by omega)] at hd
  cases hx with
  | new =>
      have hd := (Slots.get_append (l := s.objects) (j := o)).symm.trans ho
      split at hd
      next => cases hd
      next => exact .inr hd
  | failed hobj hx =>
      right
      rwa [Php.object, hx.objects] at ho
  | @constructed o' _ _ _ _ key? s₁ hobj hr hx =>
      have hlt := Slots.lt_of_get hobj
      unfold Php.object Php.attach at ho
      rw [hx.objects, Slots.get_set hlt] at ho
      split at ho
      next heq => exact .inl (congrArg some heq.symm)
      next => exact .inr ho
  | called => exact .inr ho
  | deleted => exact .inr (hdrop rfl ho)
  | destructed _ _ _ hx => exact .inr (hdrop hx.objects ho)

-- ============================================================ connections

/-- What a constructor does not change until it connects. -/
structure Cleared (s s' : Php) : Prop where
  objects : s'.objects = s.objects
  heap : s'.heap.length = s.heap.length
  newRes : s'.newRes = s.newRes
  timeout : s'.timeout = s.timeout
  listed : ∀ {key i}, s'.persistentList key = some i →
    s.persistentList key = some i

theorem cleared_evict : Cleared s (s.evict key i c) where
  objects := rfl
  heap := by simp [Php.evict, closeAndFree]
  newRes := by
    unfold newRes Php.evict closeAndFree
    split <;> simp
  timeout := rfl
  listed {k j} hl := by
    change (if k = key then none else s.persistentList k) = _ at hl
    split at hl
    next => cases hl
    next => exact hl

/-- Nothing found, or a broken connection evicted. -/
theorem Existing.cleared {u : Uepc} (hx : Existing s key events u s')
    (hn : u = .notFound ∨ u = .broken) : Cleared s s' := by
  cases hx with
  | notFound => exact ⟨rfl, rfl, rfl, rfl, id⟩
  | broken => exact cleared_evict
  | ok => rcases hn with hn | hn <;> cases hn
  | occupied => rcases hn with hn | hn <;> cases hn

theorem Checked.steps {good : Bool} {res : Link}
    (hx : Checked s c events good res) :
    Link.Steps (.checking events) c.res res := by
  cases hx with
  | unchecked => exact .refl
  | alive _ hx => exact Link.checkPersistentConnection_steps hx
  | broken _ hx => exact Link.checkPersistentConnection_steps hx

theorem newRes_sock {timeout : Int} {e : Error} {res : Link}
    {rest : List Event}
    (hx : s.newRes.setTimeout timeout events = some (e, res, rest)) :
    res.sock = s.newRes.sock :=
  have hs : Link.Steps (.checking events) s.newRes res :=
    ((Link.setTimeout_cases hx).steps trivial).1
  hs.sock

/-- A connection comes from one before by these steps, or is new. -/
def Comes (scope : Link.Scope) (s : Php) (i : Nat) (c' : PhpConn) : Prop :=
  (∃ c, s.conn i = some c ∧ c'.pkey = c.pkey ∧ Link.Steps scope c.res c'.res)
    ∨ i = s.heap.length ∧ Link.Steps scope s.newRes c'.res

section Comes

variable {scope : Link.Scope} {c' d : PhpConn} {j : Nat}

theorem Comes.of_put (hc : s.conn i = some c)
    (hd : (s.put i c').conn j = some d) (hk : c'.pkey = c.pkey)
    (hs : Link.Steps scope c.res c'.res) : Comes scope s j d := by
  rw [conn_put hc] at hd
  split at hd
  next hj =>
    cases hd
    exact .inl ⟨c, hj ▸ hc, hk, hs⟩
  next => exact .inl ⟨d, hd, rfl, .refl⟩

theorem Comes.of_evict (hc : s.conn i = some c)
    (hd : (s.evict key i c).conn j = some d) : Comes scope s j d := by
  have hd := (conn_closeAndFree hc j).symm.trans hd
  split at hd
  next => cases hd
  next => exact .inl ⟨d, hd, rfl, .refl⟩

theorem Existing.comes {u : Uepc} (hx : Existing s key events u s')
    (hd : s'.conn j = some d) : Comes (.checking events) s j d := by
  cases hx with
  | notFound => exact .inl ⟨d, hd, rfl, .refl⟩
  | ok _ hc hx => exact .of_put hc hd rfl hx.steps
  | broken _ hc => exact .of_evict hc hd
  | occupied _ hc hx => exact .of_put hc hd rfl hx.steps

theorem Made.comes {pkey : Option Key} {r : Except Thrown Nat}
    {rest : List Event} (hm : Made s pkey rest r s')
    (hd : s'.conn j = some d) : Comes (.checking events) s j d := by
  have hpush : ∀ {res e rest rest'},
      s.newRes.setTimeout s.timeout rest = some (e, res, rest') →
      (s.push ⟨pkey, 1, res⟩).conn j = some d →
      Comes (.checking events) s j d := by
    intro res e rest rest' hset hd
    rw [conn_push] at hd
    split at hd
    next hj =>
      cases hd
      exact .inr ⟨hj, ((Link.setTimeout_cases hset).steps trivial).1⟩
    next => exact .inl ⟨d, hd, rfl, .refl⟩
  cases hm with
  | refused => exact .inl ⟨d, hd, rfl, .refl⟩
  | orphaned _ hset => exact hpush hset hd
  | made hset => exact hpush hset hd

theorem Obtained.comes {persistId : List UInt8}
    {r : Except Thrown (Nat × Option Key)}
    (hx : Obtained s persistId events r s') (hd : s'.conn j = some d) :
    Comes (.checking events) s j d := by
  cases hx with
  | reused hp hx => exact hx.comes hd
  | occupied hp hx => exact hx.comes hd
  | listed hp hu hx hn hm =>
      rcases hm.comes hd with ⟨c, hc, hk, hs⟩ | ⟨hj, hs⟩
      · rcases hx.comes hc with ⟨c₀, hc₀, hk₀, hs₀⟩ | ⟨hj, hs₀⟩
        · exact .inl ⟨c₀, hc₀, hk.trans hk₀, hs₀.trans hs⟩
        · exact .inr ⟨hj, hs₀.trans hs⟩
      · have hcl := hx.cleared hn
        rw [hcl.heap] at hj
        rw [hcl.newRes] at hs
        exact .inr ⟨hj, hs⟩
  | unlisted hp hm => exact hm.comes hd

theorem Destructed.comes (hc : s.conn i = some c)
    (hx : Destructed s i c events s') (hd : s'.conn j = some d) :
    Comes (.unlocking events) s j d := by
  cases hx with
  | closed =>
      have hd := (conn_closeAndFree hc j).symm.trans hd
      split at hd
      next => cases hd
      next => exact .inl ⟨d, hd, rfl, .refl⟩
  | kept _ hx => exact .of_put hc hd rfl (Link.unlockAndDrain_steps hx)
  | evicted => exact .of_evict hc hd

/-- What an operation does to the connections. -/
theorem Stepped.comes {op : Op} (hx : Stepped s op s')
    (hd : s'.conn j = some d) : Comes op.scope s j d := by
  cases hx with
  | new => exact .inl ⟨d, hd, rfl, .refl⟩
  | failed _ hx => exact hx.comes hd
  | constructed _ _ hx => exact hx.comes hd
  | called _ _ hc hx => exact .of_put hc hd rfl hx
  | deleted => exact .inl ⟨d, hd, rfl, .refl⟩
  | destructed _ hc _ hx => exact hx.comes hc hd

end Comes

-- ============================================================= the list

section Listed

variable {k : Key} {j : Nat}

theorem Existing.sublist {u : Uepc} (hx : Existing s key events u s')
    (hl : s'.persistentList k = some j) : s.persistentList k = some j := by
  cases hx with
  | broken => exact cleared_evict.listed hl
  | _ => exact hl

/-- Up to the assignment of `obj->conn`, a constructor lists nothing. -/
theorem Obtained.sublist {persistId : List UInt8}
    {r : Except Thrown (Nat × Option Key)}
    (hx : Obtained s persistId events r s')
    (hl : s'.persistentList k = some j) : s.persistentList k = some j := by
  cases hx with
  | reused _ hx => exact hx.sublist hl
  | occupied _ hx => exact hx.sublist hl
  | listed _ _ hx _ hm => exact hx.sublist (hm.persistentList ▸ hl)
  | unlisted _ hm => exact hm.persistentList ▸ hl

theorem Destructed.sublist (hx : Destructed s i c events s')
    (hl : s'.persistentList k = some j) : s.persistentList k = some j := by
  cases hx with
  | evicted => exact cleared_evict.listed hl
  | _ => exact hl

/-- A new entry of the list is the connection a constructor just made. -/
theorem Stepped.listed {op : Op} (hx : Stepped s op s')
    (hl : s'.persistentList k = some j) :
    s.persistentList k = some j ∨ ∃ o persistId events s₁,
      op = .construct o persistId events
        ∧ Obtained s persistId events (.ok (j, some k)) s₁ := by
  cases hx with
  | failed _ hx => exact .inl (hx.sublist hl)
  | @constructed o persistId events obj i key? s₁ ho hr hx =>
      change (if key? = some k then some i else s₁.persistentList k) = _ at hl
      split at hl
      next hk =>
        cases hl
        subst hk
        exact .inr ⟨o, persistId, events, s₁, rfl, hx⟩
      next => exact .inl (hx.sublist hl)
  | destructed _ _ _ hx => exact .inl (hx.sublist hl)
  | _ => exact .inl hl

end Listed

-- ================================================================== frame

/-- What no operation does: change the settings, or reuse memory. -/
structure Frame (s s' : Php) : Prop where
  ini : s'.ini = s.ini
  heap : s.heap.length ≤ s'.heap.length

theorem Frame.trans {s₁ s₂ s₃ : Php} (h : Frame s₁ s₂) (h' : Frame s₂ s₃) :
    Frame s₁ s₃ :=
  ⟨h'.ini.trans h.ini, h.heap.trans h'.heap⟩

theorem Existing.frame {u : Uepc} (hx : Existing s key events u s') :
    Frame s s' := by
  cases hx <;> exact ⟨rfl, by simp [put, evict, closeAndFree]⟩

theorem Made.frame {pkey : Option Key} {r : Except Thrown Nat}
    (hm : Made s pkey events r s') : Frame s s' := by
  cases hm <;> exact ⟨rfl, by simp [push]⟩

theorem Obtained.frame {persistId : List UInt8}
    {r : Except Thrown (Nat × Option Key)}
    (hx : Obtained s persistId events r s') : Frame s s' := by
  cases hx with
  | reused _ hx => exact hx.frame
  | occupied _ hx => exact hx.frame
  | listed _ _ hx _ hm => exact hx.frame.trans hm.frame
  | unlisted _ hm => exact hm.frame

theorem Stepped.frame {op : Op} (hx : Stepped s op s') : Frame s s' := by
  cases hx with
  | new => exact ⟨rfl, Nat.le_refl _⟩
  | failed _ hx => exact hx.frame
  | constructed _ _ hx => exact ⟨hx.frame.ini, hx.frame.heap⟩
  | called => exact ⟨rfl, by simp [put]⟩
  | deleted => exact ⟨rfl, Nat.le_refl _⟩
  | destructed _ _ _ hx =>
      cases hx <;> exact ⟨rfl, by simp [drop, put, evict, closeAndFree]⟩

end Php

end Yrmcds
