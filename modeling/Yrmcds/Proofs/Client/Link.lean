/-
What happens to a connection during a call on it.

A call is a few small steps (`Step`): timeouts are set, a request is sent,
lost or garbled, a response is received. What every step keeps is kept by
every call, so a call only has to be cut into its steps once. The requests
it sends and the party it acts for are parameters, because the extension's
own exchanges are told apart by them.

# Draining

Both of these exchanges send a request that gets exactly one response and
then receive until the response carries its serial. They leave nothing
floating, because no response before it carries that serial: serials are
the places of the requests in the log modulo 2^32 (`InOrder`), and fewer
than 2^32 requests are outstanding (`FewOutstanding`). Behind a torn frame
nothing is known of the serials.
-/
import Mathlib.Logic.Relation
import Yrmcds.Model.Client

namespace Yrmcds

namespace Link

-- ================================================================== steps

/-- What a call may do, and for whom: the requests it sends, whether it
sets the timeouts, and what it may meet. -/
structure Scope where
  sends : Kind → Prop
  timeouts : Prop
  party : Party
  events : List Event

/-- `check_persistent_connection` sends nothing but a noop. -/
def Scope.checking (events : List Event) : Scope :=
  ⟨(.noop = ·), True, .extension, events⟩

/-- `destruct_conn` sends nothing but an unlockall. -/
def Scope.unlocking (events : List Event) : Scope :=
  ⟨(.unlockAll false = ·), True, .extension, events⟩

/-- One change of a connection in a call. -/
inductive Step (scope : Scope) : Link → Link → Prop where
  | timeouts (l : Link) (rcv snd : Int) (ht : scope.timeouts) :
      Step scope l { l with rcvTimeout := rcv, sndTimeout := snd }
  | lost (l : Link) {kind : Kind} {torn : Option Nat} (hk : scope.sends kind)
      (ht : torn = l.torn ∨ l.torn = none ∧ torn = some l.log.length) :
      Step scope l { l with
        serial := l.serial + 1
        torn
        log := l.log ++ [⟨kind, scope.party, .lost, []⟩] }
  | garbled (l : Link) {kind : Kind} {ok : Bool} {replies : List Reply}
      (hk : scope.sends kind) (hev : .garbled ok replies ∈ scope.events)
      (hg : l.Garbles replies = true) :
      Step scope l { l with
        serial := l.serial + 1
        log := l.log ++ [⟨kind, scope.party, .garbled, []⟩]
        floating := l.floating ++ replies }
  | sent (l : Link) {kind : Kind} {answers : List Status}
      (hk : scope.sends kind) (ht : l.torn = none)
      (ha : kind.allows answers = true) :
      Step scope l { l with
        serial := l.serial + 1
        log := l.log ++ [⟨kind, scope.party, .complete, answers⟩]
        floating := l.floating ++ answers.map fun status =>
          ⟨l.serial + 1, status, l.log.length⟩ }
  | failed (l : Link) (invalid : Bool) (hv : ¬ l.invalid = true) :
      Step scope l { l with invalid }
  | received (l : Link) {r : Reply} {floating : List Reply}
      (hv : ¬ l.invalid = true) (hf : l.floating = r :: floating) :
      Step scope l { l with
        floating
        taken := l.taken ++ [(r, scope.party)] }

/-- Any number of steps. -/
abbrev Steps (scope : Scope) : Link → Link → Prop :=
  Relation.ReflTransGen (Step scope)

end Link

theorem Kind.noop_once (answers : List Status)
    (h : Kind.noop.allows answers = true) : answers.length = 1 := by
  simpa [Kind.allows] using h

theorem Kind.unlockAll_once (answers : List Status)
    (h : (Kind.unlockAll false).allows answers = true) :
    answers.length = 1 := by
  simpa [Kind.allows] using h

/-- A call that consists of such steps, and meets its events in turn. -/
def LinkCall.Within {α : Type} (scope : Link.Scope) (call : LinkCall α) :
    Prop :=
  ∀ {events l a l' events'}, events <:+ scope.events →
    call events l = some (a, l', events') →
      Link.Steps scope l l' ∧ events' <:+ events

namespace Link

open Relation (ReflTransGen)

variable {scope : Scope} {l l' : Link}

theorem garbles_iff {replies : List Reply} : l.Garbles replies = true ↔
    ∃ first, l.torn = some first
      ∧ ∀ r ∈ replies, first ≤ r.request ∧ r.request ≤ l.log.length := by
  simp [Garbles, Option.any_eq_true]

/-- What a single step keeps, any number of steps keeps. -/
theorem Steps.keep {I : Link → Prop}
    (hstep : ∀ {l l'}, Step scope l l' → I l → I l')
    (h : Steps scope l l') (hl : I l) : I l' := by
  induction h with
  | refl => exact hl
  | tail _ hs ih => exact hstep hs ih

-- ================================================================== calls

/-- What `yrmcds_set_timeout` does. -/
inductive TimeoutSet (timeout : Int) (l : Link) :
    List Event → Error → Link → List Event → Prop where
  | negative {events : List Event} (ht : timeout < 0) :
      TimeoutSet timeout l events .badArgument l events
  | neither {rest : List Event} :
      TimeoutSet timeout l (.sockopt false :: rest) .systemError l rest
  | receiving {rest : List Event} :
      TimeoutSet timeout l (.sockopt true :: .sockopt false :: rest)
        .systemError { l with rcvTimeout := timeout } rest
  | both {rest : List Event} (ht : 0 ≤ timeout) :
      TimeoutSet timeout l (.sockopt true :: .sockopt true :: rest) .ok
        { l with rcvTimeout := timeout, sndTimeout := timeout } rest

theorem setTimeout_cases {timeout : Int} {e : Error} {events rest : List Event}
    (h : l.setTimeout timeout events = some (e, l', rest)) :
    TimeoutSet timeout l events e l' rest := by
  unfold setTimeout at h
  split at h
  next ht =>
    cases h
    exact .negative ht
  next ht =>
    split at h
    next =>
      cases h
      exact .neither
    next =>
      cases h
      exact .receiving
    next =>
      cases h
      exact .both (Int.not_lt.mp ht)
    next => cases h

/-- What a command function does. -/
inductive Sent (kind : Kind) (p : Party) (l : Link) :
    List Event → Except Failure UInt32 → Link → List Event → Prop where
  | refused {e : Failure} {rest : List Event} :
      Sent kind p l (.refused e :: rest) (.error e) l rest
  | lost {event : Event} {e : Failure} {torn : Option Nat}
      {rest : List Event}
      (ht : torn = l.torn ∨ l.torn = none ∧ torn = some l.log.length) :
      Sent kind p l (event :: rest) (.error e)
        { l with
          serial := l.serial + 1
          torn
          log := l.log ++ [⟨kind, p, .lost, []⟩] } rest
  | complete {answers : List Status} {rest : List Event} (ht : l.torn = none)
      (ha : kind.allows answers = true) :
      Sent kind p l (.sent answers :: rest) (.ok (l.serial + 1))
        { l with
          serial := l.serial + 1
          log := l.log ++ [⟨kind, p, .complete, answers⟩]
          floating := l.floating ++ answers.map fun status =>
            ⟨l.serial + 1, status, l.log.length⟩ } rest
  | garbled {ok : Bool} {replies : List Reply} {x : Except Failure UInt32}
      {rest : List Event} (hg : l.Garbles replies = true) :
      Sent kind p l (.garbled ok replies :: rest) x
        { l with
          serial := l.serial + 1
          log := l.log ++ [⟨kind, p, .garbled, []⟩]
          floating := l.floating ++ replies } rest

theorem send_cases {kind : Kind} {p : Party} {x : Except Failure UInt32}
    {events rest : List Event}
    (h : l.send kind p events = some (x, l', rest)) :
    Sent kind p l events x l' rest := by
  unfold send at h
  dsimp only at h
  split at h
  next =>
    cases h
    exact .refused
  next =>
    cases h
    exact .lost (.inl rfl)
  next =>
    split at h
    next => cases h
    next hn =>
      cases h
      exact .lost (.inr ⟨by simpa using hn, rfl⟩)
  next =>
    split at h
    next ha =>
      cases h
      exact .complete ha.1 ha.2
    next => cases h
  next =>
    split at h
    next hg =>
      cases h
      exact .garbled hg
    next => cases h
  next => cases h

/-- What `yrmcds_recv` does. -/
inductive Received (p : Party) (l : Link) :
    List Event → Except Failure Reply → Link → List Event → Prop where
  | invalid {events : List Event} (hv : l.invalid = true) :
      Received p l events (.error ⟨.protocolError, nofun⟩) l events
  | failed {e : Failure} {rest : List Event} (hv : ¬ l.invalid = true) :
      Received p l (.recvFailed e :: rest) (.error e)
        { l with invalid := e.val == .protocolError } rest
  | reply {r : Reply} {floating : List Reply} {rest : List Event}
      (hv : ¬ l.invalid = true) (hf : l.floating = r :: floating) :
      Received p l (.reply :: rest) (.ok r)
        { l with floating, taken := l.taken ++ [(r, p)] } rest

theorem recv_cases {p : Party} {x : Except Failure Reply}
    {events rest : List Event} (h : l.recv p events = some (x, l', rest)) :
    Received p l events x l' rest := by
  unfold recv at h
  split at h
  next hv =>
    cases h
    exact .invalid hv
  next hv =>
    split at h
    next =>
      cases h
      exact .failed hv
    next =>
      split at h
      next => cases h
      next hf =>
        cases h
        exact .reply hv hf
    next => cases h

/-- What a drain loop does. -/
inductive DrainedUntil (serial : UInt32) :
    Link → List Event → Except Failure Reply → Link → List Event → Prop where
  | failed {l l' : Link} {e : Failure} {events rest : List Event}
      (hr : Received .extension l events (.error e) l' rest) :
      DrainedUntil serial l events (.error e) l' rest
  | skipped {l l₁ l' : Link} {r : Reply} {x : Except Failure Reply}
      {events events₁ rest : List Event}
      (hr : Received .extension l events (.ok r) l₁ events₁)
      (hne : r.serial ≠ serial) (hd : DrainedUntil serial l₁ events₁ x l' rest) :
      DrainedUntil serial l events x l' rest
  | found {l l' : Link} {r : Reply} {events rest : List Event}
      (hr : Received .extension l events (.ok r) l' rest)
      (heq : r.serial = serial) :
      DrainedUntil serial l events (.ok r) l' rest

theorem drainUntil_cases {serial : UInt32} {x : Except Failure Reply}
    {events rest : List Event}
    (h : l.drainUntil serial events = some (x, l', rest)) :
    DrainedUntil serial l events x l' rest := by
  unfold drainUntil at h
  generalize events.length + 1 = fuel at h
  induction fuel generalizing events l with
  | zero => cases h
  | succ fuel ih =>
      rw [drainLoop] at h
      dsimp only at h
      split at h
      next => cases h
      next hr =>
        cases h
        exact .failed (recv_cases hr)
      next hr =>
        split at h
        next hne => exact .skipped (recv_cases hr) hne (ih h)
        next heq =>
          cases h
          exact .found (recv_cases hr) (not_not.mp heq)

/-- What an exchange of the extension does: its request is sent and then,
unless that failed, the loop drains up to its response. -/
inductive Exchanged (kind : Kind) (l : Link) :
    List Event → Except Failure Reply → Link → List Event → Prop where
  | unsent {l' : Link} {e : Failure} {events rest : List Event}
      (hs : Sent kind .extension l events (.error e) l' rest) :
      Exchanged kind l events (.error e) l' rest
  | drained {l₁ l' : Link} {serial : UInt32} {x : Except Failure Reply}
      {events events₁ rest : List Event}
      (hs : Sent kind .extension l events (.ok serial) l₁ events₁)
      (hd : DrainedUntil serial l₁ events₁ x l' rest) :
      Exchanged kind l events x l' rest

/-- The exchange of a destructor, with timeouts set or not. -/
theorem unlockAndDrain_cases {timeout : Int} {good : Bool}
    {events rest : List Event}
    (h : l.unlockAndDrain timeout events = some (good, l', rest)) :
    ∃ e l₁ events₁ x, TimeoutSet timeout l events e l₁ events₁
      ∧ Exchanged (.unlockAll false) l₁ events₁ x l' rest
      ∧ (good = true → ∃ r, x = .ok r
        ∧ (r.status = Status.ok ∨ r.status = Status.unknownCommand)) := by
  unfold unlockAndDrain at h
  split at h
  next => cases h
  next e l₁ events₁ hset =>
    refine ⟨e, l₁, events₁, ?_⟩
    have hset := setTimeout_cases hset
    split at h
    next => cases h
    next hs =>
      cases h
      exact ⟨_, hset, .unsent (send_cases hs), nofun⟩
    next hs =>
      have hs := send_cases hs
      split at h
      next => cases h
      next hd =>
        cases h
        exact ⟨_, hset, .drained hs (drainUntil_cases hd), nofun⟩
      next r _ _ hd =>
        cases h
        exact ⟨_, hset, .drained hs (drainUntil_cases hd),
          fun hgood => ⟨r, rfl, of_decide_eq_true hgood⟩⟩

/-- What `check_persistent_connection` does. -/
inductive Probed (timeout : Int) (l : Link) :
    List Event → Error × Status → Link → List Event → Prop where
  | unset {l' : Link} {e : Error} {events rest : List Event}
      (hset : TimeoutSet 1 l events e l' rest) (he : e ≠ .ok) :
      Probed timeout l events (e, Status.ok) l' rest
  | broken {l₁ l' : Link} {x : Except Failure Reply} {y : Error × Status}
      {events events₁ rest : List Event}
      (hset : TimeoutSet 1 l events .ok l₁ events₁)
      (hx : Exchanged .noop l₁ events₁ x l' rest)
      (hbad : y ≠ (.ok, Status.ok)) : Probed timeout l events y l' rest
  | alive {l₁ l₂ l' : Link} {r : Reply} {e : Error}
      {events events₁ events₂ rest : List Event}
      (hset : TimeoutSet 1 l events .ok l₁ events₁)
      (hx : Exchanged .noop l₁ events₁ (.ok r) l₂ events₂)
      (hset' : TimeoutSet timeout l₂ events₂ e l' rest) :
      Probed timeout l events (e, Status.ok) l' rest

theorem checkPersistentConnection_cases {timeout : Int} {y : Error × Status}
    {events rest : List Event}
    (h : l.checkPersistentConnection timeout events = some (y, l', rest)) :
    Probed timeout l events y l' rest := by
  unfold checkPersistentConnection at h
  split at h
  next => cases h
  next e _ _ hset =>
    have hset := setTimeout_cases hset
    split at h
    next he =>
      cases h
      exact .unset hset he
    next he =>
      obtain rfl : e = .ok := not_not.mp he
      have hfailed : ∀ (e : Failure), (e.val, Status.ok) ≠ (.ok, Status.ok) :=
        fun e heq => e.property (congrArg Prod.fst heq)
      split at h
      next => cases h
      next e _ _ hs =>
        cases h
        exact .broken hset (.unsent (send_cases hs)) (hfailed e)
      next hs =>
        have hs := send_cases hs
        split at h
        next => cases h
        next e _ _ hd =>
          cases h
          exact .broken hset (.drained hs (drainUntil_cases hd)) (hfailed e)
        next hd =>
          have hx := Exchanged.drained hs (drainUntil_cases hd)
          split at h
          next hbad =>
            cases h
            exact .broken hset hx fun heq => hbad (congrArg Prod.snd heq)
          next hr =>
            split at h
            next => cases h
            next hset' =>
              cases h
              rw [not_not.mp hr]
              exact .alive hset hx (setTimeout_cases hset')

-- =========================================================== calls as steps

theorem TimeoutSet.steps {timeout : Int} {e : Error} {events rest : List Event}
    (ht : scope.timeouts) (h : TimeoutSet timeout l events e l' rest) :
    Steps scope l l' ∧ rest <:+ events := by
  have htwo : ∀ a b : Event, rest <:+ a :: b :: rest := fun _ _ =>
    (List.suffix_cons ..).trans (List.suffix_cons ..)
  cases h with
  | negative => exact ⟨.refl, List.suffix_refl _⟩
  | neither => exact ⟨.refl, List.suffix_cons ..⟩
  | receiving => exact ⟨.single (.timeouts _ timeout _ ht), htwo _ _⟩
  | both => exact ⟨.single (.timeouts _ timeout timeout ht), htwo _ _⟩

theorem Sent.steps {kind : Kind} {x : Except Failure UInt32}
    {events rest : List Event} (hk : scope.sends kind)
    (hev : events <:+ scope.events)
    (h : Sent kind scope.party l events x l' rest) :
    Steps scope l l' ∧ rest <:+ events := by
  cases h with
  | refused => exact ⟨.refl, List.suffix_cons ..⟩
  | lost ht => exact ⟨.single (.lost _ hk ht), List.suffix_cons ..⟩
  | complete ht ha => exact ⟨.single (.sent _ hk ht ha), List.suffix_cons ..⟩
  | garbled hg =>
      exact ⟨.single (.garbled _ hk (hev.subset List.mem_cons_self) hg),
        List.suffix_cons ..⟩

theorem Received.steps {x : Except Failure Reply} {events rest : List Event}
    (h : Received scope.party l events x l' rest) :
    Steps scope l l' ∧ rest <:+ events := by
  cases h with
  | invalid => exact ⟨.refl, List.suffix_refl _⟩
  | failed hv => exact ⟨.single (.failed _ _ hv), List.suffix_cons ..⟩
  | reply hv hf => exact ⟨.single (.received _ hv hf), List.suffix_cons ..⟩

theorem DrainedUntil.steps {serial : UInt32} {x : Except Failure Reply}
    {events rest : List Event} (hp : scope.party = .extension)
    (h : DrainedUntil serial l events x l' rest) :
    Steps scope l l' ∧ rest <:+ events := by
  induction h with
  | failed hr => exact Received.steps (hp ▸ hr)
  | skipped hr _ _ ih =>
      obtain ⟨h₁, hev₁⟩ : Steps scope _ _ ∧ _ := Received.steps (hp ▸ hr)
      exact ⟨h₁.trans ih.1, ih.2.trans hev₁⟩
  | found hr => exact Received.steps (hp ▸ hr)

theorem Exchanged.steps {kind : Kind} {x : Except Failure Reply}
    {events rest : List Event} (hk : scope.sends kind)
    (hp : scope.party = .extension) (hev : events <:+ scope.events)
    (h : Exchanged kind l events x l' rest) :
    Steps scope l l' ∧ rest <:+ events := by
  cases h with
  | unsent hs => exact Sent.steps hk hev (hp ▸ hs)
  | drained hs hd =>
      obtain ⟨h₁, hev₁⟩ : Steps scope l _ ∧ _ := Sent.steps hk hev (hp ▸ hs)
      obtain ⟨h₂, hev₂⟩ : Steps scope _ l' ∧ _ := hd.steps hp
      exact ⟨h₁.trans h₂, hev₂.trans hev₁⟩

theorem setTimeout_within (timeout : Int) (ht : scope.timeouts) :
    LinkCall.Within scope (fun events l => l.setTimeout timeout events) :=
  fun _ h => (setTimeout_cases h).steps ht

theorem send_within (scope : Scope) {kind : Kind} (hk : scope.sends kind) :
    LinkCall.Within scope (fun events l => l.send kind scope.party events) :=
  fun hev h => (send_cases h).steps hk hev

theorem recv_within (scope : Scope) :
    LinkCall.Within scope (fun events l => l.recv scope.party events) :=
  fun _ h => (recv_cases h).steps

theorem drainUntil_within (serial : UInt32) (hp : scope.party = .extension) :
    LinkCall.Within scope (fun events l => l.drainUntil serial events) :=
  fun _ h => (drainUntil_cases h).steps hp

theorem unlockAndDrain_within (timeout : Int) (events : List Event) :
    LinkCall.Within (.unlocking events)
      (fun events l => l.unlockAndDrain timeout events) := by
  intro events l good l' rest hev h
  obtain ⟨e, l₁, events₁, x, hset, hx, -⟩ := unlockAndDrain_cases h
  obtain ⟨h₁, hev₁⟩ : Steps (.unlocking _) l l₁ ∧ _ := hset.steps trivial
  obtain ⟨h₂, hev₂⟩ := hx.steps rfl rfl (hev₁.trans hev)
  exact ⟨h₁.trans h₂, hev₂.trans hev₁⟩

theorem checkPersistentConnection_within (timeout : Int)
    (events : List Event) :
    LinkCall.Within (.checking events)
      (fun events l => l.checkPersistentConnection timeout events) := by
  intro events l y l' rest hev h
  cases checkPersistentConnection_cases h with
  | unset hset => exact hset.steps trivial
  | @broken l₁ _ _ _ _ _ _ hset hx =>
      obtain ⟨h₁, hev₁⟩ : Steps (.checking _) l l₁ ∧ _ := hset.steps trivial
      obtain ⟨h₂, hev₂⟩ := hx.steps rfl rfl (hev₁.trans hev)
      exact ⟨h₁.trans h₂, hev₂.trans hev₁⟩
  | @alive l₁ l₂ _ _ _ _ _ _ _ hset hx hset' =>
      obtain ⟨h₁, hev₁⟩ : Steps (.checking _) l l₁ ∧ _ := hset.steps trivial
      obtain ⟨h₂, hev₂⟩ := hx.steps rfl rfl (hev₁.trans hev)
      obtain ⟨h₃, hev₃⟩ : Steps (.checking _) l₂ l' ∧ _ := hset'.steps trivial
      exact ⟨(h₁.trans h₂).trans h₃, (hev₃.trans hev₂).trans hev₁⟩

theorem unlockAndDrain_steps {timeout : Int} {good : Bool}
    {events rest : List Event}
    (h : l.unlockAndDrain timeout events = some (good, l', rest)) :
    Steps (.unlocking events) l l' :=
  (unlockAndDrain_within timeout events (List.suffix_refl _) h).1

theorem checkPersistentConnection_steps {timeout : Int} {x : Error × Status}
    {events rest : List Event}
    (h : l.checkPersistentConnection timeout events = some (x, l', rest)) :
    Steps (.checking events) l l' :=
  (checkPersistentConnection_within timeout events (List.suffix_refl _) h).1

/-- No call touches the socket. -/
theorem Steps.sock (h : Steps scope l l') : l'.sock = l.sock :=
  h.keep (I := fun l' => l'.sock = l.sock)
    (fun hs hl => by cases hs <;> exact hl) rfl

-- =============================================================== in order

/-- Serials count the requests, and so tell which request a response
answers, unless a frame was torn. -/
structure InOrder (l : Link) : Prop where
  serial : l.serial = UInt32.ofNat l.log.length
  request : ∀ r ∈ l.floating, r.request < l.log.length
  answers : l.torn = none →
    ∀ r ∈ l.floating, r.serial = UInt32.ofNat (r.request + 1)

/-- Fewer than 2^32 requests were sent since the oldest one with an unread
response. -/
def FewOutstanding (l : Link) : Prop :=
  ∀ r ∈ l.floating, l.log.length < r.request + 2 ^ 32

theorem inOrder_connected (fd : Nat) : InOrder (connected fd) where
  serial := (rfl)
  request := by simp [connected]
  answers _ := by simp [connected]

theorem InOrder.timeouts (h : InOrder l) (rcv snd : Int) :
    InOrder { l with rcvTimeout := rcv, sndTimeout := snd } :=
  ⟨h.serial, h.request, h.answers⟩

theorem InOrder.next (h : InOrder l) :
    l.serial + 1 = UInt32.ofNat (l.log.length + 1) := by
  rw [h.serial, UInt32.ofNat_add]
  rfl

theorem Step.inOrder (hs : Step scope l l') (h : InOrder l) :
    InOrder l' := by
  cases hs with
  | timeouts => exact h.timeouts _ _
  | failed => exact ⟨h.serial, h.request, h.answers⟩
  | lost _ ht =>
      refine ⟨?_, ?_, fun hno r hr => h.answers ?_ r hr⟩
      · simpa using h.next
      · intro r hr
        have := h.request r hr
        simp
        omega
      · rcases ht with ht | ⟨ht, -⟩
        · exact ht.symm.trans hno
        · exact ht
  | garbled _ _ hg =>
      obtain ⟨first, ht, hr⟩ := garbles_iff.mp hg
      refine ⟨by simpa using h.next, ?_, fun hno => ?_⟩
      · intro r hmem
        rw [List.length_append, List.length_singleton]
        obtain hmem | hmem := List.mem_append.mp hmem
        · have := h.request r hmem
          omega
        · have := (hr r hmem).2
          omega
      · cases ht.symm.trans hno
  | sent =>
      refine ⟨by simpa using h.next, ?_, ?_⟩
      · intro r hr
        simp only [List.mem_append, List.mem_map] at hr
        rcases hr with hr | ⟨status, _, rfl⟩
        · have := h.request r hr
          simp
          omega
        · simp
      · intro hno r hr
        simp only [List.mem_append, List.mem_map] at hr
        rcases hr with hr | ⟨status, _, rfl⟩
        · exact h.answers hno r hr
        · exact h.next
  | received _ hf =>
      refine ⟨h.serial, fun r hr => h.request r ?_,
        fun hno r hr => h.answers hno r ?_⟩
      · rw [hf]
        exact List.mem_cons_of_mem _ hr
      · rw [hf]
        exact List.mem_cons_of_mem _ hr

theorem Steps.inOrder (hs : Steps scope l l') (h : InOrder l) :
    InOrder l' :=
  hs.keep Step.inOrder h

/-- No unread response carries the serial of the next request. -/
theorem InOrder.fresh (h : InOrder l) (hw : FewOutstanding l)
    (ht : l.torn = none) {r : Reply} (hr : r ∈ l.floating) :
    r.serial ≠ l.serial + 1 := by
  intro heq
  have hlt := h.request r hr
  have hw := hw r hr
  rw [h.answers ht r hr, h.next] at heq
  have := congrArg UInt32.toNat heq
  simp only [UInt32.toNat_ofNat'] at this
  omega

-- ============================================================== exchanges

/-- A drain loop stops at the first response with its serial. -/
theorem DrainedUntil.eq {serial : UInt32} {front : List Reply} {x r : Reply}
    {events rest : List Event} (hf : l.floating = front ++ [x])
    (hfront : ∀ r ∈ front, r.serial ≠ serial) (hx : x.serial = serial)
    (h : DrainedUntil serial l events (.ok r) l' rest) :
    r = x ∧ l' = { l with
      floating := []
      taken := l.taken ++ (front ++ [x]).map fun r => (r, .extension) } := by
  generalize hy : Except.ok r = y at h
  induction h generalizing front with
  | failed => cases hy
  | skipped hr hne _ ih =>
      cases hr with
      | reply hv hf₀ =>
          cases front with
          | nil =>
              cases hf.symm.trans hf₀
              exact absurd hx hne
          | cons z front =>
              cases hf.symm.trans hf₀
              obtain ⟨hr, hl'⟩ := ih rfl
                (fun r hr => hfront r (List.mem_cons_of_mem _ hr)) hy
              refine ⟨hr, hl'.trans ?_⟩
              simp
  | found hr heq =>
      cases hy
      cases hr with
      | reply hv hf₀ =>
          cases front with
          | nil =>
              cases hf.symm.trans hf₀
              exact ⟨rfl, rfl⟩
          | cons z front =>
              cases hf.symm.trans hf₀
              exact absurd heq (hfront _ List.mem_cons_self)

/-- An exchange of the extension that ends well leaves nothing floating. -/
theorem Exchanged.eq {kind : Kind} {r : Reply} {events rest : List Event}
    (hord : InOrder l) (hw : FewOutstanding l) (ht : l.torn = none)
    (hk : ∀ answers, kind.allows answers = true → answers.length = 1)
    (h : Exchanged kind l events (.ok r) l' rest) :
    r.request = l.log.length ∧ l' = { l with
      serial := l.serial + 1
      log := l.log ++ [⟨kind, .extension, .complete, [r.status]⟩]
      floating := []
      taken := l.taken ++ (l.floating ++ [r]).map fun r => (r, .extension) }
    := by
  cases h with
  | drained hs hd =>
      cases hs with
      | @complete answers _ _ ha =>
          obtain ⟨status, rfl⟩ := List.length_eq_one_iff.mp (hk answers ha)
          obtain ⟨rfl, rfl⟩ :=
            hd.eq rfl (fun r hr => hord.fresh hw ht hr) rfl
          exact ⟨rfl, rfl⟩
      | garbled hg =>
          obtain ⟨first, hfirst, -⟩ := garbles_iff.mp hg
          cases ht.symm.trans hfirst

/-- What the exchange of a destructor or a constructor leaves behind when
it ends well: its request was the last one sent, and everything has been
received. -/
structure Drained (kind : Kind) (timeout : Int) (l l' : Link) (r : Reply) :
    Prop where
  floating : l'.floating = []
  log : l'.log = l.log ++ [⟨kind, .extension, .complete, [r.status]⟩]
  request : r.request = l.log.length
  taken : (r, .extension) ∈ l'.taken
  rcvTimeout : l'.rcvTimeout = timeout
  sndTimeout : l'.sndTimeout = timeout
  whole : l'.torn = none

/-- Nothing but the timeouts changes. -/
theorem TimeoutSet.frame {timeout : Int} {e : Error} {events rest : List Event}
    (h : TimeoutSet timeout l events e l' rest) :
    ∃ rcv snd, l' = { l with rcvTimeout := rcv, sndTimeout := snd } := by
  cases h with
  | negative => exact ⟨_, _, rfl⟩
  | neither => exact ⟨_, _, rfl⟩
  | receiving => exact ⟨timeout, _, rfl⟩
  | both => exact ⟨timeout, timeout, rfl⟩

theorem TimeoutSet.ok {timeout : Int} {events rest : List Event}
    (h : TimeoutSet timeout l events .ok l' rest) :
    0 ≤ timeout ∧ l' = { l with rcvTimeout := timeout, sndTimeout := timeout }
    := by
  cases h with
  | both ht => exact ⟨ht, rfl⟩

theorem setTimeout_ok {timeout : Int} {events rest : List Event}
    (h : l.setTimeout timeout events = some (.ok, l', rest)) :
    0 ≤ timeout ∧ l' = { l with rcvTimeout := timeout, sndTimeout := timeout } :=
  (setTimeout_cases h).ok

/-- A timeout that is not negative is set, unless `setsockopt` fails. -/
theorem TimeoutSet.of_nonneg {timeout : Int} {e : Error}
    {events rest : List Event} (ht : 0 ≤ timeout)
    (hev : .sockopt false ∉ events)
    (h : TimeoutSet timeout l events e l' rest) : e = .ok := by
  cases h with
  | negative hneg => omega
  | neither => exact absurd List.mem_cons_self hev
  | receiving =>
      exact absurd (List.mem_cons_of_mem _ List.mem_cons_self) hev
  | both => rfl

/-- `destruct_conn`, when the connection is not broken. -/
theorem unlockAndDrain_good {timeout : Int} {events rest : List Event}
    (hord : InOrder l) (hw : FewOutstanding l) (hwhole : l.torn = none)
    (ht : 0 ≤ timeout) (hev : .sockopt false ∉ events)
    (h : l.unlockAndDrain timeout events = some (true, l', rest)) :
    ∃ r, Drained (.unlockAll false) timeout l l' r
      ∧ (r.status = Status.ok ∨ r.status = Status.unknownCommand) := by
  obtain ⟨e, l₁, events₁, x, hset, hx, hgood⟩ := unlockAndDrain_cases h
  obtain rfl := hset.of_nonneg ht hev
  obtain ⟨-, rfl⟩ := hset.ok
  obtain ⟨r, rfl, hstatus⟩ := hgood rfl
  obtain ⟨hreq, rfl⟩ :=
    hx.eq (hord.timeouts timeout timeout) hw hwhole Kind.unlockAll_once
  exact ⟨r, ⟨rfl, rfl, hreq, by simp, rfl, rfl, hwhole⟩, hstatus⟩

/-- The way to a positive answer of `check_persistent_connection`. -/
theorem checkPersistentConnection_ok {timeout : Int}
    {events rest : List Event}
    (h : l.checkPersistentConnection timeout events
      = some ((.ok, Status.ok), l', rest)) :
    ∃ events₁ r l₂ events₂,
      Exchanged .noop { l with rcvTimeout := 1, sndTimeout := 1 } events₁ (.ok r)
          l₂ events₂
        ∧ l' = { l₂ with rcvTimeout := timeout, sndTimeout := timeout } := by
  generalize hy : (Error.ok, Status.ok) = y at h
  cases checkPersistentConnection_cases h with
  | unset _ he => exact absurd (congrArg Prod.fst hy).symm he
  | broken _ _ hbad => exact absurd hy.symm hbad
  | alive hset hx hset' =>
      obtain rfl := congrArg Prod.fst hy
      obtain ⟨-, rfl⟩ := hset.ok
      exact ⟨_, _, _, _, hx, hset'.ok.2⟩

/-- `check_persistent_connection`, when the connection is not broken. -/
theorem checkPersistentConnection_good {timeout : Int}
    {events rest : List Event} (hord : InOrder l) (hw : FewOutstanding l)
    (hwhole : l.torn = none)
    (h : l.checkPersistentConnection timeout events
      = some ((.ok, Status.ok), l', rest)) :
    ∃ r, Drained .noop timeout l l' r := by
  obtain ⟨_, r, _, _, hx, rfl⟩ := checkPersistentConnection_ok h
  obtain ⟨hreq, rfl⟩ := hx.eq (hord.timeouts 1 1) hw hwhole Kind.noop_once
  exact ⟨r, rfl, rfl, hreq, by simp, rfl, rfl, hwhole⟩

end Link

end Yrmcds
