/-
Which sessions a handler has locked.

A handler that has read a session from a locked object holds its lock
until it writes or destroys the session or is gone (`Held`): the server
has the lock down for its connection and the object is what was read, and
no request under way changes this. This rests on `wait_lock` returning the
response to its own request.
-/
import Yrmcds.Proofs.Session.Steps
import Yrmcds.Spec.SessionServer

namespace Yrmcds

namespace Session

variable {σ : Type} {sv : Server σ} {s s' : σ} {k j n : Nat} {id data : Str}
  {h h' : Handler} {c : Channel} {r : Request}

-- ================================================================== server

/-- Requests that keep the lock of their object. -/
def Request.keeps : Request → Bool
  | .lockGet _ => true
  | .touch _ _ => true
  | .getTouch _ _ => true
  | _ => false

/-- A locked object and its lock stay, but for a request of the holder that
gives it up. -/
theorem serve_holder (hl : sv.Lawful) (hh : sv.holder s id = some j)
    (hkeeps : j = k → r.id = id → r.keeps = true) :
    sv.object (sv.serve s k r).1 id = sv.object s id
      ∧ sv.holder (sv.serve s k r).1 id = some j := by
  by_cases hid : r.id = id
  · by_cases hj : j = k
    · subst hj
      have hk := hkeeps rfl hid
      subst hid
      cases r with
      | lockGet id =>
          obtain ⟨ho, hh', -⟩ := hl.lockGet_own s j id hh
          exact ⟨ho, hh'⟩
      | touch id expire => exact hl.touch_keeps s j id expire hh
      | getTouch id expire => exact hl.getTouch_keeps s j id expire hh
      | _ => cases hk
    · subst hid
      exact hl.others s k r j hh hj
  · obtain ⟨ho, hh'⟩ := hl.frame s k r id hid
    exact ⟨ho, hh'.trans hh⟩

/-- Who is told that a session is locked has locked it, and has its data. -/
theorem serve_lockGet (hl : sv.Lawful)
    (hr : (sv.serve s k (.lockGet id)).2 = some (Status.ok, data)) :
    sv.object (sv.serve s k (.lockGet id)).1 id = some data
      ∧ sv.holder (sv.serve s k (.lockGet id)).1 id = some k := by
  cases hobj : sv.object s id with
  | none =>
      obtain ⟨text, hans⟩ := hl.lockGet_missing s k id hobj
      rw [hans] at hr
      cases hr
  | some data' =>
      cases hh : sv.holder s id with
      | none =>
          obtain ⟨ho, hh', hans⟩ := hl.lockGet_free s k id data' hobj hh
          rw [hans] at hr
          cases hr
          exact ⟨ho, hh'⟩
      | some j =>
          by_cases hj : j = k
          · subst hj
            obtain ⟨ho, hh', hd⟩ := hl.lockGet_own s j id hh
            exact ⟨ho.trans (hd data hr), hh'⟩
          · obtain ⟨text, hans⟩ := hl.lockGet_locked s k id j hh hj
            rw [hans] at hr
            cases hr

-- =================================================================== locks

/-- Handler `h` of connection `k` has the lock of `id` and knows its data,
and no request under way gives it up. -/
structure Held (sv : Server σ) (s : σ) (k : Nat) (h : Handler)
    (id data : Str) : Prop where
  holder : sv.holder s id = some k
  object : sv.object s id = some data
  keeps : ∀ x ∈ h.channel.inflight, x.2.id = id → x.2.keeps = true

/-- The `lockGet` of `wait_lock` is the last request; when it has been
answered with OK, its connection has the lock. -/
structure Waiting (sv : Server σ) (s : σ) (k : Nat) (h : Handler) (id : Str)
    (serial : UInt32) : Prop where
  serial : serial = UInt32.ofNat h.channel.sent
  request : ∀ x ∈ h.channel.inflight, x.1 = h.channel.sent →
    x.2 = .lockGet id
  reply : ∀ r ∈ h.channel.replies, r.request = h.channel.sent →
    r.status = Status.ok →
      sv.holder s id = some k ∧ sv.object s id = some r.data

/-- What holds where a method stands. -/
def AtPc (sv : Server σ) (s : σ) (k : Nat) (h : Handler) : Prop :=
  match h.pc with
  | .idle => True
  | .waitLock id serial => Waiting sv s k h id serial
  | .waitTouch id data => Held sv s k h id data
  | .waitGet _ => True

/-- The locks a handler relies on, between its methods. -/
structure Base (sv : Server σ) (s : σ) (k : Nat) (h : Handler) : Prop where
  inOrder : InOrder h.channel
  granted : ∀ x ∈ h.granted, Held sv s k h x.1 x.2

/-- The invariant of a handler. -/
structure Locks (sv : Server σ) (s : σ) (k : Nat) (h : Handler) : Prop
    extends Base sv s k h where
  atPc : AtPc sv s k h
  closed : h.closed = true → h.granted = [] ∧ h.pc = .idle

theorem locks_new (s : σ) (expire timeout : Int) :
    Locks sv s k (.new expire timeout) where
  inOrder := ⟨.nil, nofun, nofun⟩
  granted := nofun
  atPc := trivial
  closed := nofun

/-- No new requests are under way. -/
theorem Held.mono (hh : Held sv s k h id data)
    (hi : ∀ x ∈ h'.channel.inflight, x ∈ h.channel.inflight) :
    Held sv s k h' id data :=
  ⟨hh.holder, hh.object, fun x hx => hh.keeps x (hi x hx)⟩

theorem Held.congr (hh : Held sv s k h id data)
    (hc : h'.channel = h.channel) : Held sv s k h' id data :=
  hh.mono fun x hx => by rwa [hc] at hx

/-- A lock and the locked object stay. -/
theorem Held.frame (hh : Held sv s k h id data)
    (hs : ∀ id, sv.holder s id = some k →
      sv.object s' id = sv.object s id ∧ sv.holder s' id = some k) :
    Held sv s' k h id data :=
  ⟨(hs id hh.holder).2, (hs id hh.holder).1.trans hh.object, hh.keeps⟩

/-- What others do to the server does not matter while locks stay. -/
theorem Locks.frame (hk : Locks sv s k h)
    (hs : ∀ id, sv.holder s id = some k →
      sv.object s' id = sv.object s id ∧ sv.holder s' id = some k) :
    Locks sv s' k h where
  inOrder := hk.inOrder
  granted x hx := (hk.granted x hx).frame hs
  atPc := by
    have hpc := hk.atPc
    unfold AtPc at hpc ⊢
    split
    next => trivial
    next id serial heq =>
      rw [heq] at hpc
      refine ⟨hpc.serial, hpc.request, fun r hr hlast hok => ?_⟩
      obtain ⟨hh, hd⟩ := hpc.reply r hr hlast hok
      exact ⟨(hs id hh).2, (hs id hh).1.trans hd⟩
    next id data heq =>
      rw [heq] at hpc
      exact hpc.frame hs
    next => trivial
  closed := hk.closed

-- ================================================================= methods

/-- Only the connection matters and the locks relied on. -/
theorem Base.congr (hb : Base sv s k h) (hc : h'.channel = h.channel)
    (hg : ∀ x ∈ h'.granted, x ∈ h.granted) : Base sv s k h' where
  inOrder := hc ▸ hb.inOrder
  granted x hx := (hb.granted x (hg x hx)).congr hc

/-- A method ends. -/
theorem Base.ends (hb : Base sv s k h) (hopen : h.closed = false)
    (result : Result) : Locks sv s k (h.ends result) where
  toBase := hb.congr rfl fun _ hx => hx
  atPc := trivial
  closed hc := by cases hopen.symm.trans hc

/-- A request is sent that keeps the locks the handler relies on. -/
theorem Base.send (hb : Base sv s k h)
    (hr : ∀ x ∈ h.granted, r.id = x.1 → r.keeps = true) :
    Base sv s k { h with channel := (h.channel.send r).2 } where
  inOrder := hb.inOrder.send r
  granted x hx := by
    have hh := hb.granted x hx
    refine ⟨hh.holder, hh.object, fun y hy => ?_⟩
    rcases List.mem_append.mp hy with hy | hy
    · exact hh.keeps y hy
    · cases List.mem_singleton.mp hy
      exact hr x hx

/-- A request is sent or the method throws, and goes on. -/
theorem Base.sends (hb : Base sv s k h) (hopen : h.closed = false)
    {ok : Bool} {go : UInt32 → Handler → Handler}
    (hr : ∀ x ∈ h.granted, r.id = x.1 → r.keeps = true)
    (hgo : Base sv s k { h with channel := (h.channel.send r).2 } →
      Locks sv s k (go (h.channel.send r).1
        { h with channel := (h.channel.send r).2 })) :
    Locks sv s k (h.sends ok r go) := by
  unfold Handler.sends
  split
  next => exact hgo (hb.send hr)
  next => exact hb.ends hopen .threw

/-- `wait_lock` sends its `lockGet`. -/
theorem Base.lockGet (hb : Base sv s k h) (hopen : h.closed = false)
    (id : Str) (ok : Bool) : Locks sv s k (h.lockGet id ok) := by
  apply hb.sends hopen (fun _ _ _ => rfl)
  intro hb'
  refine ⟨hb'.congr rfl fun _ hx => hx, ⟨rfl, ?_, ?_⟩, fun hc => ?_⟩
  · intro x hx hlast
    rcases List.mem_append.mp hx with hx | hx
    · have hle := hb.inOrder.sent _
        (List.mem_append_right _ (List.mem_map_of_mem hx))
      change x.1 = h.channel.sent + 1 at hlast
      omega
    · cases List.mem_singleton.mp hx
      rfl
  · intro reply hreply hlast
    have hle := hb.inOrder.sent _
      (List.mem_append_left _ (List.mem_map_of_mem hreply))
    change reply.request = h.channel.sent + 1 at hlast
    omega
  · cases hopen.symm.trans hc

/-- A session that is written or destroyed is given up. -/
theorem Base.forget (hb : Base sv s k h) (id : Str) :
    Base sv s k { h with granted := h.granted.filter (·.1 ≠ id) } :=
  hb.congr rfl fun _ hx => (List.mem_filter.mp hx).1

/-- A session that was read is relied on. -/
theorem Base.grant (hb : Base sv s k h) (hh : Held sv s k h id data) :
    Base sv s k { h with granted := (id, data) :: h.granted } where
  inOrder := hb.inOrder
  granted x hx := by
    rcases List.mem_cons.mp hx with rfl | hx
    · exact hh.congr rfl
    · exact (hb.granted x hx).congr rfl

theorem forget_keeps (hid : r.id = id) :
    ∀ x ∈ h.granted.filter (·.1 ≠ id), r.id = x.1 → r.keeps = true := by
  intro x hx heq
  have hne := (List.mem_filter.mp hx).2
  simp [← heq, hid] at hne

/-- `write` gives the session up, whether its request is sent or not. -/
theorem Base.write (hb : Base sv s k h) (hopen : h.closed = false)
    (id data : Str) (ok : Bool) : Locks sv s k (h.write id data ok) := by
  unfold Handler.write
  dsimp only
  split
  next =>
    refine (hb.forget id).sends hopen (forget_keeps ?_) fun hb' => ?_
    · split
      next => rfl
      next => split <;> rfl
    · exact hb'.ends hopen .true
  next => exact (hb.forget id).ends hopen .false

/-- `destroy` gives the session up. -/
theorem Base.destroy (hb : Base sv s k h) (hopen : h.closed = false)
    (id : Str) (ok : Bool) : Locks sv s k (h.destroy id ok) := by
  unfold Handler.destroy
  apply (hb.forget id).sends hopen (forget_keeps rfl)
  intro hb'
  exact hb'.ends hopen .true

/-- Every method call keeps the invariant. -/
theorem Base.call (hb : Base sv s k h) (hopen : h.closed = false) (ok : Bool)
    (call : Call) : Locks sv s k (h.call ok call) := by
  cases call with
  | open_ => exact hb.ends hopen _
  | close => exact hb.ends hopen _
  | gc => exact hb.ends hopen _
  | read id =>
      show Locks sv s k (h.read id ok)
      unfold Handler.read
      split
      next => exact hb.lockGet hopen id ok
      next =>
        apply hb.sends hopen (fun _ _ _ => rfl)
        intro hb'
        exact ⟨hb'.congr rfl fun _ hx => hx, trivial,
          fun hc => by cases hopen.symm.trans hc⟩
  | write id data => exact hb.write hopen id data ok
  | destroy id => exact hb.destroy hopen id ok

/-- `read` goes on after `wait_lock`, with nothing under way. -/
theorem Base.afterWaitLock (hb : Base sv s k h) (hopen : h.closed = false)
    {reply : Reply} (hflight : h.channel.inflight = [])
    (hok : reply.status = Status.ok →
      sv.holder s id = some k ∧ sv.object s id = some reply.data)
    (ok : Bool) :
    Locks sv s k (h.afterWaitLock id reply ok) := by
  unfold Handler.afterWaitLock
  split
  next hstatus =>
    have hb₁ : Base sv s k { h with locked := true } :=
      hb.congr rfl fun _ hx => hx
    apply hb₁.sends hopen (fun _ _ _ => rfl)
    intro hb'
    refine ⟨hb'.congr rfl fun _ hx => hx, ⟨(hok hstatus).1, (hok hstatus).2,
      fun x hx _ => ?_⟩,
      fun hc => by cases hopen.symm.trans hc⟩
    rcases List.mem_append.mp hx with hx | hx
    · rw [hflight] at hx
      cases hx
    · cases List.mem_singleton.mp hx
      rfl
  next => exact hb.ends hopen _

/-- The next response is received. -/
theorem Locks.received (hk : Locks sv s k h) {reply : Reply}
    {replies : List Reply} (hr : h.channel.replies = reply :: replies) :
    Locks sv s k { h with channel := { h.channel with replies } } where
  inOrder := hk.inOrder.received hr
  granted x hx := (hk.granted x hx).mono fun _ hy => hy
  atPc := by
    have hpc := hk.atPc
    unfold AtPc at hpc ⊢
    dsimp only
    split
    next => trivial
    next id serial heq =>
      rw [heq] at hpc
      refine ⟨hpc.serial, hpc.request, fun r hr' => hpc.reply r ?_⟩
      rw [hr]
      exact List.mem_cons_of_mem _ hr'
    next id data heq =>
      rw [heq] at hpc
      exact hpc.mono fun _ hy => hy
    next => trivial
  closed := hk.closed

/-- A method goes on with the next response. -/
theorem Locks.recv (hk : Locks sv s k h) (hopen : h.closed = false)
    {reply : Reply} {replies : List Reply}
    (hr : h.channel.replies = reply :: replies) (hfew : Few h.channel)
    (late ok : Bool) :
    Locks sv s k ({ h with channel := { h.channel with replies } }.recv
      reply late ok) := by
  have hmem : reply ∈ h.channel.replies := by
    rw [hr]
    exact List.mem_cons_self
  have hk' := hk.received hr
  have hx := recv_received { h with channel := { h.channel with replies } } reply
    late ok
  generalize Handler.recv _ reply late ok = h' at hx ⊢
  have hpc := hk.atPc
  unfold AtPc at hpc
  cases hx with
  | passed => exact hk'
  | late => exact hk'.toBase.ends hopen _
  | again => exact hk'.toBase.lockGet hopen _ ok
  | @answered id serial heq hserial =>
      rw [show h.pc = _ from heq] at hpc
      have hw : Waiting sv s k h id serial := hpc
      have hlast := hk.inOrder.last hfew hmem (hserial.trans hw.serial)
      exact hk'.toBase.afterWaitLock hopen
        (hk.inOrder.inflight_nil hmem hlast) (hw.reply reply hmem hlast) ok
  | @touched id data heq =>
      rw [show h.pc = _ from heq] at hpc
      have hh : Held sv s k h id data := hpc
      exact (hk'.toBase.grant (hh.mono fun _ hy => hy)).ends hopen _
  | got => exact hk'.toBase.ends hopen _

-- =================================================================== world

/-- The server performs a request of the handler. -/
theorem Locks.performed (hl : sv.Lawful) (hk : Locks sv s k h)
    {inflight : List (Nat × Request)}
    (hf : h.channel.inflight = (n, r) :: inflight) :
    Locks sv (sv.serve s k r).1 k
      (h.performed n inflight (sv.serve s k r).2) := by
  have hhead : (n, r) ∈ h.channel.inflight := by
    rw [hf]
    exact List.mem_cons_self
  have htail : ∀ x ∈ inflight, x ∈ h.channel.inflight := fun x hx => by
    rw [hf]
    exact List.mem_cons_of_mem _ hx
  have hheld : ∀ {id data}, Held sv s k h id data →
      Held sv (sv.serve s k r).1 k
        (h.performed n inflight (sv.serve s k r).2) id data := by
    intro id data hh
    obtain ⟨ho, hh'⟩ := serve_holder hl hh.holder fun _ => hh.keeps _ hhead
    exact ⟨hh', ho.trans hh.object, fun x hx => hh.keeps x (htail x hx)⟩
  refine ⟨⟨hk.inOrder.performed hf _, fun x hx =>
    hheld (hk.granted x hx)⟩, ?_, hk.closed⟩
  have hpc := hk.atPc
  unfold AtPc at hpc ⊢
  show match h.pc with
    | .idle => True
    | .waitLock id serial => Waiting sv _ k _ id serial
    | .waitTouch id data => Held sv _ k _ id data
    | .waitGet _ => True
  split
  next => trivial
  next id serial heq =>
    rw [heq] at hpc
    refine ⟨hpc.serial, fun x hx => hpc.request x (htail x hx), ?_⟩
    intro reply hr hlast hok
    rcases List.mem_append.mp hr with hr | hr
    · -- A request after the last one.
      have hnil := hk.inOrder.inflight_nil hr hlast
      rw [hf] at hnil
      cases hnil
    · obtain ⟨-, hn, hans⟩ := mem_answers hr
      have hreq : r = .lockGet id :=
        hpc.request (n, r) hhead (hn.symm.trans hlast)
      subst hreq
      obtain ⟨ho, hh⟩ := serve_lockGet hl (hok ▸ hans)
      exact ⟨hh, ho⟩
  next id data heq =>
    rw [heq] at hpc
    exact hheld hpc
  next => trivial

/-- Every handler keeps its locks. -/
def AllLocks (sv : Server σ) (w : World σ) : Prop :=
  ∀ k, Locks sv w.server k (w.handlers k)

/-- A response is received while fewer than 2^32 requests were sent since
its request. -/
def Windowed (w : World σ) : Act → Prop
  | .recv k _ _ => Few (w.handlers k).channel
  | _ => True

variable {w w' : World σ} {a : Act}

theorem AllLocks.put (hw : AllLocks sv w) (hk : Locks sv w.server k h) :
    AllLocks sv (w.put k h) := by
  intro j
  by_cases hj : j = k
  · subst hj
    rw [put_self]
    exact hk
  · rw [put_other hj]
    exact hw j

/-- The server is asked by connection `k`. -/
theorem AllLocks.perform (hl : sv.Lawful) (hw : AllLocks sv w)
    {inflight : List (Nat × Request)}
    (hf : (w.handlers k).channel.inflight = (n, r) :: inflight) :
    AllLocks sv ({ w with server := (sv.serve w.server k r).1 }.put k
      ((w.handlers k).performed n inflight
        (sv.serve w.server k r).2)) := by
  intro j
  by_cases hj : j = k
  · subst hj
    rw [put_self]
    exact (hw j).performed hl hf
  · rw [put_other hj]
    exact (hw j).frame fun id hh => serve_holder hl hh fun hjk => absurd hjk hj

/-- A connection is closed. -/
theorem AllLocks.hangup (hl : sv.Lawful) (hw : AllLocks sv w)
    (hclosed : (w.handlers k).closed = true) :
    AllLocks sv { w with server := sv.hangup w.server k } := by
  intro j
  by_cases hj : j = k
  · subst hj
    obtain ⟨hg, hpc⟩ := (hw j).closed hclosed
    refine ⟨⟨(hw j).inOrder, fun x hx => ?_⟩, ?_, (hw j).closed⟩
    · change x ∈ (w.handlers j).granted at hx
      rw [hg] at hx
      cases hx
    · unfold AtPc
      dsimp only
      rw [hpc]
      trivial
  · exact (hw j).frame fun id hh => hl.hangup_others _ _ id j hh hj

/-- Every step keeps the locks. -/
theorem locks_step (hl : sv.Lawful) (hw : AllLocks sv w)
    (hfew : Windowed w a) (hs : w.step sv a = .ok w') : AllLocks sv w' := by
  cases stepped hs with
  | called hopen => exact hw.put ((hw _).toBase.call hopen _ _)
  | received hr hopen => exact hw.put ((hw _).recv hopen hr hfew _ _)
  | threw hopen => exact hw.put ((hw _).toBase.ends hopen _)
  | gone =>
      exact hw.put ⟨(hw _).toBase.congr rfl nofun, trivial,
        fun _ => ⟨rfl, rfl⟩⟩
  | served hf => exact hw.perform hl hf
  | hungUp hclosed => exact hw.hangup hl hclosed
  | expired =>
      exact fun j => (hw j).frame fun id' hh => hl.expire_keeps _ id' _ j hh

/-- Every run keeps the locks. -/
theorem locks_run (hl : sv.Lawful) {acts : List Act} (hw : AllLocks sv w)
    (hfew : Run.Guarded (World.step sv) Windowed w acts)
    (hs : w.run sv acts = .ok w') : AllLocks sv w' :=
  Run.exec_inv (fun _ _ _ hw hfew => locks_step hl hw hfew) hw hfew hs

theorem locks_start (s : σ) (expire timeout : Nat → Int) :
    AllLocks sv (.start s expire timeout) :=
  fun k => locks_new s (expire k) (timeout k)

end Session

end Yrmcds
