/-
What a step of session handlers does, and the order of a connection.

`Stepped` lists the steps, and `Received` what a method does with a
response. A connection answers in the order of its requests (`InOrder`),
so that a response to the last request says that everything before it has
been performed and its response received. The serials tell whose response
it is, as long as fewer than 2^32 requests were sent since the oldest one
with an unread response (`Few`).
-/
import Yrmcds.Model.Session

namespace Yrmcds

namespace Session

variable {σ : Type} {sv : Server σ} {w w' : World σ} {a : Act}
  {k j n : Nat} {h : Handler} {c : Channel} {r : Request}

-- ================================================================== worlds

@[simp] theorem put_self : (w.put k h).handlers k = h := if_pos rfl

theorem put_other (hj : j ≠ k) : (w.put k h).handlers j = w.handlers j :=
  if_neg hj

theorem put_eq (hh : w.handlers k = h) : w.put k h = w := by
  subst hh
  refine congrArg (World.mk w.server) (funext fun j => ?_)
  split
  next hj => rw [hj]
  next => rfl

theorem put_put (w : World σ) (k : Nat) (h h' : Handler) :
    (w.put k h).put k h' = w.put k h' := by
  refine congrArg (World.mk w.server) (funext fun j => ?_)
  split
  next => rfl
  next hj => exact put_other hj

@[simp] theorem put_server : (w.put k h).server = w.server := rfl

/-- The answer to a request, as the handler may receive it. -/
def answers (n : Nat) : Option (Status × Str) → List Reply
  | some (status, data) => [⟨UInt32.ofNat n, status, data, n⟩]
  | none => []

theorem mem_answers {answer : Option (Status × Str)} {reply : Reply}
    (hr : reply ∈ answers n answer) :
    reply.serial = UInt32.ofNat n ∧ reply.request = n
      ∧ answer = some (reply.status, reply.data) := by
  unfold answers at hr
  split at hr
  next =>
    cases List.mem_singleton.mp hr
    exact ⟨rfl, rfl, rfl⟩
  next => cases hr

/-- The handler of `k` after its server has performed a request. -/
def Handler.performed (h : Handler) (n : Nat)
    (inflight : List (Nat × Request)) (answer : Option (Status × Str)) :
    Handler :=
  { h with channel := { h.channel with
      inflight
      replies := h.channel.replies ++ answers n answer } }

theorem perform_eq (w : World σ) (k n : Nat) (r : Request)
    (inflight : List (Nat × Request)) :
    w.perform sv k n r inflight
      = { w with server := (sv.serve w.server k r).1 }.put k
          ((w.handlers k).performed n inflight (sv.serve w.server k r).2) := by
  unfold World.perform Handler.performed answers
  rfl

/-- What a step does. -/
inductive Stepped (sv : Server σ) (w : World σ) : Act → World σ → Prop where
  | called {k : Nat} {c : Call} {ok : Bool}
      (hopen : (w.handlers k).closed = false)
      (hidle : (w.handlers k).pc = .idle) :
      Stepped sv w (.call k c ok) (w.put k ((w.handlers k).call ok c))
  | received {k : Nat} {late ok : Bool} {reply : Reply} {replies : List Reply}
      (hr : (w.handlers k).channel.replies = reply :: replies)
      (hopen : (w.handlers k).closed = false) :
      Stepped sv w (.recv k late ok) (w.put k
        ({ w.handlers k with
          channel := { (w.handlers k).channel with replies } }.recv
            reply late ok))
  | threw {k : Nat} (hopen : (w.handlers k).closed = false) :
      Stepped sv w (.recvThrows k) (w.put k ((w.handlers k).ends .threw))
  | gone {k : Nat} :
      Stepped sv w (.disconnect k) (w.put k
        { w.handlers k with closed := true, pc := .idle, granted := [] })
  | served {k n : Nat} {r : Request} {inflight : List (Nat × Request)}
      (hf : (w.handlers k).channel.inflight = (n, r) :: inflight) :
      Stepped sv w (.serve k)
        ({ w with server := (sv.serve w.server k r).1 }.put k
          ((w.handlers k).performed n inflight (sv.serve w.server k r).2))
  | hungUp {k : Nat} (hclosed : (w.handlers k).closed = true)
      (hf : (w.handlers k).channel.inflight = []) :
      Stepped sv w (.hangup k) { w with server := sv.hangup w.server k }
  | expired {id : Str} :
      Stepped sv w (.expire id) { w with server := sv.expire w.server id }

theorem stepped (hs : w.step sv a = .ok w') : Stepped sv w a w' := by
  cases a with
  | call k c ok =>
      rw [World.step] at hs
      split at hs
      next => cases hs
      next hopen =>
        cases hs
        rw [not_or, Bool.not_eq_true, not_not] at hopen
        exact .called hopen.1 hopen.2
  | recv k late ok =>
      rw [World.step] at hs
      split at hs
      next => cases hs
      next reply replies hr =>
        split at hs
        next => cases hs
        next hopen =>
          cases hs
          rw [not_or, Bool.not_eq_true] at hopen
          exact .received hr hopen.1
  | recvThrows k =>
      rw [World.step] at hs
      split at hs
      next => cases hs
      next hopen =>
        cases hs
        rw [not_or, Bool.not_eq_true] at hopen
        exact .threw hopen.1
  | disconnect k =>
      cases hs
      exact .gone
  | serve k =>
      rw [World.step] at hs
      split at hs
      next => cases hs
      next hf =>
        cases hs
        exact perform_eq .. ▸ .served hf
  | hangup k =>
      rw [World.step] at hs
      split at hs
      next hclosed =>
        cases hs
        exact .hungUp hclosed.1 hclosed.2
      next => cases hs
  | expire id =>
      cases hs
      exact .expired

/-- What a method does with a response: it passes over that of another
request, gives up or tries again when the session is locked, or goes on. -/
inductive Received (h : Handler) (reply : Reply) (ok : Bool) :
    Handler → Prop where
  | passed : Received h reply ok h
  | late {id : Str} {serial : UInt32} (hpc : h.pc = .waitLock id serial)
      (hs : reply.serial = serial) (hlocked : reply.status = Status.locked) :
      Received h reply ok (h.ends .threw)
  | again {id : Str} {serial : UInt32} (hpc : h.pc = .waitLock id serial)
      (hs : reply.serial = serial) (hlocked : reply.status = Status.locked) :
      Received h reply ok (h.lockGet id ok)
  | answered {id : Str} {serial : UInt32} (hpc : h.pc = .waitLock id serial)
      (hs : reply.serial = serial) (hlocked : reply.status ≠ Status.locked) :
      Received h reply ok (h.afterWaitLock id reply ok)
  | touched {id data : Str} (hpc : h.pc = .waitTouch id data) :
      Received h reply ok
        ({ h with granted := (id, data) :: h.granted }.ends (.data data))
  | got {serial : UInt32} (hpc : h.pc = .waitGet serial)
      (hs : reply.serial = serial) :
      Received h reply ok (h.ends (.data reply.data))

theorem recv_received (h : Handler) (reply : Reply) (late ok : Bool) :
    Received h reply ok (h.recv reply late ok) := by
  unfold Handler.recv
  cases hpc : h.pc with
  | idle => exact .passed
  | waitLock id serial =>
      dsimp only
      split
      next => exact .passed
      next hs =>
        rw [not_not] at hs
        split
        next hlocked =>
          split
          next => exact .late hpc hs hlocked
          next => exact .again hpc hs hlocked
        next hlocked => exact .answered hpc hs hlocked
  | waitTouch id data => exact .touched hpc
  | waitGet serial =>
      dsimp only
      split
      next => exact .passed
      next hs => exact .got hpc (not_not.mp hs)

-- ================================================================ channels

/-- Requests are performed and answered in their order. -/
structure InOrder (c : Channel) : Prop where
  order : (c.replies.map Reply.request
    ++ c.inflight.map Prod.fst).Pairwise (· < ·)
  sent : ∀ n ∈ c.replies.map Reply.request ++ c.inflight.map Prod.fst,
    n ≤ c.sent
  serial : ∀ r ∈ c.replies, r.serial = UInt32.ofNat r.request

/-- Fewer than 2^32 requests were sent since the oldest one with an unread
response. -/
def Few (c : Channel) : Prop :=
  ∀ r ∈ c.replies, c.sent < r.request + 2 ^ 32

theorem InOrder.send (hc : InOrder c) (r : Request) :
    InOrder (c.send r).2 := by
  unfold Channel.send
  refine ⟨?_, ?_, hc.serial⟩
  · simp only [List.map_append, List.map_cons, List.map_nil]
    rw [← List.append_assoc, List.pairwise_append]
    refine ⟨hc.order, List.pairwise_singleton .., fun a ha b hb => ?_⟩
    cases List.mem_singleton.mp hb
    have := hc.sent a ha
    omega
  · intro m hm
    simp only [List.map_append, List.map_cons, List.map_nil] at hm
    rw [← List.append_assoc] at hm
    rcases List.mem_append.mp hm with hm | hm
    · have := hc.sent m hm
      simp only
      omega
    · cases List.mem_singleton.mp hm
      exact Nat.le_refl _

/-- The next response is received. -/
theorem InOrder.received {reply : Reply} {replies : List Reply}
    (hc : InOrder c) (hr : c.replies = reply :: replies) :
    InOrder { c with replies } := by
  obtain ⟨horder, hsent, hserial⟩ := hc
  rw [hr] at horder hsent hserial
  exact ⟨(List.pairwise_cons.mp horder).2,
    fun n hn => hsent n (List.mem_cons_of_mem _ hn),
    fun r hr => hserial r (List.mem_cons_of_mem _ hr)⟩

/-- A response with the serial of the last request answers it. -/
theorem InOrder.last (hc : InOrder c) (hfew : Few c) {reply : Reply}
    (hr : reply ∈ c.replies)
    (hserial : reply.serial = UInt32.ofNat c.sent) :
    reply.request = c.sent := by
  have hle := hc.sent _ (List.mem_append_left _ (List.mem_map_of_mem hr))
  have hlt := hfew reply hr
  have heq := congrArg UInt32.toNat ((hc.serial reply hr).symm.trans hserial)
  rw [UInt32.toNat_ofNat', UInt32.toNat_ofNat'] at heq
  omega

/-- Nothing is under way when the last request has been answered. -/
theorem InOrder.inflight_nil (hc : InOrder c) {reply : Reply}
    (hr : reply ∈ c.replies) (hlast : reply.request = c.sent) :
    c.inflight = [] := by
  rw [List.eq_nil_iff_forall_not_mem]
  intro x hx
  have hmem := List.mem_map_of_mem (f := Prod.fst) hx
  have hlt := (List.pairwise_append.mp hc.order).2.2 _
    (List.mem_map_of_mem hr) _ hmem
  have hle := hc.sent _ (List.mem_append_right _ hmem)
  omega

/-- The next request is performed. -/
theorem InOrder.performed {inflight : List (Nat × Request)}
    (hc : InOrder c) (hf : c.inflight = (n, r) :: inflight)
    (answer : Option (Status × Str)) :
    InOrder { c with inflight, replies := c.replies ++ answers n answer } := by
  have hsub : ((c.replies ++ answers n answer).map Reply.request
      ++ inflight.map Prod.fst).Sublist
        (c.replies.map Reply.request ++ c.inflight.map Prod.fst) := by
    rw [hf, List.map_append, List.append_assoc, List.map_cons]
    refine List.Sublist.append_left ?_ _
    unfold answers
    split
    next => exact List.Sublist.refl _
    next => exact List.sublist_cons_self ..
  refine ⟨hc.order.sublist hsub, fun m hm => hc.sent m (hsub.subset hm), ?_⟩
  intro reply hr
  rcases List.mem_append.mp hr with hr | hr
  · exact hc.serial reply hr
  · obtain ⟨hs, hn, -⟩ := mem_answers hr
    rw [hs, hn]

/-- At most one request is sent. -/
inductive Sends (c : Channel) : Channel → Prop where
  | nothing : Sends c c
  | request (r : Request) : Sends c (c.send r).2

theorem sends_sends {ok : Bool} {go : UInt32 → Handler → Handler}
    (hc : h.channel = c) (hgo : ∀ serial h, (go serial h).channel = h.channel) :
    Sends c (h.sends ok r go).channel := by
  subst hc
  unfold Handler.sends
  split
  next =>
    dsimp only
    rw [hgo]
    exact .request r
  next => exact .nothing

/-- A method call sends at most one request. -/
theorem call_sends (h : Handler) (ok : Bool) (call : Call) :
    Sends h.channel (h.call ok call).channel := by
  cases call with
  | open_ => exact .nothing
  | close => exact .nothing
  | gc => exact .nothing
  | read id =>
      show Sends _ (h.read id ok).channel
      unfold Handler.read
      split
      next => exact sends_sends rfl fun _ _ => rfl
      next => exact sends_sends rfl fun _ _ => rfl
  | write id data =>
      show Sends _ (h.write id data ok).channel
      unfold Handler.write
      dsimp only
      split
      next => exact sends_sends rfl fun _ _ => rfl
      next => exact .nothing
  | destroy id =>
      exact sends_sends rfl fun _ _ => rfl

/-- And so does what a method does with a response. -/
theorem Received.sends {h' : Handler} {reply : Reply} {ok : Bool}
    (hx : Received h reply ok h') : Sends h.channel h'.channel := by
  cases hx with
  | passed => exact .nothing
  | late => exact .nothing
  | again => exact sends_sends rfl fun _ _ => rfl
  | answered =>
      unfold Handler.afterWaitLock
      split
      next => exact sends_sends rfl fun _ _ => rfl
      next => exact .nothing
  | touched => exact .nothing
  | got => exact .nothing

/-- What is under way after that. -/
theorem Sends.inflight {c' : Channel} (hs : Sends c c') :
    c.sent ≤ c'.sent ∧ ∀ x ∈ c'.inflight, x ∈ c.inflight ∨ c.sent < x.1 := by
  cases hs with
  | nothing => exact ⟨Nat.le_refl _, fun x hx => .inl hx⟩
  | request r =>
      refine ⟨Nat.le_succ _, fun x hx => ?_⟩
      rcases List.mem_append.mp hx with hx | hx
      · exact .inl hx
      · cases List.mem_singleton.mp hx
        exact .inr (Nat.lt_succ_self _)

end Session

end Yrmcds
