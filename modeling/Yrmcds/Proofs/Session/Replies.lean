/-
Whose response a read receives.

The `recv()` behind `touch()` takes whatever comes first. What it rests
on is that `wait_lock` has come to the response of the last request: by
the order of the connection nothing sent before can then be under way or
unread (`InOrder.still`), whatever quiet requests, failed reads and
abandoned responses came earlier. So the touch is alone on the connection
(`OnlyLast`), and once its response is taken the connection is still again.

`requests` is the history of a connection: the requests a run has sent on
it, with their numbers.
-/
import Yrmcds.Proofs.Session.Locks

namespace Yrmcds

namespace Session

variable {σ : Type} {sv : Server σ} {w w' : World σ} {a : Act}
  {k j n : Nat} {h h' : Handler} {c c' : Channel} {r : Request}
  {id data : Str} {log : List (Nat × Request)}

-- ================================================================= history

/-- The requests under way behind number `n`. -/
def Channel.since (c : Channel) (n : Nat) : List (Nat × Request) :=
  c.inflight.filter fun x => n < x.1

/-- The requests a run sends on connection `k`. -/
def requests (sv : Server σ) (k : Nat) :
    World σ → List Act → List (Nat × Request)
  | _, [] => []
  | w, a :: acts =>
      match w.step sv a with
      | .error _ => []
      | .ok w' =>
          (w'.handlers k).channel.since (w.handlers k).channel.sent
            ++ requests sv k w' acts

/-- What was under way before is not new. -/
theorem InOrder.since_nothing (hc : InOrder c)
    (hf : ∀ x ∈ c'.inflight, x ∈ c.inflight) : c'.since c.sent = [] := by
  unfold Channel.since
  rw [List.filter_eq_nil_iff]
  intro x hx hnew
  have hle := hc.sent x.1
    (List.mem_append_right _ (List.mem_map_of_mem (hf x hx)))
  have hlt := of_decide_eq_true hnew
  omega

/-- A request that is sent is. -/
theorem InOrder.since_send (hc : InOrder c) (r : Request) :
    (c.send r).2.since c.sent = [(c.sent + 1, r)] := by
  have hold : c.since c.sent = [] := hc.since_nothing fun x hx => hx
  unfold Channel.since at hold ⊢
  unfold Channel.send
  rw [List.filter_append, hold]
  simp

-- ================================================================ channels

/-- Nothing is under way and nothing is unread. -/
structure Still (c : Channel) : Prop where
  inflight : c.inflight = []
  replies : c.replies = []

/-- Nothing but the last request is under way or unread. -/
structure OnlyLast (c : Channel) : Prop where
  inflight : ∀ x ∈ c.inflight, x.1 = c.sent
  replies : ∀ r ∈ c.replies, r.request = c.sent

/-- Once the response to the last request is taken, the connection is
still. -/
theorem InOrder.still (hc : InOrder c) {reply : Reply} {replies : List Reply}
    (hr : c.replies = reply :: replies) (hlast : reply.request = c.sent) :
    Still { c with replies } := by
  have hmem : reply ∈ c.replies := by
    rw [hr]
    exact List.mem_cons_self ..
  refine ⟨hc.inflight_nil hmem hlast, ?_⟩
  rw [List.eq_nil_iff_forall_not_mem]
  intro reply' hr'
  have hin : reply'.request ∈ replies.map Reply.request
      ++ c.inflight.map Prod.fst :=
    List.mem_append_left _ (List.mem_map_of_mem hr')
  have horder := hc.order
  have hsent := hc.sent
  rw [hr] at horder hsent
  have hlt := (List.pairwise_cons.mp horder).1 _ hin
  have hle := hsent _ (List.mem_cons_of_mem _ hin)
  omega

/-- A request sent on a still connection is alone on it. -/
theorem Still.send (hs : Still c) (r : Request) : OnlyLast (c.send r).2 := by
  unfold Channel.send
  rw [hs.inflight, hs.replies]
  refine ⟨fun x hx => ?_, fun r hr => by cases hr⟩
  cases List.mem_singleton.mp hx
  rfl

theorem OnlyLast.received {reply : Reply} {replies : List Reply} (ha : OnlyLast c)
    (hr : c.replies = reply :: replies) : OnlyLast { c with replies } := by
  refine ⟨ha.inflight, fun reply' hr' => ha.replies reply' ?_⟩
  rw [hr]
  exact List.mem_cons_of_mem _ hr'

theorem OnlyLast.performed {inflight : List (Nat × Request)} (ha : OnlyLast c)
    (hf : c.inflight = (n, r) :: inflight) (answer : Option (Status × Str)) :
    OnlyLast { c with inflight, replies := c.replies ++ answers n answer } := by
  have hall := ha.inflight
  rw [hf, List.forall_mem_cons] at hall
  refine ⟨hall.2, fun reply hr => ?_⟩
  rcases List.mem_append.mp hr with hr | hr
  · exact ha.replies reply hr
  · exact (mem_answers hr).2.1.trans hall.1

-- ================================================================ handlers

/-- What is under way and unread where a method stands. -/
def AtReply (log : List (Nat × Request)) (h : Handler) : Prop :=
  match h.pc with
  | .idle => h.closed = false → ∀ data, h.result = some (.data data) →
      Still h.channel
  | .waitLock _ serial => serial = UInt32.ofNat h.channel.sent
  | .waitTouch id _ => OnlyLast h.channel
      ∧ log.getLast? = some (h.channel.sent, .touch id h.expire)
  | .waitGet serial => serial = UInt32.ofNat h.channel.sent

/-- The invariant of a handler that has sent the requests of `log`. -/
structure Replied (log : List (Nat × Request)) (h : Handler) : Prop where
  inOrder : InOrder h.channel
  length : log.length = h.channel.sent
  atReply : AtReply log h

theorem replied_new (expire timeout : Int) :
    Replied [] (.new expire timeout) where
  inOrder := ⟨List.Pairwise.nil, fun n hn => (by cases hn),
    fun r hr => (by cases hr)⟩
  length := rfl
  atReply := fun _ _ hret => by cases hret

/-- The connection goes on under a method that does not. -/
theorem AtReply.mono (ha : AtReply log h) (hpc : h'.pc = h.pc)
    (hresult : h'.result = h.result) (hclosed : h'.closed = h.closed)
    (hexpire : h'.expire = h.expire)
    (hsent : h'.channel.sent = h.channel.sent)
    (hstill : Still h.channel → Still h'.channel)
    (honly : OnlyLast h.channel → OnlyLast h'.channel) : AtReply log h' := by
  unfold AtReply at ha ⊢
  rw [hpc, hresult, hclosed, hexpire, hsent]
  cases hp : h.pc with
  | idle =>
      rw [hp] at ha
      intro hopen data hret
      exact hstill (ha hopen data hret)
  | waitLock id serial =>
      rw [hp] at ha
      exact ha
  | waitTouch id data =>
      rw [hp] at ha
      exact ⟨honly ha.1, ha.2⟩
  | waitGet serial =>
      rw [hp] at ha
      exact ha

/-- A method that ends without data. -/
theorem atReply_ends {result : Result} (hne : ∀ data, result ≠ .data data) :
    AtReply log (h.ends result) :=
  fun _ data hret => absurd (Option.some.inj hret) (hne data)

/-- A read that ends on a still connection. -/
theorem Still.atReply (hs : Still h.channel) :
    AtReply log (h.ends (.data data)) :=
  fun _ _ _ => hs

theorem atReply_lockGet (ok : Bool) : AtReply log (h.lockGet id ok) := by
  cases ok with
  | false => exact atReply_ends fun data => by simp
  | true => exact rfl

/-- A method is called. -/
theorem atReply_call (ok : Bool) (call : Call) :
    AtReply log (h.call ok call) := by
  cases call with
  | open_ => exact atReply_ends fun data => by simp
  | close => exact atReply_ends fun data => by simp
  | gc => exact atReply_ends fun data => by simp
  | write id data => cases ok <;> exact atReply_ends fun data => by simp
  | destroy id => cases ok <;> exact atReply_ends fun data => by simp
  | read id =>
      show AtReply log (h.read id ok)
      unfold Handler.read
      split
      next => exact atReply_lockGet ok
      next =>
        cases ok with
        | false => exact atReply_ends fun data => by simp
        | true => exact rfl

/-- A read goes on after `wait_lock`, on a still connection. -/
theorem Still.atReply_afterWaitLock (hs : Still h.channel)
    (hc : InOrder h.channel) (reply : Reply) (ok : Bool) :
    AtReply (log ++ (h.afterWaitLock id reply ok).channel.since h.channel.sent)
      (h.afterWaitLock id reply ok) := by
  unfold Handler.afterWaitLock
  split
  next =>
    cases ok with
    | false => exact atReply_ends fun data => by simp
    | true =>
        refine ⟨hs.send _, ?_⟩
        show (log ++ (h.channel.send _).2.since h.channel.sent).getLast? = _
        rw [hc.since_send, List.getLast?_append]
        rfl
  next => exact hs.atReply

/-- A method goes on with the next response. -/
theorem AtReply.recv (ha : AtReply log h) (hc : InOrder h.channel)
    {reply : Reply} {replies : List Reply}
    (hr : h.channel.replies = reply :: replies) (hfew : Few h.channel)
    (late ok : Bool) :
    let h₁ := { h with channel := { h.channel with replies } }
    AtReply (log ++ (h₁.recv reply late ok).channel.since h.channel.sent)
      (h₁.recv reply late ok) := by
  intro h₁
  have hc₁ : InOrder h₁.channel := hc.received hr
  have hmem : reply ∈ h.channel.replies := by
    rw [hr]
    exact List.mem_cons_self ..
  have hstill : reply.request = h.channel.sent → Still h₁.channel :=
    hc.still hr
  have hx := recv_received h₁ reply late ok
  generalize h₁.recv reply late ok = h' at hx ⊢
  have hpc := ha
  unfold AtReply at hpc
  cases hx with
  | passed =>
      have hsame : h₁.channel.since h.channel.sent = [] :=
        hc.since_nothing fun x hx => hx
      rw [hsame, List.append_nil]
      refine ha.mono rfl rfl rfl rfl rfl (fun hs => ?_) fun hs => hs.received hr
      have hnone := hr.symm.trans hs.replies
      cases hnone
  | late => exact atReply_ends fun data => by simp
  | again => exact atReply_lockGet ok
  | answered heq hs =>
      rw [show h.pc = _ from heq] at hpc
      have hlast := hc.last hfew hmem (hs.trans hpc)
      exact (hstill hlast).atReply_afterWaitLock hc₁ reply ok
  | touched heq =>
      rw [show h.pc = _ from heq] at hpc
      apply Still.atReply
      exact hstill (hpc.1.replies reply hmem)
  | got heq hs =>
      rw [show h.pc = _ from heq] at hpc
      exact (hstill (hc.last hfew hmem (hs.trans hpc))).atReply

-- =================================================================== steps

/-- At most one request more. -/
theorem Sends.length (hs : Sends c c') (hc : InOrder c)
    (hl : log.length = c.sent) :
    (log ++ c'.since c.sent).length = c'.sent := by
  cases hs with
  | nothing =>
      rw [hc.since_nothing fun x hx => hx, List.append_nil]
      exact hl
  | request r =>
      rw [hc.since_send, List.length_append, hl]
      rfl

theorem Sends.inOrder (hs : Sends c c') (hc : InOrder c) : InOrder c' := by
  cases hs with
  | nothing => exact hc
  | request r => exact hc.send r

/-- A step in which the connection sends nothing. -/
theorem Replied.quiet (hw : Replied log h)
    (hf : ∀ x ∈ h'.channel.inflight, x ∈ h.channel.inflight)
    (hw' : Replied log h') :
    Replied (log ++ h'.channel.since h.channel.sent) h' := by
  rw [hw.inOrder.since_nothing hf, List.append_nil]
  exact hw'

/-- The server performs a request of the handler. -/
theorem Replied.performed {inflight : List (Nat × Request)}
    (hw : Replied log h) (hf : h.channel.inflight = (n, r) :: inflight)
    (answer : Option (Status × Str)) :
    Replied log (h.performed n inflight answer) := by
  refine ⟨hw.inOrder.performed hf answer, hw.length, ?_⟩
  refine hw.atReply.mono rfl rfl rfl rfl rfl (fun hs => ?_)
    fun ha => ha.performed hf answer
  have hnone := hf.symm.trans hs.inflight
  cases hnone

/-- Every step keeps a handler at its log. -/
theorem replied_step (hw : Replied log (w.handlers k))
    (hfew : log.length < 2 ^ 32) (hs : w.step sv a = .ok w') :
    Replied (log ++ (w'.handlers k).channel.since (w.handlers k).channel.sent)
      (w'.handlers k) := by
  have hother : w'.handlers k = w.handlers k →
      Replied (log ++ (w'.handlers k).channel.since
        (w.handlers k).channel.sent) (w'.handlers k) := by
    intro heq
    rw [heq]
    exact hw.quiet (fun x hx => hx) hw
  cases stepped hs with
  | @called j call ok _ _ =>
      by_cases hj : j = k
      · subst hj
        rw [put_self]
        have hsends := call_sends (w.handlers j) ok call
        exact ⟨hsends.inOrder hw.inOrder, hsends.length hw.inOrder hw.length,
          atReply_call ok call⟩
      · exact hother (put_other (Ne.symm hj))
  | @received j late ok reply replies hr _ =>
      by_cases hj : j = k
      · subst hj
        rw [put_self]
        have hc := hw.inOrder.received hr
        have hsends := (recv_received { w.handlers j with
          channel := { (w.handlers j).channel with replies } } reply late
            ok).sends
        refine ⟨hsends.inOrder hc, hsends.length hc hw.length,
          hw.atReply.recv hw.inOrder hr (fun r _ => ?_) late ok⟩
        have hlt := hw.length
        omega
      · exact hother (put_other (Ne.symm hj))
  | @threw j _ =>
      by_cases hj : j = k
      · subst hj
        rw [put_self]
        exact hw.quiet (fun x hx => hx)
          ⟨hw.inOrder, hw.length, atReply_ends fun data => by simp⟩
      · exact hother (put_other (Ne.symm hj))
  | @gone j =>
      by_cases hj : j = k
      · subst hj
        rw [put_self]
        exact hw.quiet (fun x hx => hx)
          ⟨hw.inOrder, hw.length, fun hopen => by cases hopen⟩
      · exact hother (put_other (Ne.symm hj))
  | @served j n r inflight hf =>
      by_cases hj : j = k
      · subst hj
        rw [put_self]
        refine hw.quiet (fun x hx => ?_) (hw.performed hf _)
        rw [hf]
        exact List.mem_cons_of_mem _ hx
      · exact hother (put_other (Ne.symm hj))
  | hungUp => exact hother rfl
  | expired => exact hother rfl

/-- And so does every run. -/
theorem replied_run {acts : List Act} (hw : Replied log (w.handlers k))
    (hfew : (log ++ requests sv k w acts).length < 2 ^ 32)
    (hrun : w.run sv acts = .ok w') :
    Replied (log ++ requests sv k w acts) (w'.handlers k) := by
  induction acts generalizing w log with
  | nil =>
      cases hrun
      rw [requests, List.append_nil]
      exact hw
  | cons a acts ih =>
      unfold World.run at hrun ih
      rw [Run.exec] at hrun
      rw [requests] at hfew ⊢
      cases hs : w.step sv a with
      | error e =>
          rw [hs] at hrun
          cases hrun
      | ok w₁ =>
          rw [hs] at hrun hfew
          dsimp only at hfew ⊢
          rw [← List.append_assoc] at hfew ⊢
          refine ih (replied_step hw ?_ hs) hfew hrun
          rw [List.length_append, List.length_append] at hfew
          omega

-- ================================================================= receive

/-- The `recv()` behind `touch()` takes the response to that touch, the
last request of the run; and when a read has returned, nothing is under
way or unread. -/
theorem read_receives_touch (sv : Server σ) (s : σ)
    (expire timeout : Nat → Int) {acts : List Act}
    (hfew : (requests sv k (.start s expire timeout) acts).length < 2 ^ 32)
    (hrun : (World.start s expire timeout).run sv acts = .ok w) :
    (∀ id data late ok w', (w.handlers k).pc = .waitTouch id data →
      w.step sv (.recv k late ok) = .ok w' →
        ∃ reply replies before n,
          (w.handlers k).channel.replies = reply :: replies
          ∧ requests sv k (.start s expire timeout) acts
            = before ++ [(reply.request, .touch id n)]
          ∧ (w'.handlers k).result = some (.data data))
    ∧ ∀ data, (w.handlers k).closed = false → (w.handlers k).pc = .idle →
      (w.handlers k).result = some (.data data) →
        (w.handlers k).channel.inflight = []
          ∧ (w.handlers k).channel.replies = [] := by
  have hw : Replied ([] ++ requests sv k (.start s expire timeout) acts)
      (w.handlers k) :=
    replied_run (replied_new (expire k) (timeout k)) hfew hrun
  rw [List.nil_append] at hw
  have hat := hw.atReply
  unfold AtReply at hat
  constructor
  · intro id data late ok w' hpc hs
    rw [hpc] at hat
    obtain ⟨honly, hlog⟩ := hat
    cases stepped hs with
    | @received _ _ _ reply replies hr _ =>
        obtain ⟨before, hbefore⟩ := List.getLast?_eq_some_iff.mp hlog
        have hlast := honly.replies reply (by
          rw [hr]
          exact List.mem_cons_self ..)
        refine ⟨reply, replies, before, (w.handlers k).expire, hr, ?_, ?_⟩
        · rw [hlast]
          exact hbefore
        · rw [put_self, Handler.recv, hpc]
          rfl
  · intro data hopen hidle hret
    rw [hidle] at hat
    have hstill := hat hopen data hret
    exact ⟨hstill.inflight, hstill.replies⟩

/-- A read that finds its session, and a write whose quiet error nobody
has read before the next read. -/
def readAgain : List Act :=
  [.call 0 (.read [1]) true, .serve 0, .recv 0 false true, .serve 0,
    .recv 0 false true, .call 0 (.write [3] [4]) true,
    .call 0 (.read [1]) true, .serve 0, .serve 0, .recv 0 false true,
    .recv 0 false true, .serve 0]

/-- The second read has passed over the error response, and takes the
response to its own touch. -/
theorem read_receives_touch_again :
    ∃ w w', (World.start (Store.single [1] [2]) (fun _ => 3600)
        fun _ => 6).run Store.server readAgain = .ok w
      ∧ w.step Store.server (.recv 0 false true) = .ok w'
      ∧ ∃ reply replies before n,
        (w.handlers 0).channel.replies = reply :: replies
        ∧ requests Store.server 0 (.start (Store.single [1] [2])
            (fun _ => 3600) fun _ => 6) readAgain
          = before ++ [(reply.request, .touch [1] n)]
        ∧ (w'.handlers 0).result = some (.data [2]) := by
  obtain ⟨w, hrun, hw⟩ := Run.exists_of_ends
    (r := (World.start (Store.single [1] [2]) (fun _ => 3600) fun _ => 6).run
      Store.server readAgain)
    (p := fun w => decide ((w.handlers 0).pc = .waitTouch [1] [2])
      && Run.ends (w.step Store.server (.recv 0 false true)) fun _ => true)
    (by decide +kernel)
  rw [Bool.and_eq_true, decide_eq_true_eq] at hw
  obtain ⟨hpc, hends⟩ := hw
  obtain ⟨w', hstep, -⟩ := Run.exists_of_ends hends
  exact ⟨w, w', hrun, hstep, (read_receives_touch Store.server _ _ _
    (by decide +kernel) hrun).1 _ _ _ _ _ hpc hstep⟩

end Session

end Yrmcds
