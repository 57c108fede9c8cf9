/-
What a read returns.

`Trail` is the history of one connection that the state does not keep:
the session read last, the request made for it, and what the server has
answered to which request. A handler in the middle of a read waits for the
answer to that request, or has it (`AtRead`), so that a read returns the
body of that answer (`Returned`), whatever its status. It returns what it
should exactly when the status is OK or there is no body
(`read_returns_iff`).

Nothing is assumed of the server: it answers what it likes, to a quiet
request too.
-/
import Yrmcds.Proofs.Session.Exclusion

namespace Yrmcds

namespace Session

variable {σ : Type} {sv : Server σ} {w w' : World σ} {a : Act}
  {k j n : Nat} {h : Handler} {c c' : Channel} {r : Request} {id data : Str}

-- ================================================================= history

/-- The requests a read is about. -/
def Request.retrieves : Request → Bool
  | .lockGet _ => true
  | .getTouch _ _ => true
  | _ => false

/-- The session a call reads. -/
def Call.reads : Call → Option Str
  | .read id => some id
  | _ => none

/-- The history of a connection: the session of its last read, the last
request for one, and the answers by the number of the request. -/
structure Trail where
  read : Option Str
  asked : Option (Nat × Request)
  answers : Nat → Option (Status × Str)

/-- The first request of a read behind number `n`. -/
def Channel.asked (c : Channel) (n : Nat) : Option (Nat × Request) :=
  c.inflight.find? fun x => n < x.1 ∧ x.2.retrieves = true

namespace Trail

/-- Nothing has happened. -/
def start : Trail := ⟨none, none, fun _ => none⟩

/-- A method of the handler has come from `h` to `h'`. -/
def moves (t : Trail) (h h' : Handler) : Trail :=
  { t with asked := (h'.channel.asked h.channel.sent).or t.asked }

/-- What a step adds to the history of connection `k`. -/
def next (sv : Server σ) (k : Nat) (w w' : World σ) (t : Trail) : Act → Trail
  | .call j call _ =>
      if j = k then
        { t with read := call.reads.or t.read }.moves (w.handlers k)
          (w'.handlers k)
      else t
  | .recv j _ _ =>
      if j = k then t.moves (w.handlers k) (w'.handlers k) else t
  | .serve j =>
      if j = k then
        match (w.handlers k).channel.inflight with
        | [] => t
        | (n, r) :: _ =>
            { t with answers :=
                Function.update t.answers n (sv.serve w.server k r).2 }
      else t
  | _ => t

end Trail

/-- The history of connection `k` after a run. -/
def trail (sv : Server σ) (k : Nat) : World σ → Trail → List Act → Trail
  | _, t, [] => t
  | w, t, a :: acts =>
      match w.step sv a with
      | .error _ => t
      | .ok w' => trail sv k w' (t.next sv k w w' a) acts

-- ================================================================= answers

/-- The responses on the way are what the server has answered, and it has
answered nothing that is still to be performed. -/
structure Answered (t : Trail) (c : Channel) : Prop extends InOrder c where
  answered : ∀ reply ∈ c.replies,
    t.answers reply.request = some (reply.status, reply.data)
  ahead : ∀ m, t.answers m ≠ none → m ≤ c.sent ∧ m ∉ c.inflight.map Prod.fst

theorem answered_start : Answered .start ⟨0, [], []⟩ where
  order := List.Pairwise.nil
  sent n hn := by cases hn
  serial r hr := by cases hr
  answered r hr := by cases hr
  ahead m hm := absurd rfl hm

variable {t t' : Trail}

theorem Answered.congr (ha : Answered t c) (ht : t'.answers = t.answers) :
    Answered t' c := by
  obtain ⟨hc, hanswered, hahead⟩ := ha
  rw [← ht] at hanswered hahead
  exact ⟨hc, hanswered, hahead⟩

/-- A request is sent, or none. -/
theorem Answered.sends (ha : Answered t c) (hs : Sends c c') :
    Answered t c' := by
  cases hs with
  | nothing => exact ha
  | request r =>
      refine ⟨ha.toInOrder.send r, ha.answered, fun m hm => ?_⟩
      obtain ⟨hle, hnot⟩ := ha.ahead m hm
      refine ⟨Nat.le_succ_of_le hle, fun hmem => ?_⟩
      unfold Channel.send at hmem
      rw [List.map_append, List.mem_append] at hmem
      rcases hmem with hmem | hmem
      · exact hnot hmem
      · cases List.mem_singleton.mp hmem
        omega

theorem Answered.received {reply : Reply} {replies : List Reply}
    (ha : Answered t c) (hr : c.replies = reply :: replies) :
    Answered t { c with replies } := by
  refine ⟨ha.toInOrder.received hr, fun reply' hr' => ?_, ha.ahead⟩
  apply ha.answered reply'
  rw [hr]
  exact List.mem_cons_of_mem _ hr'

/-- The server performs a request, which it has not answered before. -/
theorem Answered.performed {inflight : List (Nat × Request)}
    (ha : Answered t c) (hf : c.inflight = (n, r) :: inflight)
    (answer : Option (Status × Str)) :
    Answered { t with answers := Function.update t.answers n answer }
      { c with inflight, replies := c.replies ++ answers n answer } := by
  have hc := ha.toInOrder
  have hhead : n ∈ c.inflight.map Prod.fst := by
    rw [hf]
    exact List.mem_cons_self ..
  refine ⟨hc.performed hf answer, fun reply hr => ?_, fun m hm => ?_⟩
  · rcases List.mem_append.mp hr with hr | hr
    · have hlt := (List.pairwise_append.mp hc.order).2.2 _
        (List.mem_map_of_mem hr) _ hhead
      exact (Function.update_of_ne (Nat.ne_of_lt hlt) ..).trans
        (ha.answered reply hr)
    · obtain ⟨-, hn, hans⟩ := mem_answers hr
      rw [hn, hans]
      exact Function.update_self ..
  · by_cases hmn : m = n
    · subst hmn
      refine ⟨hc.sent m (List.mem_append_right _ hhead), fun hmem => ?_⟩
      have horder := (List.pairwise_append.mp hc.order).2.1
      rw [hf] at horder
      exact Nat.lt_irrefl m ((List.pairwise_cons.mp horder).1 m hmem)
    · change Function.update t.answers n answer m ≠ none at hm
      rw [Function.update_of_ne hmn] at hm
      obtain ⟨hle, hnot⟩ := ha.ahead m hm
      refine ⟨hle, fun hmem => hnot ?_⟩
      rw [hf]
      exact List.mem_cons_of_mem _ hmem

-- ================================================================ requests

/-- Nothing that was under way is new. -/
theorem InOrder.asked_nothing (hc : InOrder c) : c.asked c.sent = none := by
  unfold Channel.asked
  rw [List.find?_eq_none]
  intro x hx hnew
  have hle := hc.sent x.1 (List.mem_append_right _ (List.mem_map_of_mem hx))
  have hlt := (of_decide_eq_true hnew).1
  omega

/-- The request that was sent is. -/
theorem InOrder.asked_send (hc : InOrder c) (r : Request) :
    (c.send r).2.asked c.sent
      = if r.retrieves = true then some (c.sent + 1, r) else none := by
  have hnothing := hc.asked_nothing
  unfold Channel.asked at hnothing ⊢
  unfold Channel.send
  rw [List.find?_append, hnothing, Option.none_or]
  cases hr : r.retrieves <;> simp [hr]

-- =================================================================== reads

/-- What a read may return: the body of the answer to its request. -/
def Returned (t : Trail) (data : Str) : Prop :=
  ∃ id n request status, t.read = some id ∧ t.asked = some (n, request)
    ∧ request.retrieves = true ∧ request.id = id
    ∧ t.answers n = some (status, data)

/-- What a handler knows in a read, and what it has returned. -/
def AtRead (t : Trail) (h : Handler) : Prop :=
  match h.pc with
  | .idle => h.closed = false → ∀ data, h.result = some (.data data) →
      Returned t data
  | .waitLock id serial => serial = UInt32.ofNat h.channel.sent
      ∧ t.read = some id ∧ t.asked = some (h.channel.sent, .lockGet id)
  | .waitTouch id data => t.read = some id
      ∧ ∃ n, t.asked = some (n, .lockGet id)
        ∧ t.answers n = some (Status.ok, data)
  | .waitGet serial => serial = UInt32.ofNat h.channel.sent
      ∧ ∃ id expire, t.read = some id
        ∧ t.asked = some (h.channel.sent, .getTouch id expire)

theorem atRead_new (expire timeout : Int) :
    AtRead .start (.new expire timeout) :=
  fun _ _ hret => by cases hret

/-- A method that ends without data. -/
theorem atRead_ends {result : Result} (hne : ∀ data, result ≠ .data data) :
    AtRead t (h.ends result) :=
  fun _ data hret => absurd (Option.some.inj hret) (hne data)

variable {h' : Handler}

/-- More answers, and nothing new of the handler. -/
theorem AtRead.mono (hr : AtRead t h) (hread : t'.read = t.read)
    (hasked : t'.asked = t.asked)
    (hans : ∀ m x, t.answers m = some x → t'.answers m = some x)
    (hpc : h'.pc = h.pc) (hresult : h'.result = h.result)
    (hclosed : h'.closed = h.closed)
    (hsent : h'.channel.sent = h.channel.sent) : AtRead t' h' := by
  unfold AtRead Returned at hr ⊢
  rw [hpc, hresult, hclosed, hsent, hread, hasked]
  cases hp : h.pc with
  | idle =>
      rw [hp] at hr
      intro hopen data hret
      obtain ⟨id, n, request, status, hid, hn, hretrieves, hrid, hans'⟩ :=
        hr hopen data hret
      exact ⟨id, n, request, status, hid, hn, hretrieves, hrid, hans _ _ hans'⟩
  | waitLock id serial =>
      rw [hp] at hr
      exact hr
  | waitTouch id data =>
      rw [hp] at hr
      obtain ⟨hid, n, hn, hans'⟩ := hr
      exact ⟨hid, n, hn, hans _ _ hans'⟩
  | waitGet serial =>
      rw [hp] at hr
      exact hr

/-- A method that sends nothing adds nothing to the history. -/
theorem InOrder.moves_nothing (hc : InOrder h.channel)
    (hf : h'.channel.inflight = h.channel.inflight) : t.moves h h' = t := by
  have hnothing := hc.asked_nothing
  unfold Channel.asked at hnothing
  unfold Trail.moves Channel.asked
  rw [hf, hnothing, Option.none_or]

/-- A read that ends with the body of the answer. -/
theorem Returned.atRead (hret : Returned t data) (hc : InOrder h.channel)
    (hf : h'.channel.inflight = h.channel.inflight) :
    AtRead (t.moves h (h'.ends (.data data))) (h'.ends (.data data)) := by
  have hsame : t.moves h (h'.ends (.data data)) = t := hc.moves_nothing hf
  rw [hsame]
  intro _ data' hdata
  cases hdata
  exact hret

/-- A request that is sent is that of a read, or none. -/
theorem InOrder.moves_send (hc : InOrder h.channel)
    (hf : h'.channel = (h.channel.send r).2) :
    (t.moves h h').asked
      = if r.retrieves = true then some (h.channel.sent + 1, r)
        else t.asked := by
  show (h'.channel.asked h.channel.sent).or t.asked = _
  rw [hf, hc.asked_send r]
  split
  next => exact Option.some_or
  next => exact Option.none_or

/-- A turn of `wait_lock` begins. -/
theorem atRead_lockGet (hc : InOrder h.channel) (hid : t.read = some id)
    (ok : Bool) :
    AtRead (t.moves h (h.lockGet id ok)) (h.lockGet id ok) := by
  cases ok with
  | false => exact atRead_ends fun data => by simp
  | true =>
      exact ⟨rfl, hid,
        (hc.moves_send (r := .lockGet id) rfl).trans (if_pos rfl)⟩

/-- A method is called. -/
theorem AtRead.call (hc : InOrder h.channel) (ok : Bool) (call : Call) :
    AtRead ({ t with read := call.reads.or t.read }.moves h (h.call ok call))
      (h.call ok call) := by
  cases call with
  | open_ => exact atRead_ends fun data => by simp
  | close => exact atRead_ends fun data => by simp
  | gc => exact atRead_ends fun data => by simp
  | write id data => cases ok <;> exact atRead_ends fun data => by simp
  | destroy id => cases ok <;> exact atRead_ends fun data => by simp
  | read id =>
      show AtRead (Trail.moves _ h (h.read id ok)) (h.read id ok)
      unfold Handler.read
      split
      next => exact atRead_lockGet hc rfl ok
      next =>
        cases ok with
        | false => exact atRead_ends fun data => by simp
        | true =>
            exact ⟨rfl, id, h.expire, rfl,
              (hc.moves_send (r := .getTouch id h.expire) rfl).trans
                (if_pos rfl)⟩

/-- A read goes on after `wait_lock`. -/
theorem atRead_afterWaitLock (hc : InOrder h.channel) {reply : Reply}
    (hid : t.read = some id) (hasked : t.asked = some (n, .lockGet id))
    (hans : t.answers n = some (reply.status, reply.data)) (ok : Bool) :
    AtRead (t.moves h (h.afterWaitLock id reply ok))
      (h.afterWaitLock id reply ok) := by
  unfold Handler.afterWaitLock
  split
  next hstatus =>
    cases ok with
    | false => exact atRead_ends fun data => by simp
    | true =>
        have hsame : (t.moves h { h with
            locked := true
            channel := (h.channel.send (.touch id h.expire)).2
            pc := .waitTouch id reply.data }).asked = t.asked :=
          (hc.moves_send (r := .touch id h.expire) rfl).trans
            (if_neg Bool.false_ne_true)
        exact ⟨hid, n, hsame.trans hasked, hstatus ▸ hans⟩
  next =>
    exact Returned.atRead ⟨id, n, _, _, hid, hasked, rfl, rfl, hans⟩ hc rfl

/-- A method goes on with the next response. -/
theorem AtRead.recv (hr : AtRead t h) (ha : Answered t h.channel)
    {reply : Reply} {replies : List Reply}
    (hrep : h.channel.replies = reply :: replies) (hfew : Few h.channel)
    (late ok : Bool) :
    let h₁ := { h with channel := { h.channel with replies } }
    AtRead (t.moves h₁ (h₁.recv reply late ok)) (h₁.recv reply late ok) := by
  intro h₁
  have hc₁ : InOrder h₁.channel := ha.toInOrder.received hrep
  have hmem : reply ∈ h.channel.replies := by
    rw [hrep]
    exact List.mem_cons_self ..
  have hans := ha.answered reply hmem
  have hx := recv_received h₁ reply late ok
  generalize h₁.recv reply late ok = h' at hx ⊢
  have hpc := hr
  unfold AtRead at hpc
  cases hx with
  | passed =>
      rw [hc₁.moves_nothing rfl]
      exact hr.mono rfl rfl (fun _ _ hx => hx) rfl rfl rfl rfl
  | late => exact atRead_ends fun data => by simp
  | again heq =>
      rw [show h.pc = _ from heq] at hpc
      exact atRead_lockGet hc₁ hpc.2.1 ok
  | answered heq hs =>
      rw [show h.pc = _ from heq] at hpc
      obtain ⟨hserial, hid, hasked⟩ := hpc
      rw [ha.toInOrder.last hfew hmem (hs.trans hserial)] at hans
      exact atRead_afterWaitLock hc₁ hid hasked hans ok
  | touched heq =>
      rw [show h.pc = _ from heq] at hpc
      obtain ⟨hid, n, hasked, hans'⟩ := hpc
      exact Returned.atRead ⟨_, n, _, _, hid, hasked, rfl, rfl, hans'⟩ hc₁ rfl
  | got heq hs =>
      rw [show h.pc = _ from heq] at hpc
      obtain ⟨hserial, id, expire, hid, hasked⟩ := hpc
      rw [ha.toInOrder.last hfew hmem (hs.trans hserial)] at hans
      exact Returned.atRead ⟨id, _, _, _, hid, hasked, rfl, rfl, hans⟩ hc₁ rfl

-- ================================================================== steps

/-- What a handler has to do with the history of its connection. -/
structure Follows (t : Trail) (h : Handler) : Prop where
  answered : Answered t h.channel
  atRead : AtRead t h

theorem follows_new (expire timeout : Int) :
    Follows .start (.new expire timeout) :=
  ⟨answered_start, atRead_new expire timeout⟩

/-- The server performs a request of the handler. -/
theorem Follows.performed {inflight : List (Nat × Request)}
    (hw : Follows t h) (hf : h.channel.inflight = (n, r) :: inflight)
    (answer : Option (Status × Str)) :
    Follows { t with answers := Function.update t.answers n answer }
      (h.performed n inflight answer) := by
  refine ⟨hw.answered.performed hf answer, ?_⟩
  refine hw.atRead.mono rfl rfl (fun m x hm => ?_) rfl rfl rfl rfl
  have hne : m ≠ n := by
    rintro rfl
    apply (hw.answered.ahead m (by rw [hm]; exact Option.some_ne_none _)).2
    rw [hf]
    exact List.mem_cons_self ..
  exact (Function.update_of_ne hne ..).trans hm

/-- Every step keeps a handler at its history. -/
theorem follows_step (hw : Follows t (w.handlers k)) (hfew : Windowed w a)
    (hs : w.step sv a = .ok w') :
    Follows (t.next sv k w w' a) (w'.handlers k) := by
  cases stepped hs with
  | @called j call ok _ _ =>
      unfold Trail.next
      dsimp only
      by_cases hj : j = k
      · subst hj
        rw [if_pos rfl, put_self]
        exact ⟨(hw.answered.sends (call_sends ..)).congr rfl,
          AtRead.call hw.answered.toInOrder ok call⟩
      · rw [if_neg hj, put_other (Ne.symm hj)]
        exact hw
  | @received j late ok reply replies hr _ =>
      unfold Trail.next
      dsimp only
      by_cases hj : j = k
      · subst hj
        rw [if_pos rfl, put_self]
        have hx := recv_received { w.handlers j with
          channel := { (w.handlers j).channel with replies } } reply late ok
        exact ⟨((hw.answered.received hr).sends hx.sends).congr rfl,
          hw.atRead.recv hw.answered hr hfew late ok⟩
      · rw [if_neg hj, put_other (Ne.symm hj)]
        exact hw
  | @threw j _ =>
      by_cases hj : j = k
      · subst hj
        rw [put_self]
        exact ⟨hw.answered, atRead_ends fun data => by simp⟩
      · rw [put_other (Ne.symm hj)]
        exact hw
  | @gone j =>
      by_cases hj : j = k
      · subst hj
        rw [put_self]
        exact ⟨hw.answered, fun hopen => by cases hopen⟩
      · rw [put_other (Ne.symm hj)]
        exact hw
  | @served j n r inflight hf =>
      unfold Trail.next
      dsimp only
      by_cases hj : j = k
      · subst hj
        rw [if_pos rfl, put_self, hf]
        exact hw.performed hf _
      · rw [if_neg hj, put_other (Ne.symm hj)]
        exact hw
  | hungUp => exact hw
  | expired => exact hw

/-- And so does every run. -/
theorem follows_run {acts : List Act} (hw : Follows t (w.handlers k))
    (hfew : Run.Guarded (World.step sv) Windowed w acts)
    (hrun : w.run sv acts = .ok w') :
    Follows (trail sv k w t acts) (w'.handlers k) := by
  induction acts generalizing w t with
  | nil =>
      cases hrun
      exact hw
  | cons a acts ih =>
      unfold World.run at hrun ih
      rw [Run.exec] at hrun
      rw [trail]
      cases hs : w.step sv a with
      | error e =>
          rw [hs] at hrun
          cases hrun
      | ok w₁ =>
          rw [hs] at hrun
          exact ih (follows_step hw hfew.1 hs) (hfew.2 w₁ hs) hrun

-- ============================================================= what it returns

/-- A read returns the body of the answer to its own request, and that is
what it should return exactly when the status is OK or there is no
body. -/
theorem read_returns_iff (sv : Server σ) (s : σ) (expire timeout : Nat → Int)
    {acts : List Act}
    (hfew : Run.Guarded (World.step sv) Windowed
      (.start s expire timeout) acts)
    (hrun : (World.start s expire timeout).run sv acts = .ok w)
    (hopen : (w.handlers k).closed = false) (hidle : (w.handlers k).pc = .idle)
    (hret : (w.handlers k).result = some (.data data)) :
    ∃ id n request status body,
      let t := trail sv k (.start s expire timeout) .start acts
      t.read = some id ∧ t.asked = some (n, request)
        ∧ request.retrieves = true ∧ request.id = id
        ∧ t.answers n = some (status, body) ∧ data = body
        ∧ (data = (if status = Status.ok then body else [])
          ↔ status = Status.ok ∨ body = []) := by
  have hw : Follows _ (w.handlers k) :=
    follows_run (follows_new (expire k) (timeout k)) hfew hrun
  have hread := hw.atRead
  unfold AtRead at hread
  rw [hidle] at hread
  obtain ⟨id, n, request, status, hid, hasked, hretrieves, hrid, hans⟩ :=
    hread hopen data hret
  refine ⟨id, n, request, status, data, hid, hasked, hretrieves, hrid, hans,
    rfl, ?_⟩
  by_cases hok : status = Status.ok
  · rw [if_pos hok]
    exact iff_of_true rfl (.inl hok)
  · rw [if_neg hok]
    exact ⟨.inr, fun hor => hor.resolve_left hok⟩

/-- A read with its response. -/
def readOnce : List Act :=
  [.call 0 (.read [1]) true, .serve 0, .recv 0 false true]

/-- A session that exists is read with `getTouch`. -/
theorem read_returns_stored :
    ∃ w, (World.start (Store.single [1] [2]) (fun _ => 3600) fun _ => 0).run
        Store.server readOnce = .ok w
      ∧ (w.handlers 0).result = some (.data [2])
      ∧ ∃ id n request status body,
        let t := trail Store.server 0 (.start (Store.single [1] [2])
          (fun _ => 3600) fun _ => 0) .start readOnce
        t.read = some id ∧ t.asked = some (n, request)
          ∧ request.retrieves = true ∧ request.id = id
          ∧ t.answers n = some (status, body) ∧ [2] = body
          ∧ ([2] = (if status = Status.ok then body else [])
            ↔ status = Status.ok ∨ body = []) := by
  obtain ⟨w, hrun, hw⟩ := Run.exists_of_ends
    (r := (World.start (Store.single [1] [2]) (fun _ => 3600) fun _ => 0).run
      Store.server readOnce)
    (p := fun w => decide ((w.handlers 0).closed = false
      ∧ (w.handlers 0).pc = .idle
      ∧ (w.handlers 0).result = some (.data [2]))) (by decide +kernel)
  rw [decide_eq_true_eq] at hw
  exact ⟨w, hrun, hw.2.2, read_returns_iff Store.server _ _ _
    (Run.guarded_of_checks windowed_of_recent (by decide +kernel)) hrun hw.1
    hw.2.1 hw.2.2⟩

/-- A server whose error responses say `Not found`. -/
def Store.wordy : Server Store :=
  { Store.server with
    serve := fun s k r =>
      let (s, answer) := s.serve k r
      (s, answer.map fun x =>
        if x.1 = Status.ok then x
        else (x.1, [78, 111, 116, 32, 102, 111, 117, 110, 100])) }

/-- The text of an error response is returned as the session. -/
theorem read_returns_text :
    ¬ ∀ (sv : Server Store) (s : Store) (expire timeout : Nat → Int)
      (acts : List Act) (w : World Store) (k : Nat) (data : Str),
      Run.Guarded (World.step sv) Windowed (.start s expire timeout) acts →
      (World.start s expire timeout).run sv acts = .ok w →
      (w.handlers k).closed = false → (w.handlers k).pc = .idle →
      (w.handlers k).result = some (.data data) →
      ∃ n request status body,
        let t := trail sv k (.start s expire timeout) .start acts
        t.asked = some (n, request) ∧ t.answers n = some (status, body)
          ∧ data = if status = Status.ok then body else [] := by
  intro h
  obtain ⟨w, hrun, hw⟩ := Run.exists_of_ends
    (r := (World.start (fun _ => none) (fun _ => 3600) fun _ => 6).run
      Store.wordy readOnce)
    (p := fun w => decide ((w.handlers 0).closed = false
      ∧ (w.handlers 0).pc = .idle
      ∧ (w.handlers 0).result
        = some (.data [78, 111, 116, 32, 102, 111, 117, 110, 100])))
    (by decide +kernel)
  rw [decide_eq_true_eq] at hw
  obtain ⟨n, request, status, body, hasked, hans, hdata⟩ :=
    h Store.wordy _ _ _ readOnce w 0 _
      (Run.guarded_of_checks windowed_of_recent (by decide +kernel)) hrun hw.1
      hw.2.1 hw.2.2
  have hfirst : some (1, Request.lockGet [1]) = some (n, request) := hasked
  cases hfirst
  have hmissing : some (Status.notFound, _) = some (status, body) := hans
  cases hmissing
  cases hdata

end Session

end Yrmcds
