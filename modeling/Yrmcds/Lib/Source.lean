/-
Sources of items, and the loops that take items from them.

A call on a source returns the item in front, fails, or blocks. `Delivers`
says that the source is one: a call that returns takes exactly the item in
front, a call that fails takes none. `loop` is the loop of a consumer:
each item goes to the body, which goes on with a new state or stops; a
failed call ends the loop.

What such a loop does is the fold of its body over the items
(`Delivers.loop`): it has taken a beginning of them, the body has folded
over it, and it ended because the body stopped there or because a call
failed behind it. So its result is a matter of the items (`Comes`); how
the source comes by them is not.

`find` is the loop that skips items. It is a call on the source of the
items that are not skipped (`Delivers.find`), so loops around such loops
are loops over a filtered source.

That calls return is the other half (`Provides`): in front of an item there
are answers with which a call returns it, and what is to be answered later
does not matter. Then there are answers for a whole loop
(`Provides.loop`), and a search provides what it does not skip
(`Provides.find`).

A listing shows item after item, up to one that ends it (`Lists`). What it
has shown is of a beginning of the items, or of all of them.
-/
import Mathlib.Data.List.Basic

namespace Source

variable {κ ε ρ α τ : Type}

/-- A call: an item or an error, and the source behind it; `none` where it
blocks. -/
abbrev Next (κ ε ρ : Type) : Type := κ → Option (Except ε ρ × κ)

/-- `while( 1 ) { e = next(&r); if( e ) return ..; body }`. -/
def loop (next : Next κ ε ρ) (fail : α → ε → τ) (body : α → ρ → Except τ α) :
    Nat → α → κ → Option (τ × κ)
  | 0, _, _ => none
  | fuel + 1, a, s =>
      match next s with
      | none => none
      | some (.error e, s) => some (fail a e, s)
      | some (.ok r, s) =>
          match body a r with
          | .ok a => loop next fail body fuel a s
          | .error t => some (t, s)

/-- `e = next(&r); if( e ) return ..; shown(r)`. -/
def once (next : Next κ ε ρ) (fail : ε → τ) (shown : ρ → τ) (s : κ) : Option τ :=
  match next s with
  | none => none
  | some (.error e, _) => some (fail e)
  | some (.ok r, _) => some (shown r)

/-- `while( 1 ) { e = next(&r); if( e ) return e; if( p(r) ) return r; }`. -/
def find (p : ρ → Bool) (next : Next κ ε ρ) (fuel : Nat) : Next κ ε ρ :=
  loop next (fun _ e => .error e)
    (fun _ r => if p r then .error (.ok r) else .ok ()) fuel ()

-- ================================================================ sources

/-- Calls take the items of the source one by one, in order. `Ok` is an
invariant of the source, and `Failed` what is known of a call that fails. -/
structure Delivers (next : Next κ ε ρ) (Ok : κ → Prop) (items : κ → List ρ)
    (Failed : κ → ε → Prop) : Prop where
  item : ∀ {s s' r}, next s = some (.ok r, s') → Ok s →
    items s = r :: items s' ∧ Ok s'
  error : ∀ {s s' e}, next s = some (.error e, s') → Ok s →
    items s' = items s ∧ Ok s' ∧ Failed s e

variable {next : Next κ ε ρ} {Ok : κ → Prop} {items : κ → List ρ}
  {Failed : κ → ε → Prop} {fail : α → ε → τ} {body : α → ρ → Except τ α}

/-- How a loop has ended behind the items it has taken: the body has
stopped it at the last of them, or a call behind them has failed. -/
inductive Ended (Ok : κ → Prop) (items : κ → List ρ) (Failed : κ → ε → Prop)
    (fail : α → ε → τ) (body : α → ρ → Except τ α) (a : α) (taken : List ρ)
    (t : τ) (s' : κ) : Prop where
  | stopped {pre : List ρ} {r : ρ} {a' : α} (htaken : taken = pre ++ [r])
      (hfold : pre.foldlM body a = .ok a') (hstop : body a' r = .error t)
  | failed {a' : α} {e : ε} {s : κ} (hfold : taken.foldlM body a = .ok a')
      (ht : t = fail a' e) (hok : Ok s) (hitems : items s = items s')
      (hfail : Failed s e)

theorem foldlM_cons_ok {a a' : α} {r : ρ} (rs : List ρ)
    (h : body a r = .ok a') :
    (r :: rs).foldlM body a = rs.foldlM body a' := by
  rw [List.foldlM_cons, h]
  rfl

theorem foldlM_cons_error {a : α} {t : τ} {r : ρ} (rs : List ρ)
    (h : body a r = .error t) : (r :: rs).foldlM body a = .error t := by
  rw [List.foldlM_cons, h]
  rfl

/-- A fold that is stopped goes no further. -/
theorem foldlM_stopped {a a' : α} {t : τ} {r : ρ} {pre : List ρ}
    (rest : List ρ) (hfold : pre.foldlM body a = .ok a')
    (hstop : body a' r = .error t) :
    (pre ++ r :: rest).foldlM body a = .error t := by
  rw [List.foldlM_append, hfold]
  exact foldlM_cons_error rest hstop

/-- A fold that would be stopped by the first item has taken none. -/
theorem foldlM_unstopped {a a' : α} {t : τ} {r : ρ} {rest taken : List ρ}
    (hstop : body a r = .error t) (htaken : taken <+: r :: rest)
    (hfold : taken.foldlM body a = .ok a') : taken = [] ∧ a' = a := by
  cases taken with
  | nil =>
      cases hfold
      exact ⟨rfl, rfl⟩
  | cons r' taken =>
      obtain ⟨rfl, -⟩ := List.cons_prefix_cons.mp htaken
      rw [foldlM_cons_error taken hstop] at hfold
      cases hfold

/-- A fold that is stopped is stopped at one of the items. -/
theorem foldlM_error {a : α} {t : τ} {rs : List ρ}
    (h : rs.foldlM body a = .error t) :
    ∃ pre r rest a', rs = pre ++ r :: rest ∧ pre.foldlM body a = .ok a'
      ∧ body a' r = .error t := by
  induction rs generalizing a with
  | nil => cases h
  | cons r rs ih =>
      cases hbody : body a r with
      | error t' =>
          rw [foldlM_cons_error rs hbody] at h
          cases h
          exact ⟨[], r, rs, a, rfl, rfl, hbody⟩
      | ok a₁ =>
          rw [foldlM_cons_ok rs hbody] at h
          obtain ⟨pre, r', rest, a', hrs, hfold, hstop⟩ := ih h
          exact ⟨r :: pre, r', rest, a', by rw [hrs]; rfl,
            (foldlM_cons_ok pre hbody).trans hfold, hstop⟩

/-- One call is a loop whose body stops in its first round. -/
theorem once_eq_loop (next : Next κ ε ρ) (fail : α → ε → τ) (shown : ρ → τ)
    (fuel : Nat) (a : α) (s : κ) :
    once next (fail a) shown s
      = (loop next fail (fun _ r => .error (shown r)) (fuel + 1) a s).map
        Prod.fst := by
  rw [once, loop]
  cases next s with
  | none => rfl
  | some y =>
      obtain ⟨res, s'⟩ := y
      cases res with
      | error e => rfl
      | ok r => rfl

/-- A loop has folded its body over the items it has taken. -/
theorem Delivers.loop (D : Delivers next Ok items Failed) {fuel : Nat} {a : α}
    {s s' : κ} {t : τ} (h : loop next fail body fuel a s = some (t, s'))
    (hok : Ok s) :
    Ok s' ∧ ∃ taken, items s = taken ++ items s'
      ∧ Ended Ok items Failed fail body a taken t s' := by
  induction fuel generalizing a s with
  | zero => cases h
  | succ fuel ih =>
      rw [Source.loop] at h
      split at h
      next => cases h
      next e s₁ hnext =>
        cases h
        obtain ⟨hitems, hok', hfail⟩ := D.error hnext hok
        exact ⟨hok', [], hitems.symm, .failed rfl rfl hok hitems.symm hfail⟩
      next r s₁ hnext =>
        obtain ⟨hitems, hok₁⟩ := D.item hnext hok
        split at h
        next a₁ hbody =>
          obtain ⟨hok', taken, hrest, hend⟩ := ih h hok₁
          refine ⟨hok', r :: taken, by rw [hitems, hrest]; rfl, ?_⟩
          cases hend with
          | stopped htaken hfold hstop =>
              exact .stopped (by rw [htaken]; rfl)
                ((foldlM_cons_ok _ hbody).trans hfold) hstop
          | failed hfold ht hok hsame hfail =>
              exact .failed ((foldlM_cons_ok _ hbody).trans hfold) ht hok hsame
                hfail
        next t₁ hbody =>
          cases h
          have htaken : [r] = [] ++ [r] := rfl
          exact ⟨hok₁, [r], hitems, .stopped htaken rfl hbody⟩

/-- A loop with a round for each item has a result, unless it is blocked in
a call. -/
theorem Delivers.loop_blocked (D : Delivers next Ok items Failed) {fuel : Nat}
    {a : α} {s : κ} (h : Source.loop next fail body fuel a s = none)
    (hok : Ok s) (hfuel : (items s).length < fuel) :
    ∃ s', Ok s' ∧ next s' = none := by
  induction fuel generalizing a s with
  | zero => exact absurd hfuel (Nat.not_lt_zero _)
  | succ fuel ih =>
      rw [Source.loop] at h
      split at h
      next hnext => exact ⟨s, hok, hnext⟩
      next => cases h
      next r s₁ hnext =>
        obtain ⟨hitems, hok₁⟩ := D.item hnext hok
        rw [hitems, List.length_cons] at hfuel
        split at h
        next => exact ih h hok₁ (by omega)
        next => cases h

/-- What a loop in front of these items comes to: it ends where its body
stops, or behind a beginning of the items because a call fails, or it is
blocked. -/
inductive Comes (items : List ρ) (Why : ε → Prop) (Blocked : Prop)
    (fail : α → ε → τ) (body : α → ρ → Except τ α) (a : α) :
    Option τ → Prop where
  | done {t : τ} (hfold : items.foldlM body a = .error t) :
      Comes items Why Blocked fail body a (some t)
  | failed {taken : List ρ} {a' : α} {e : ε} (htaken : taken <+: items)
      (hfold : taken.foldlM body a = .ok a') (hwhy : Why e) :
      Comes items Why Blocked fail body a (some (fail a' e))
  | blocked (h : Blocked) : Comes items Why Blocked fail body a none

/-- A loop with a round for each item comes to what its items say. -/
theorem Delivers.comes (D : Delivers next Ok items Failed) {Why : ε → Prop}
    {Blocked : Prop} (hwhy : ∀ {s e}, Failed s e → Why e)
    (hblocked : ∀ {s}, Ok s → next s = none → Blocked) {fuel : Nat} (a : α)
    {s : κ} (hok : Ok s) (hfuel : (items s).length < fuel) :
    Comes (items s) Why Blocked fail body a
      ((Source.loop next fail body fuel a s).map Prod.fst) := by
  cases h : Source.loop next fail body fuel a s with
  | none =>
      obtain ⟨s', hok', hnext⟩ := D.loop_blocked h hok hfuel
      exact .blocked (hblocked hok' hnext)
  | some r =>
      obtain ⟨t, s'⟩ := r
      obtain ⟨-, taken, hitems, hend⟩ := D.loop h hok
      rw [hitems]
      cases hend with
      | stopped htaken hfold hstop =>
          rw [htaken, List.append_assoc]
          exact .done (foldlM_stopped _ hfold hstop)
      | failed hfold ht hok hsame hfail =>
          rw [Option.map_some, ht]
          exact .failed (List.prefix_append ..) hfold (hwhy hfail)

-- =============================================================== skipping

/-- A search goes on behind the items it skips. -/
theorem find_skipped {p : ρ → Bool} {rs : List ρ}
    (h : rs.foldlM (fun _ r => if p r then (.error (.ok r) : Except
      (Except ε ρ) Unit) else .ok ()) () = .ok ()) : rs.filter p = [] := by
  induction rs with
  | nil => rfl
  | cons r rs ih =>
      cases hp : p r with
      | true =>
          rw [foldlM_cons_error rs (if_pos hp)] at h
          cases h
      | false =>
          rw [List.filter_cons_of_neg (by simp [hp])]
          exact ih ((foldlM_cons_ok rs (if_neg (by simp [hp]))).symm.trans h)

/-- A search is a call on the source of the items it does not skip. -/
theorem Delivers.find (D : Delivers next Ok items Failed) (p : ρ → Bool)
    (fuel : Nat) :
    Delivers (find p next fuel) Ok (fun s => (items s).filter p)
      (fun s e => ∃ s', Ok s' ∧ items s' <:+ items s ∧ Failed s' e) where
  item {s s' r} h hok := by
    obtain ⟨hok', taken, hitems, hend⟩ := D.loop h hok
    refine ⟨?_, hok'⟩
    cases hend with
    | @stopped pre r' _ htaken hfold hstop =>
        split at hstop
        next hp =>
          cases hstop
          rw [hitems, htaken, List.append_assoc, List.filter_append,
            find_skipped hfold]
          exact List.filter_cons_of_pos hp
        next => cases hstop
    | failed _ ht => cases ht
  error {s s' e} h hok := by
    obtain ⟨hok', taken, hitems, hend⟩ := D.loop h hok
    cases hend with
    | stopped _ _ hstop =>
        split at hstop
        next => cases hstop
        next => cases hstop
    | @failed _ _ s₁ hfold ht hok₁ hsame hfail =>
        cases ht
        refine ⟨?_, hok', s₁, hok₁, ?_, hfail⟩
        · rw [hitems, List.filter_append, find_skipped hfold]
          rfl
        · rw [hsame, hitems]
          exact List.suffix_append ..

/-- A search skips what it does not look for. -/
theorem find_skips {p : ρ → Bool} {rs : List ρ} (h : ∀ r ∈ rs, ¬ p r) :
    rs.foldlM (fun _ r => if p r then (.error (.ok r) : Except
      (Except ε ρ) Unit) else .ok ()) () = .ok () := by
  induction rs with
  | nil => rfl
  | cons r rs ih =>
      rw [foldlM_cons_ok rs (if_neg (h r (List.mem_cons_self ..)))]
      exact ih fun r' hr' => h r' (List.mem_cons_of_mem r hr')

-- ============================================================== providing

variable {χ ω : Type}

/-- Calls can be made to return: in front of an item there are answers, all
of them `P`, with which a call returns it, whatever is to be answered
later. `pair` puts the answers to what is not one of them. -/
structure Provides (next : Next κ ε ρ) (pair : χ → List ω → κ) (P : ω → Prop)
    (Ok : χ → Prop) (items : χ → List ρ) : Prop where
  item : ∀ {x r rest}, Ok x → items x = r :: rest →
    ∃ script x', (∀ a ∈ script, P a) ∧ Ok x' ∧ items x' = rest
      ∧ ∀ tail, next (pair x (script ++ tail)) = some (.ok r, pair x' tail)

namespace Provides

variable {pair : χ → List ω → κ} {P : ω → Prop} {Ok : χ → Prop}
  {items : χ → List ρ}

/-- A loop with a round for each item can be made to stop where its body
does. -/
theorem loop (V : Provides next pair P Ok items) (fail : α → ε → τ)
    {fuel : Nat} {a a' : α} {x : χ} {pre rest : List ρ} {r : ρ} {t : τ}
    (hok : Ok x)
    (hitems : items x = pre ++ r :: rest) (hfold : pre.foldlM body a = .ok a')
    (hstop : body a' r = .error t) (hfuel : pre.length < fuel) :
    ∃ script x', (∀ a ∈ script, P a) ∧ Ok x' ∧ items x' = rest
      ∧ ∀ tail, Source.loop next fail body fuel a (pair x (script ++ tail))
        = some (t, pair x' tail) := by
  induction pre generalizing a x fuel with
  | nil =>
      cases hfold
      obtain ⟨fuel, rfl⟩ : ∃ f, fuel = f + 1 :=
        ⟨fuel - 1, (Nat.sub_add_cancel hfuel).symm⟩
      obtain ⟨script, x', hP, hok', hrest, hnext⟩ := V.item hok hitems
      refine ⟨script, x', hP, hok', hrest, fun tail => ?_⟩
      rw [Source.loop, hnext]
      dsimp only
      rw [hstop]
  | cons r₁ pre ih =>
      obtain ⟨fuel, rfl⟩ : ∃ f, fuel = f + 1 :=
        ⟨fuel - 1, (Nat.sub_add_cancel (Nat.zero_lt_of_lt hfuel)).symm⟩
      cases hbody : body a r₁ with
      | error t' =>
          rw [foldlM_cons_error pre hbody] at hfold
          cases hfold
      | ok a₁ =>
          rw [foldlM_cons_ok pre hbody] at hfold
          obtain ⟨script, x₁, hP, hok₁, hrest₁, hnext⟩ := V.item hok hitems
          obtain ⟨script', x', hP', hok', hrest, hloop⟩ :=
            ih hok₁ hrest₁ hfold (Nat.lt_of_succ_lt_succ hfuel)
          refine ⟨script ++ script', x', fun b hb => ?_, hok', hrest,
            fun tail => ?_⟩
          · rcases List.mem_append.mp hb with hb | hb
            · exact hP b hb
            · exact hP' b hb
          · rw [Source.loop, List.append_assoc, hnext]
            dsimp only
            rw [hbody]
            exact hloop tail

/-- The whole of a loop, from what its body comes to. -/
theorem loop_of_fold (V : Provides next pair P Ok items) (fail : α → ε → τ)
    {fuel : Nat} {a : α} {x : χ} {t : τ} (hok : Ok x)
    (hfold : (items x).foldlM body a = .error t)
    (hfuel : (items x).length < fuel) :
    ∃ script x', (∀ a ∈ script, P a)
      ∧ Source.loop next fail body fuel a (pair x script) = some (t, x') := by
  obtain ⟨pre, r, rest, a', hitems, hpre, hstop⟩ := foldlM_error hfold
  rw [hitems, List.length_append] at hfuel
  obtain ⟨script, x', hP, -, -, hloop⟩ :=
    V.loop fail hok hitems hpre hstop
      (Nat.lt_of_le_of_lt (Nat.le_add_right ..) hfuel)
  refine ⟨script, pair x' [], hP, ?_⟩
  have hnil := hloop []
  rw [List.append_nil] at hnil
  exact hnil

/-- A search provides what it does not skip. -/
theorem find (V : Provides next pair P Ok items) (p : ρ → Bool) (fuel : Nat) :
    Provides (find p next fuel) pair P
      (fun x => Ok x ∧ (items x).length ≤ fuel)
      (fun x => (items x).filter p) where
  item {x r rest} hx hfilter := by
    obtain ⟨pre, post, hitems, hskip, hp, hpost⟩ :=
      List.filter_eq_cons_iff.mp hfilter
    have hlen := hx.2
    rw [hitems, List.length_append, List.length_cons] at hlen
    have hfew : pre.length < fuel := by omega
    have hstop : (if p r then (.error (.ok r) : Except (Except ε ρ) Unit)
        else .ok ()) = .error (.ok r) := if_pos hp
    obtain ⟨script, x', hP, hok', hrest, hloop⟩ :=
      V.loop (fun _ e => .error e) hx.1 hitems (find_skips hskip) hstop hfew
    refine ⟨script, x', hP, ⟨hok', ?_⟩, by rw [hrest, hpost], hloop⟩
    rw [hrest]
    omega

end Provides

-- =============================================================== listings

variable {σ β : Type}

/-- A body that shows `g x` of every item `f x`, and ends at `last`. -/
structure Lists (body : List β → ρ → Except τ (List β)) (f : σ → ρ)
    (g : σ → List β) (last : ρ) (ending : List β → τ) : Prop where
  shows : ∀ out x, body out (f x) = .ok (out ++ g x)
  ends : ∀ out, body out last = .error (ending out)

namespace Lists

variable {body : List β → ρ → Except τ (List β)} {f : σ → ρ} {g : σ → List β}
  {last : ρ} {ending : List β → τ}

/-- Of items without an end every one is shown. -/
theorem foldlM_map (L : Lists body f g last ending) (xs : List σ)
    (out : List β) :
    (xs.map f).foldlM body out = .ok (out ++ xs.flatMap g) := by
  induction xs generalizing out with
  | nil => rw [List.flatMap_nil, List.append_nil]; rfl
  | cons x xs ih =>
      rw [List.map_cons, foldlM_cons_ok _ (L.shows out x), ih,
        List.flatMap_cons, List.append_assoc]

/-- A listing of all items. -/
theorem whole (L : Lists body f g last ending) (xs : List σ) :
    (xs.map f ++ [last]).foldlM body [] = .error (ending (xs.flatMap g)) :=
  foldlM_stopped [] (L.foldlM_map xs []) (L.ends _)

/-- A listing that is still going on has shown a beginning. -/
theorem begun (L : Lists body f g last ending) {xs : List σ} {taken : List ρ}
    {out : List β} (htaken : taken <+: xs.map f ++ [last])
    (hfold : taken.foldlM body [] = .ok out) :
    ∃ shown, shown <+: xs ∧ out = shown.flatMap g := by
  obtain rfl | hpre := List.prefix_concat_iff.mp htaken
  · rw [L.whole] at hfold
    cases hfold
  · obtain ⟨shown, hshown, rfl⟩ := List.prefix_map_iff.mp hpre
    rw [L.foldlM_map] at hfold
    cases hfold
    exact ⟨shown, hshown, rfl⟩

end Lists

end Source
