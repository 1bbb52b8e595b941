import TechScreen.Services.FeatureFlags

/-!
# How Stale a Flag Can Be

Two bounds on what a query of a flag may return, over every interleaving of
queries, commits, callbacks and lost notifications.

The first one holds without any help from the listener. A deadline is counted
from the moment at which a query started, before the row was read, so an entry
that has not expired was read less than a time-to-live ago, however slow the
read was and whichever of several queries stored it.

The second one is about the listener: once the callback for a change has run,
nothing older is to be returned. It fails, because a query that has read its row
before the change may store the value after the callback has dropped the entry,
and the lock around the store does nothing against that. Where no query stores a
value that is older than a change the listener has heard of, it holds.

## Main definitions

* `visited`: The states of a run.
* `Sighted`: A value a flag has had since some instant.
* `Heard`: The last change of a flag has reached the listener.
* `Timely`: A step that stores nothing the listener has heard to be out of date.
* `Fresh`: No query returns what the listener has heard to be out of date.

## Theorems

* `staleness_bounded`: A returned value was in force within a time-to-live.
* `fresh_of_timely`: Timely stores keep the answers fresh.
* `stale_after_notify`: An untimely one does not.
-/

namespace TechScreen.FeatureFlags

open Lib

section Bounded
variable {reg : Registry} {w₀ w w' : Flags} {ts : List (Taken Flags Action Output)}
  {action : Action} {out : List Output}

/-- The states a run has gone through, the last one included. -/
def visited (w₀ : Flags) (ts : List (Taken Flags Action Output)) : List Flags :=
  w₀ :: ts.map Taken.after

theorem visited_snoc (w₀ : Flags) (ts : List (Taken Flags Action Output))
    (t : Taken Flags Action Output) : visited w₀ (ts ++ [t]) = visited w₀ ts ++ [t.after] := by
  rw [visited, visited, List.map_append, List.map_singleton, List.cons_append]

theorem mem_visited (h : Run (Flags.step reg) w₀ ts w) : w ∈ visited w₀ ts := by
  cases h with
  | nil => exact List.mem_cons_self
  | snoc us a b e o hrun hstep =>
      rw [visited_snoc]
      exact List.mem_append_right _ List.mem_cons_self

/-- At one of these states, not before the instant, the flag had the value. -/
def Sighted (reg : Registry) (seen : List Flags) (since : Instant) (name : String)
    (value : Bool) : Prop :=
  ∃ u ∈ seen, since ≤ u.clock ∧ effective reg u name = value

theorem Sighted.more {seen more : List Flags} {since : Instant} {name : String} {value : Bool}
    (h : Sighted reg seen since name value) : Sighted reg (seen ++ more) since name value := by
  obtain ⟨u, hu, hsince, hvalue⟩ := h
  exact ⟨u, List.mem_append_left _ hu, hsince, hvalue⟩

/-- Where every value the service holds comes from: an entry of the cache was in
    force not more than a time-to-live before its deadline, and a value that a
    query carries was in force since the query started. -/
structure Sourced (reg : Registry) (seen : List Flags) (w : Flags) : Prop where
  entries : ∀ name value expires, w.cache.get? name = some (value, expires) →
    Sighted reg seen (expires - cacheTtl) name value
  carried : ∀ (i : Nat) (q : Query) (value : Bool), w.queries[i]? = some q →
    q.stage.value? = some value → Sighted reg seen q.now q.name value
  started : ∀ (i : Nat) (q : Query), w.queries[i]? = some q → q.now ≤ w.clock

theorem sourced_built (reg : Registry) (rows : Dict String Bool) (clock : Instant)
    (seen : List Flags) : Sourced reg seen (built rows clock) where
  entries := fun _ _ _ h => by cases h
  carried := fun i _ _ h => by cases i <;> cases h
  started := fun i _ h => by cases i <;> cases h

/-- Each move keeps track of where its values come from. -/
theorem sourced_of_move {seen : List Flags} (hseen : w ∈ seen) (h : Sourced reg seen w)
    (hmove : Move reg w action w' out) : Sourced reg (seen ++ [w']) w' where
  entries := by
    intro name value expires hentry
    rcases cache_of_move hmove hentry with hold | ⟨i, now, snapshot, -, hquery, rfl⟩
    · exact (h.entries name value expires hold).more
    · -- The deadline is counted from before the read.
      have hcarried := h.carried i _ value hquery rfl
      rw [Int.add_sub_cancel]
      exact hcarried.more
  carried := by
    intro i q' value hquery hvalue
    rcases carried_of_move hmove hquery hvalue with ⟨q, hq, hname, hnow, hv⟩ |
      ⟨hreading, heffective⟩
    · have hcarried := h.carried i q value hq hv
      rw [hname, hnow] at hcarried
      exact hcarried.more
    · exact ⟨w, List.mem_append_left _ hseen, h.started i ⟨q'.name, q'.now, .reading⟩ hreading,
        heffective.symm⟩
  started := by
    intro i q' hquery
    have hclock := clock_of_move hmove
    rcases query_of_move hmove hquery with ⟨q, hq, -, hnow, -⟩ | ⟨-, hnow, -⟩
    · rw [← hnow]
      exact Int.le_trans (h.started i q hq) hclock
    · rw [hnow]
      exact hclock

theorem sourced_of_run {rows : Dict String Bool} {clock : Instant}
    (h : Run (Flags.step reg) (built rows clock) ts w) :
    Sourced reg (visited (built rows clock) ts) w := by
  induction h with
  | nil => exact sourced_built reg rows clock _
  | snoc us a b e o hrun hstep ih =>
      rw [visited_snoc]
      exact sourced_of_move (mem_visited hrun) ih (move_of_step hstep)

/-- A state of a run is not later than the state the run has reached. -/
theorem clock_of_visited (h : Run (Flags.step reg) w₀ ts w) :
    ∀ u ∈ visited w₀ ts, u.clock ≤ w.clock := by
  induction h with
  | nil =>
      intro u hu
      obtain rfl := List.mem_singleton.mp hu
      exact Int.le_refl _
  | snoc us a b e o hrun hstep ih =>
      intro u hu
      rw [visited_snoc, List.mem_append, List.mem_singleton] at hu
      rcases hu with hu | rfl
      · exact Int.le_trans (ih u hu) (clock_of_move (move_of_step hstep))
      · exact Int.le_refl _

/-- A value that a query returns was the flag's value at some instant of the run,
    not more than a time-to-live before the query started and not after it
    returned. -/
theorem staleness_bounded (reg : Registry) (rows : Dict String Bool) (clock : Instant)
    (ts : List (Taken Flags Action Output)) (w : Flags)
    (hrun : Run (Flags.step reg) (built rows clock) ts w)
    (us vs : List (Taken Flags Action Output)) (t : Taken Flags Action Output)
    (hts : ts = us ++ t :: vs) (i : Nat) (value : Bool) (hout : .returned i value ∈ t.out) :
    ∃ q, t.after.queries[i]? = some q ∧
      ∃ u ∈ visited (built rows clock) us, q.now - cacheTtl ≤ u.clock ∧
        u.clock ≤ t.after.clock ∧ effective reg u q.name = value := by
  obtain ⟨hbefore, hstep⟩ := hrun.split us t vs hts
  have hmove := move_of_step hstep
  have hsourced := sourced_of_run hbefore
  have hsighted : ∃ q, t.after.queries[i]? = some q ∧
      Sighted reg (visited (built rows clock) us) (q.now - cacheTtl) q.name value := by
    obtain ⟨q, hq, hfrom⟩ := returned_of_move hmove hout
    refine ⟨q, hq, ?_⟩
    rcases hfrom with ⟨-, -, hnow, hcached⟩ | hstored
    · -- Out of the cache: the deadline has not passed.
      unfold cached at hcached
      cases hentry : t.before.cache.get? q.name with
      | none =>
          rw [hentry] at hcached
          cases hcached
      | some entry =>
          rcases entry with ⟨held, expires⟩
          rw [hentry] at hcached
          dsimp only at hcached
          split at hcached
          · next hfuture =>
              obtain rfl := Option.some.inj hcached
              obtain ⟨u, hu, hsince, hvalue⟩ := hsourced.entries q.name held expires hentry
              have hlate : q.now ≤ expires := hnow ▸ Int.le_of_lt hfuture
              exact ⟨u, hu, Int.le_trans (Int.sub_le_sub_right hlate _) hsince, hvalue⟩
          · cases hcached
    · -- Carried from the row: it was read after the query started.
      obtain ⟨u, hu, hsince, hvalue⟩ := hsourced.carried i _ value hstored rfl
      have hpos : (0 : Int) ≤ cacheTtl := by decide
      exact ⟨u, hu, Int.le_trans (Int.sub_le_self _ hpos) hsince, hvalue⟩
  obtain ⟨q, hq, u, hu, hsince, hvalue⟩ := hsighted
  exact ⟨q, hq, u, hu, hsince,
    Int.le_trans (clock_of_visited hbefore u hu) (clock_of_move hmove), hvalue⟩

end Bounded

section Invalidated
variable {reg : Registry} {w₀ w w' : Flags} {ts : List (Taken Flags Action Output)}
  {action : Action} {out : List Output}

/-- The callback for the last change of the flag has run. -/
def Heard (w : Flags) (name : String) : Prop :=
  ∃ k : Nat, w.changes[k]? = some ⟨name, .delivered⟩ ∧
    ∀ (j : Nat) (c : Change), k < j → w.changes[j]? = some c → c.flag ≠ name

/-- What a query has read, and how many changes had been committed by then, while
    it has not stored it. -/
def Stage.unstored? : Stage → Option (Bool × Nat)
  | .read value snapshot | .locked value snapshot => some (value, snapshot)
  | .reading | .stored _ | .done => none

/-- A step that stores no value which was read before a change of its flag whose
    callback has already run. -/
def Timely (t : Taken Flags Action Output) : Prop :=
  ∀ (i : Nat) (name : String) (now : Instant) (value : Bool) (snapshot : Nat),
    t.event = .store i → t.before.queries[i]? = some ⟨name, now, .locked value snapshot⟩ →
    ∀ k : Nat, t.before.changes[k]? = some ⟨name, .delivered⟩ → k < snapshot

/-- The same, computed. -/
def timelyCheck (t : Taken Flags Action Output) : Bool :=
  match t.event with
  | .store i =>
      match t.before.queries[i]? with
      | some ⟨name, _, .locked _ snapshot⟩ =>
          (List.range t.before.changes.length).all (fun k =>
            t.before.changes[k]? != some ⟨name, .delivered⟩ || decide (k < snapshot))
      | _ => true
  | _ => true

theorem timely_of_check {t : Taken Flags Action Output} (h : timelyCheck t = true) :
    Timely t := by
  intro i name now value snapshot hevent hquery k hk
  unfold timelyCheck at h
  rw [hevent] at h
  dsimp only at h
  rw [hquery] at h
  have hlt := (List.getElem?_eq_some_iff.mp hk).1
  have hone := List.all_eq_true.mp h k (List.mem_range.mpr hlt)
  simpa only [hk, bne_self_eq_false, Bool.false_or, decide_eq_true_eq] using hone

/-- A query that starts after the callback for the last change of its flag returns
    the value the flag has, as long as the flag is not changed again. -/
def Fresh (reg : Registry) (ts : List (Taken Flags Action Output)) (w : Flags) : Prop :=
  ∀ (us vs : List (Taken Flags Action Output)) (t : Taken Flags Action Output) (name : String)
    (value : Bool), ts = us ++ t :: vs → t.event = .isEnabled name → Heard t.before name →
    (∀ r ∈ vs, ∀ row, r.event ≠ .commit name row) →
    .returned t.before.queries.length value ∈ outputs (t :: vs) → value = effective reg w name

/-- What the service holds of a flag whose last change it has heard of is the
    flag's value, and a value that was read after the last change is, too. -/
structure Heeded (reg : Registry) (w : Flags) : Prop where
  entries : ∀ name value expires, w.cache.get? name = some (value, expires) → Heard w name →
    value = effective reg w name
  unstored : ∀ (i : Nat) (q : Query) (value : Bool) (snapshot : Nat), w.queries[i]? = some q →
    q.stage.unstored? = some (value, snapshot) → snapshot ≤ w.changes.length ∧
      ((∀ (k : Nat) (c : Change), snapshot ≤ k → w.changes[k]? = some c → c.flag ≠ q.name) →
        value = effective reg w q.name)
  named : ∀ name entry, w.cache.get? name = some entry → name ≠ ""
  asked : ∀ (i : Nat) (q : Query), w.queries[i]? = some q → q.stage ≠ .done → q.name ≠ ""

theorem unstored_handedOn : HandedOn Stage.unstored? :=
  ⟨rfl, rfl, fun _ _ _ h => h, fun _ _ _ h => by cases h⟩

theorem heeded_built (reg : Registry) (rows : Dict String Bool) (clock : Instant) :
    Heeded reg (built rows clock) where
  entries := fun _ _ _ h => by cases h
  unstored := fun i _ _ _ h => by cases i <;> cases h
  named := fun _ _ h => by cases h
  asked := fun i _ h => by cases i <;> cases h

/-- A change is heard of in the next state only if it was in this one, unless its
    callback has just run; a change that was committed has not been heard of. -/
theorem heard_of_move (hmove : Move reg w action w' out) {name : String} (h : Heard w' name) :
    (Heard w name ∧ ∀ row, action ≠ .commit name row) ∨
      (∃ k : Nat, action = .notify k ∧ w.changes[k]? = some ⟨name, .waiting⟩) := by
  obtain ⟨k, hk, hlast⟩ := h
  -- A notification changes how one change has been delivered.
  have hdelivery : ∀ (m : Nat) (delivery : Delivery),
      (w.setDelivery m delivery).changes[k]? = some ⟨name, .delivered⟩ →
      (∀ (j : Nat) (c : Change), k < j → (w.setDelivery m delivery).changes[j]? = some c →
        c.flag ≠ name) →
      (m ≠ k ∨ delivery ≠ .delivered) → Heard w name := by
    intro m delivery hm hl hor
    rw [changes_setDelivery, Option.map_eq_some_iff] at hm
    obtain ⟨c, hc, heq⟩ := hm
    have hne : m ≠ k := by
      rintro rfl
      rw [if_pos rfl] at heq
      rcases hor with hor | hor
      · exact hor rfl
      · exact hor (congrArg Change.delivery heq)
    rw [if_neg hne] at heq
    refine ⟨k, heq ▸ hc, ?_⟩
    intro j c' hj hc'
    have hflag := hl j (if m = j then { c' with delivery := delivery } else c') hj
      (by rw [changes_setDelivery, hc', Option.map_some])
    split at hflag <;> exact hflag
  cases hmove with
  | committed flag row =>
      -- The new change is the last of its flag, and waits.
      have hnew : (w.commit flag row).changes[w.changes.length]? = some ⟨flag, .waiting⟩ :=
        List.getElem?_concat_length
      have hlt : k < w.changes.length := by
        have hle := (List.getElem?_eq_some_iff.mp hk).1
        have hlen : (w.commit flag row).changes.length = w.changes.length + 1 :=
          List.length_append
        rcases Nat.lt_or_ge k w.changes.length with hlt | hge
        · exact hlt
        · obtain rfl : k = w.changes.length := by omega
          rw [hnew] at hk
          cases hk
      have hold : ∀ j, j < w.changes.length → (w.commit flag row).changes[j]? = w.changes[j]? :=
        fun j hj => List.getElem?_append_left hj
      have hne : flag ≠ name :=
        hlast w.changes.length ⟨flag, .waiting⟩ hlt hnew
      refine Or.inl ⟨⟨k, (hold k hlt) ▸ hk, ?_⟩, ?_⟩
      · intro j c hj hc
        have hjlt := (List.getElem?_eq_some_iff.mp hc).1
        exact hlast j c hj ((hold j hjlt).trans hc)
      · intro row' hc
        exact hne (Action.commit.inj hc).1
  | notified m flag hchange =>
      rw [onNotify_changes] at hk
      simp only [onNotify_changes] at hlast
      by_cases hmk : m = k
      · subst hmk
        rw [changes_setDelivery, hchange, Option.map_some, if_pos rfl, Option.some.injEq,
          Change.mk.injEq] at hk
        exact Or.inr ⟨m, rfl, hk.1 ▸ hchange⟩
      · exact Or.inl ⟨hdelivery m .delivered hk hlast (Or.inl hmk), fun _ => Action.noConfusion⟩
  | lost m flag hchange =>
      exact Or.inl ⟨hdelivery m .lost hk hlast (Or.inr Delivery.noConfusion),
        fun _ => Action.noConfusion⟩
  | refused | hit | missed | read | failed | acquired | stored | finished | ticked =>
      exact Or.inl ⟨⟨k, hk, hlast⟩, fun _ => Action.noConfusion⟩

/-- The log of the changes keeps its flags and only grows. -/
theorem change_of_move (hmove : Move reg w action w' out) {k : Nat} {c : Change}
    (h : w.changes[k]? = some c) : ∃ c', w'.changes[k]? = some c' ∧ c'.flag = c.flag := by
  have hdelivery : ∀ (m : Nat) (delivery : Delivery),
      ∃ c', (w.setDelivery m delivery).changes[k]? = some c' ∧ c'.flag = c.flag := by
    intro m delivery
    refine ⟨if m = k then { c with delivery := delivery } else c, ?_, ?_⟩
    · rw [changes_setDelivery, h, Option.map_some]
    · split <;> rfl
  cases hmove with
  | committed flag row =>
      exact ⟨c, (List.getElem?_append_left (List.getElem?_eq_some_iff.mp h).1).trans h, rfl⟩
  | notified m flag hchange =>
      rw [onNotify_changes]
      exact hdelivery m .delivered
  | lost m flag hchange => exact hdelivery m .lost
  | refused | hit | missed | read | failed | acquired | stored | finished | ticked =>
      exact ⟨c, h, rfl⟩

theorem length_changes_of_move (hmove : Move reg w action w' out) :
    w.changes.length ≤ w'.changes.length := by
  by_contra hshort
  -- The first position that is new to neither list has a change in the one only.
  have hlt : w'.changes.length < w.changes.length := by
    omega
  obtain ⟨c', hc', -⟩ := change_of_move hmove (List.getElem?_eq_getElem hlt)
  exact absurd (List.getElem?_eq_some_iff.mp hc').1 (lt_irrefl _)

/-- A step that stores nothing out of date keeps what the service holds true to
    what it has heard of. -/
theorem heeded_of_move (h : Heeded reg w) (hmove : Move reg w action w' out)
    (htimely : Timely ⟨w, action, w', out⟩) : Heeded reg w' where
  entries := by
    intro name value expires hentry hheard
    rcases heard_of_move hmove hheard with ⟨hold, hkept⟩ | ⟨k, rfl, hchange⟩
    · rw [effective_of_move hmove hkept]
      rcases cache_of_move hmove hentry with hcached | ⟨i, now, snapshot, rfl, hquery, -⟩
      · exact h.entries name value expires hcached hold
      · -- The value was read after the last change that was heard of.
        obtain ⟨k, hk, hlast⟩ := hold
        have hlt := htimely i name now value snapshot rfl hquery k hk
        refine (h.unstored i _ value snapshot hquery rfl).2 ?_
        intro j c hj hc
        exact hlast j c (by omega) hc
    · -- The callback has just dropped the entry.
      cases hmove with
      | notified m flag hwaiting =>
          obtain rfl : flag = name := congrArg Change.flag
            (Option.some.inj (hwaiting.symm.trans hchange))
          unfold onNotify at hentry
          split at hentry
          · next hempty => exact absurd hempty (h.named flag _ hentry)
          · rw [invalidate, Dict.get?_erase_self] at hentry
            cases hentry
  unstored := by
    intro i q' value snapshot hquery hstage
    rcases viewed_of_move unstored_handedOn hmove hquery hstage with
      ⟨q, hq, hname, -, hold⟩ | ⟨rfl, hreading, hread⟩
    · obtain ⟨hle, hvalue⟩ := h.unstored i q value snapshot hq hold
      refine ⟨hle.trans (length_changes_of_move hmove), ?_⟩
      intro hnone
      have hbefore : ∀ (k : Nat) (c : Change), snapshot ≤ k → w.changes[k]? = some c →
          c.flag ≠ q.name := by
        intro k c hk hc
        obtain ⟨c', hc', hflag⟩ := change_of_move hmove hc
        rw [hname, ← hflag]
        exact hnone k c' hk hc'
      -- A change since the read would be of another flag.
      have hkept : ∀ row, action ≠ .commit q'.name row := by
        rintro row rfl
        cases hmove with
        | committed flag row =>
            exact hnone w.changes.length ⟨q'.name, .waiting⟩ hle List.getElem?_concat_length rfl
      rw [effective_of_move hmove hkept, ← hname]
      exact hvalue hbefore
    · rw [hread] at hstage
      obtain ⟨rfl, rfl⟩ := Prod.mk.inj (Option.some.inj hstage)
      refine ⟨length_changes_of_move hmove, fun _ => ?_⟩
      exact (effective_of_move hmove (fun _ => Action.noConfusion)).symm
  named := by
    intro name entry hentry
    rcases entry with ⟨value, expires⟩
    rcases cache_of_move hmove hentry with hcached | ⟨i, now, snapshot, -, hquery, -⟩
    · exact h.named name _ hcached
    · exact h.asked i _ hquery Stage.noConfusion
  asked := by
    intro i q' hquery hstage
    rcases query_of_move hmove hquery with ⟨q, hq, hname, -, hdone⟩ | ⟨-, -, hdeclared⟩
    · exact hname ▸ h.asked i q hq (hdone hstage)
    · obtain ⟨decl, hdecl⟩ := hdeclared hstage
      exact ne_empty_of_isFlagName (reg.named _ decl hdecl)

theorem heeded_of_run {rows : Dict String Bool} {clock : Instant}
    (h : Run (Flags.step reg) (built rows clock) ts w) (htimely : ∀ t ∈ ts, Timely t) :
    Heeded reg w := by
  induction h with
  | nil => exact heeded_built reg rows clock
  | snoc us a b e o hrun hstep ih =>
      have hbefore := ih (fun t ht => htimely t (List.mem_append_left _ ht))
      exact heeded_of_move hbefore (move_of_step hstep)
        (htimely _ (List.mem_append_right _ List.mem_cons_self))

/-- The query asks for the flag, and carries the flag's value if it carries one. -/
def Tracks (reg : Registry) (i : Nat) (name : String) (w : Flags) : Prop :=
  ∃ q, w.queries[i]? = some q ∧ q.name = name ∧
    ∀ value, q.stage.value? = some value → value = effective reg w name

/-- A query that carries the flag's value goes on doing so until the flag is
    changed. -/
theorem tracks_of_move {i : Nat} {name : String} (h : Tracks reg i name w)
    (hmove : Move reg w action w' out) (hkept : ∀ row, action ≠ .commit name row) :
    Tracks reg i name w' := by
  obtain ⟨q, hq, hname, hvalue⟩ := h
  have heffective := effective_of_move hmove hkept
  -- The query is still there, under its name.
  obtain ⟨q', hq', hname'⟩ : ∃ q', w'.queries[i]? = some q' ∧ q'.name = name := by
    have hlt := (List.getElem?_eq_some_iff.mp hq).1
    have hlt' : i < w'.queries.length := Nat.lt_of_lt_of_le hlt (length_queries_of_move hmove)
    refine ⟨w'.queries[i], List.getElem?_eq_getElem hlt', ?_⟩
    rcases query_of_move hmove (List.getElem?_eq_getElem hlt') with ⟨p, hp, hpname, -⟩ | ⟨hnew, -⟩
    · rw [← hpname, ← hname, Option.some.inj (hp.symm.trans hq)]
    · omega
  refine ⟨q', hq', hname', ?_⟩
  intro value hv
  rcases carried_of_move hmove hq' hv with ⟨p, hp, hpname, -, hpv⟩ | ⟨-, heq⟩
  · obtain rfl := Option.some.inj (hp.symm.trans hq)
    rw [heffective]
    exact hvalue value hpv
  · rw [heq, hname', heffective]

/-- As long as every store is timely, a query that starts after the callback for
    the last change of its flag returns the flag's value. -/
theorem fresh_of_timely (reg : Registry) (rows : Dict String Bool) (clock : Instant)
    (ts : List (Taken Flags Action Output)) (w : Flags)
    (hrun : Run (Flags.step reg) (built rows clock) ts w) (htimely : ∀ t ∈ ts, Timely t) :
    Fresh reg ts w := by
  intro us vs t name value hts hevent hheard hkept hout
  obtain ⟨hbefore, hstep⟩ := hrun.split us t vs hts
  have hrest := hrun.rest us t vs hts
  have hheeded := heeded_of_run hbefore
    (fun r hr => htimely r (hts ▸ List.mem_append_left _ hr))
  have hmove := move_of_step hstep
  rw [hevent] at hmove
  -- The query starts out with nothing, or returns the flag's value at once.
  have hstart : Tracks reg t.before.queries.length name t.after ∧
      ∀ v, .returned t.before.queries.length v ∈ t.out → v = effective reg t.after name := by
    have heffective : effective reg t.after name = effective reg t.before name :=
      effective_of_move hmove (fun _ => Action.noConfusion)
    refine ⟨?_, ?_⟩
    · clear heffective
      generalize t.after = after at hmove ⊢
      generalize t.out = o at hmove
      cases hmove with
      | refused | hit | missed =>
          exact ⟨_, queries_begin_self name _, rfl, fun v hv => by cases hv⟩
    · intro v hv
      obtain ⟨q, hq, ⟨haction, -, -, hcached⟩ | hstored⟩ := returned_of_move hmove hv
      · obtain rfl := Action.isEnabled.inj haction
        rw [heffective]
        unfold cached at hcached
        cases hentry : t.before.cache.get? q.name with
        | none =>
            rw [hentry] at hcached
            cases hcached
        | some entry =>
            rcases entry with ⟨held, expires⟩
            rw [hentry] at hcached
            dsimp only at hcached
            split at hcached
            · obtain rfl := Option.some.inj hcached
              exact hheeded.entries _ held expires hentry hheard
            · cases hcached
      · exact absurd (List.getElem?_eq_some_iff.mp hstored).1 (Nat.lt_irrefl _)
  -- From there on the flag is not changed, and the query tracks it.
  have hafter : ∀ (xs : List (Taken Flags Action Output)) (x : Flags),
      Run (Flags.step reg) t.after xs x → (∀ r ∈ xs, ∀ row, r.event ≠ .commit name row) →
      Tracks reg t.before.queries.length name x ∧
        effective reg x name = effective reg t.after name ∧
        ∀ v, .returned t.before.queries.length v ∈ outputs xs →
          v = effective reg t.after name := by
    intro xs x hxs
    induction hxs with
    | nil => exact fun _ => ⟨hstart.1, rfl, fun v hv => absurd hv List.not_mem_nil⟩
    | snoc ys a b e o hys hab ih =>
        intro hnone
        obtain ⟨htracks, heffective, houts⟩ :=
          ih (fun r hr => hnone r (List.mem_append_left _ hr))
        have hab' := move_of_step hab
        have hlast : ∀ row, e ≠ .commit name row :=
          hnone ⟨a, e, b, o⟩ (List.mem_append_right _ List.mem_cons_self)
        refine ⟨tracks_of_move htracks hab' hlast,
          (effective_of_move hab' hlast).trans heffective, ?_⟩
        intro v hv
        rw [outputs_snoc, List.mem_append] at hv
        rcases hv with hv | hv
        · exact houts v hv
        · obtain ⟨p, hp, hpname, hpv⟩ := htracks
          obtain ⟨q, hq, ⟨-, hnew, -, -⟩ | hstored⟩ := returned_of_move hab' hv
          · have hlt := (List.getElem?_eq_some_iff.mp hp).1
            omega
          · rw [hp, Option.some.injEq] at hstored
            rw [← heffective]
            exact hpv v (by rw [hstored]; rfl)
  obtain ⟨-, heffective, houts⟩ := hafter vs w hrest hkept
  rw [heffective]
  rcases List.mem_append.mp (show _ ∈ t.out ++ outputs vs from hout) with hout | hout
  · exact hstart.2 value hout
  · exact houts value hout

end Invalidated

section SmallRegistry

theorem smallFlags_named (name : String) (decl : FlagDecl)
    (h : (Dict.ofList [("beta", FlagDecl.mk false)]).get? name = some decl) :
    isFlagName name = true := by
  rw [Dict.get?_eq_some_iff] at h
  obtain ⟨rfl, -⟩ := Prod.mk.inj (List.mem_singleton.mp h)
  decide

/-- One declared flag, off by default. -/
def smallRegistry : Registry := ⟨Dict.ofList [("beta", ⟨false⟩)], smallFlags_named⟩

/-- The flag is on, is read as on, and is switched off before the value is
    stored: the callback finds nothing to drop. -/
def lateStore : List Action :=
  [.isEnabled "beta", .read 0, .commit "beta" (some false), .notify 0, .acquire 0, .store 0,
    .finish 0, .isEnabled "beta"]

/-- The same, with the value stored before the flag is switched off. -/
def promptStore : List Action :=
  [.isEnabled "beta", .read 0, .acquire 0, .store 0, .finish 0, .commit "beta" (some false),
    .notify 0, .isEnabled "beta", .read 1, .acquire 1, .store 1, .finish 1]

abbrev smallService : Flags := built (Dict.ofList [("beta", true)]) 0

/-- The late store is a run in which the second query gets the value from before
    the change, though the callback for the change has run. -/
theorem exists_late_store : ∃ ts w w', Run (Flags.step smallRegistry) smallService ts w ∧
    Flags.step smallRegistry w (.isEnabled "beta") = .ok (w', [.returned 1 true]) ∧
    w.queries.length = 1 ∧ Heard w "beta" ∧ effective smallRegistry w' "beta" = false := by
  have hrec : (record (Flags.step smallRegistry) smallService (lateStore.take 7)).map (fun r =>
      (decide (r.2.changes = [⟨"beta", .delivered⟩]), r.2.queries.length,
        (Flags.step smallRegistry r.2 (.isEnabled "beta")).map (fun p =>
          (p.2, effective smallRegistry p.1 "beta"))))
      = .ok (true, 1, .ok ([.returned 1 true], false)) := by
    decide +kernel
  obtain ⟨ts, w, hrun, hproj⟩ := exists_run_of_record _ _ _ _ _ hrec
  simp only [Prod.mk.injEq, decide_eq_true_eq] at hproj
  obtain ⟨hchanges, hlength, hlast⟩ := hproj
  cases hstep : Flags.step smallRegistry w (.isEnabled "beta") with
  | error x =>
      rw [hstep] at hlast
      cases hlast
  | ok p =>
      rcases p with ⟨w', out⟩
      rw [hstep] at hlast
      simp only [Except.map, Except.ok.injEq, Prod.mk.injEq] at hlast
      obtain ⟨rfl, hoff⟩ := hlast
      refine ⟨ts, w, w', hrun, hstep, hlength, ⟨0, ?_, ?_⟩, hoff⟩
      · rw [hchanges]
        rfl
      · intro j c hj hc
        have hlt := (List.getElem?_eq_some_iff.mp hc).1
        rw [hchanges, List.length_singleton] at hlt
        omega

theorem stale_after_notify : ∃ ts w, Run (Flags.step smallRegistry) smallService ts w ∧
    ¬ Fresh smallRegistry ts w := by
  obtain ⟨ts, w, w', hrun, hstep, hlength, hheard, hoff⟩ := exists_late_store
  refine ⟨_, w', Run.snoc ts w w' _ _ hrun hstep, ?_⟩
  intro hfresh
  have hvalue := hfresh ts [] ⟨w, .isEnabled "beta", w', [.returned 1 true]⟩ "beta" true rfl rfl
    hheard (fun r hr => absurd hr List.not_mem_nil)
    (by rw [hlength]; exact List.mem_cons_self)
  rw [hoff] at hvalue
  cases hvalue

/-- The value it gets was in force when the query started a minute ago at most. -/
theorem staleness_bounded_small : ∃ ts w us t,
    Run (Flags.step smallRegistry) smallService ts w ∧ ts = us ++ [t] ∧
    t.out = [.returned 1 true] ∧ effective smallRegistry w "beta" = false ∧
    ∃ q, t.after.queries[1]? = some q ∧
      ∃ u ∈ visited smallService us, q.now - cacheTtl ≤ u.clock ∧
        u.clock ≤ t.after.clock ∧ effective smallRegistry u q.name = true := by
  obtain ⟨ts, w, w', hrun, hstep, -, -, hoff⟩ := exists_late_store
  have hlast := Run.snoc ts w w' _ _ hrun hstep
  exact ⟨_, w', ts, _, hlast, rfl, rfl, hoff,
    staleness_bounded smallRegistry _ 0 _ w' hlast ts [] _ rfl 1 true List.mem_cons_self⟩

theorem fresh_of_timely_small : ∃ ts w, Run (Flags.step smallRegistry) smallService ts w ∧
    outputs ts = [.returned 0 true, .returned 1 false] ∧ Fresh smallRegistry ts w := by
  have hrec : (record (Flags.step smallRegistry) smallService promptStore).map (fun r =>
      (outputs r.1, r.1.all timelyCheck))
      = .ok ([.returned 0 true, .returned 1 false], true) := by decide +kernel
  obtain ⟨ts, w, hrun, hproj⟩ := exists_run_of_record _ _ _ _ _ hrec
  obtain ⟨houts, htimely⟩ := Prod.mk.inj hproj
  refine ⟨ts, w, hrun, houts, fresh_of_timely smallRegistry _ 0 ts w hrun ?_⟩
  intro t ht
  exact timely_of_check (List.all_eq_true.mp htimely t ht)

end SmallRegistry

end TechScreen.FeatureFlags
