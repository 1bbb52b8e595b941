import TechScreen.Lib.Dict
import TechScreen.Lib.Json
import TechScreen.Lib.Run

/-!
# Feature Flags

The query surface of the feature flags: a registry of declared flags, a cache
with a deadline on each entry, and a listener that drops the entry of a flag
when the database tells of a change.

A query is a coroutine, so it is cut where it waits: the cache is checked when
the query starts, the row is read some time later, and the value is stored
under a lock some time after that. The steps of any number of queries, the
commits of other programs, the listener's callbacks and the passing of time
interleave freely. A change that was committed is on its way to the listener
until the callback for it runs, or until the connection drops and it is lost.

The machine keeps one thing that the program does not: how many changes had
been committed when a row was read.

## Main definitions

* `Registry`: The declared flags.
* `Flags`: The state of the service, its queries and the database.
* `effective`: The value that a query ought to return.
* `isEnabled`, `invalidate`, `onNotify`: The operations of the service.
* `Flags.step`: The service with everything around it.
* `Move`: What each step can do.

## Theorems

* `move_of_step`: Every step is one of the moves.
* `query_of_move`, `viewed_of_move`: What a step does to a query.
* `cache_of_move`: Where an entry of the cache comes from.
* `returned_of_move`: Where a returned value comes from.
-/

namespace TechScreen.FeatureFlags

open Lib

section Declarations

/-- `_CACHE_TTL_SECONDS`, in microseconds. -/
def cacheTtl : Instant := 60 * 1000000

def isNameHead (c : Char) : Bool := 'a' ≤ c && c ≤ 'z'

def isNameTail (c : Char) : Bool := isNameHead c || c.isDigit || c == '_'

/-- A match of `^[a-z][a-z0-9_]{2,63}$`. The anchor at the end also matches before
    one last line break. -/
def isFlagName (s : String) : Bool :=
  let chars := s.toList
  match (if chars.getLast? = some '\n' then chars.dropLast else chars) with
  | [] => false
  | c :: cs => isNameHead c && cs.all isNameTail && decide (2 ≤ cs.length ∧ cs.length ≤ 63)

theorem ne_empty_of_isFlagName {s : String} (h : isFlagName s = true) : s ≠ "" := by
  intro hc
  subst hc
  exact absurd h Bool.false_ne_true

/-- What a query reads of an entry of `configs/feature-flags.yaml`. -/
structure FlagDecl where
  default : Bool
  deriving DecidableEq

/-- The declared flags. Their names have passed the schema. -/
structure Registry where
  flags : Dict String FlagDecl
  named : ∀ name decl, flags.get? name = some decl → isFlagName name = true

end Declarations

section State

/-- What has become of the notification of a change. -/
inductive Delivery where
  | waiting
  | delivered
  | lost
  deriving DecidableEq

/-- A committed change of a flag's row, in the order of the commits. -/
structure Change where
  flag : String
  delivery : Delivery
  deriving DecidableEq

/-- How far a query has got. A value that was read comes with the number of
    changes that had been committed by then. -/
inductive Stage where
  | reading
  | read (value : Bool) (snapshot : Nat)
  | locked (value : Bool) (snapshot : Nat)
  | stored (value : Bool)
  | done
  deriving DecidableEq

/-- A query that has started at the time `now`. -/
structure Query where
  name : String
  now : Instant
  stage : Stage
  deriving DecidableEq

/-- The service, its queries in the order they started, and the database. -/
structure Flags where
  clock : Instant
  rows : Dict String Bool
  changes : List Change := []
  cache : Dict String (Bool × Instant) := .empty
  cacheLock : Option Nat := none
  queries : List Query := []

/-- One step of the service or of what is around it. -/
inductive Action where
  | isEnabled (name : String)
  | read (query : Nat)
  | fail (query : Nat)
  | acquire (query : Nat)
  | store (query : Nat)
  | finish (query : Nat)
  | commit (name : String) (row : Option Bool)
  | notify (change : Nat)
  | lose (change : Nat)
  | tick (elapsed : Nat)
  deriving DecidableEq

inductive Output where
  | returned (query : Nat) (value : Bool)
  | unknownFeatureFlag (query : Nat)
  | raised (query : Nat)
  deriving DecidableEq

/-- A step that cannot be taken. -/
inductive Disabled where
  | disabled
  deriving DecidableEq

end State

section Operations
variable (reg : Registry)

/-- The row of a flag, or its declared default while it has none. -/
def effective (w : Flags) (name : String) : Bool :=
  match w.rows.get? name with
  | some enabled => enabled
  | none => ((reg.flags.get? name).map FlagDecl.default).getD false

/-- The cached value of a flag, unless its deadline has passed. -/
def cached (w : Flags) (name : String) : Option Bool :=
  match w.cache.get? name with
  | some (value, expires) => if expires > w.clock then some value else none
  | none => none

def Flags.setStage (w : Flags) (query : Nat) (stage : Stage) : Flags :=
  { w with queries := w.queries.modify query (fun q => { q with stage := stage }) }

def Flags.begin (w : Flags) (name : String) (stage : Stage) : Flags :=
  { w with queries := w.queries ++ [⟨name, w.clock, stage⟩] }

/-- `is_enabled` up to where it first waits. -/
def isEnabled (w : Flags) (name : String) : Flags × List Output :=
  match reg.flags.get? name with
  | none => (w.begin name .done, [.unknownFeatureFlag w.queries.length])
  | some _ =>
      match cached w name with
      | some value => (w.begin name .done, [.returned w.queries.length value])
      | none => (w.begin name .reading, [])

/-- `_invalidate`. -/
def invalidate (w : Flags) (name : String) : Flags := { w with cache := w.cache.erase name }

/-- `_on_notify`: a notification without a payload is passed over. -/
def onNotify (w : Flags) (payload : String) : Flags :=
  if payload = "" then w else invalidate w payload

def Flags.setDelivery (w : Flags) (change : Nat) (delivery : Delivery) : Flags :=
  { w with changes := w.changes.modify change (fun c => { c with delivery := delivery }) }

/-- A flag's row is written or deleted by another program, and the trigger on the
    table sends the notification. -/
def Flags.commit (w : Flags) (name : String) (row : Option Bool) : Flags :=
  { w with
    rows := match row with
      | some enabled => w.rows.set name enabled
      | none => w.rows.erase name
    changes := w.changes ++ [⟨name, .waiting⟩] }

def Flags.step : Step Flags Action Output Disabled := fun w action =>
  match action with
  | .isEnabled name => .ok (isEnabled reg w name)
  | .read i =>
      match w.queries[i]? with
      | some ⟨name, _, .reading⟩ =>
          .ok (w.setStage i (.read (effective reg w name) w.changes.length), [])
      | _ => .error .disabled
  | .fail i =>
      -- The connection may fail before the row is read or while it is closed.
      match w.queries[i]? with
      | some ⟨_, _, .reading⟩ | some ⟨_, _, .read _ _⟩ => .ok (w.setStage i .done, [.raised i])
      | _ => .error .disabled
  | .acquire i =>
      match w.queries[i]?, w.cacheLock with
      | some ⟨_, _, .read value snapshot⟩, none =>
          .ok ({ w.setStage i (.locked value snapshot) with cacheLock := some i }, [])
      | _, _ => .error .disabled
  | .store i =>
      match w.queries[i]? with
      | some ⟨name, now, .locked value _⟩ =>
          .ok ({ w.setStage i (.stored value) with
            cache := w.cache.set name (value, now + cacheTtl)
            cacheLock := none }, [])
      | _ => .error .disabled
  | .finish i =>
      match w.queries[i]? with
      | some ⟨_, _, .stored value⟩ => .ok (w.setStage i .done, [.returned i value])
      | _ => .error .disabled
  | .commit name row => .ok (w.commit name row, [])
  | .notify k =>
      match w.changes[k]? with
      | some ⟨flag, .waiting⟩ => .ok (onNotify (w.setDelivery k .delivered) flag, [])
      | _ => .error .disabled
  | .lose k =>
      match w.changes[k]? with
      | some ⟨_, .waiting⟩ => .ok (w.setDelivery k .lost, [])
      | _ => .error .disabled
  | .tick elapsed => .ok ({ w with clock := w.clock + elapsed }, [])

/-- A service that has just been built, over the rows of the table. -/
def built (rows : Dict String Bool) (clock : Instant) : Flags := { clock := clock, rows := rows }

end Operations

section Moves
variable {reg : Registry} {w w' : Flags} {action : Action} {out : List Output}

/-- What each step can do. -/
inductive Move (reg : Registry) (w : Flags) : Action → Flags → List Output → Prop
  | refused (name : String) (hname : reg.flags.get? name = none) :
      Move reg w (.isEnabled name) (w.begin name .done) [.unknownFeatureFlag w.queries.length]
  | hit (name : String) (decl : FlagDecl) (value : Bool) (hname : reg.flags.get? name = some decl)
      (hcached : cached w name = some value) :
      Move reg w (.isEnabled name) (w.begin name .done) [.returned w.queries.length value]
  | missed (name : String) (decl : FlagDecl) (hname : reg.flags.get? name = some decl)
      (hcached : cached w name = none) :
      Move reg w (.isEnabled name) (w.begin name .reading) []
  | read (i : Nat) (name : String) (now : Instant)
      (hquery : w.queries[i]? = some ⟨name, now, .reading⟩) :
      Move reg w (.read i) (w.setStage i (.read (effective reg w name) w.changes.length)) []
  | failed (i : Nat) (q : Query) (hquery : w.queries[i]? = some q) :
      Move reg w (.fail i) (w.setStage i .done) [.raised i]
  | acquired (i : Nat) (name : String) (now : Instant) (value : Bool) (snapshot : Nat)
      (hquery : w.queries[i]? = some ⟨name, now, .read value snapshot⟩) :
      Move reg w (.acquire i)
        { w.setStage i (.locked value snapshot) with cacheLock := some i } []
  | stored (i : Nat) (name : String) (now : Instant) (value : Bool) (snapshot : Nat)
      (hquery : w.queries[i]? = some ⟨name, now, .locked value snapshot⟩) :
      Move reg w (.store i)
        { w.setStage i (.stored value) with
          cache := w.cache.set name (value, now + cacheTtl), cacheLock := none } []
  | finished (i : Nat) (name : String) (now : Instant) (value : Bool)
      (hquery : w.queries[i]? = some ⟨name, now, .stored value⟩) :
      Move reg w (.finish i) (w.setStage i .done) [.returned i value]
  | committed (name : String) (row : Option Bool) :
      Move reg w (.commit name row) (w.commit name row) []
  | notified (k : Nat) (flag : String) (hchange : w.changes[k]? = some ⟨flag, .waiting⟩) :
      Move reg w (.notify k) (onNotify (w.setDelivery k .delivered) flag) []
  | lost (k : Nat) (flag : String) (hchange : w.changes[k]? = some ⟨flag, .waiting⟩) :
      Move reg w (.lose k) (w.setDelivery k .lost) []
  | ticked (elapsed : Nat) :
      Move reg w (.tick elapsed) { w with clock := w.clock + elapsed } []

theorem move_of_isEnabled (name : String) :
    Move reg w (.isEnabled name) (isEnabled reg w name).1 (isEnabled reg w name).2 := by
  unfold isEnabled
  cases hname : reg.flags.get? name with
  | none => exact .refused name hname
  | some decl =>
      dsimp only
      cases hcached : cached w name with
      | some value => exact .hit name decl value hname hcached
      | none => exact .missed name decl hname hcached

/-- Every step is one of the moves. -/
theorem move_of_step (h : Flags.step reg w action = .ok (w', out)) :
    Move reg w action w' out := by
  cases action with
  | isEnabled name =>
      obtain ⟨rfl, rfl⟩ := Prod.mk.inj (Except.ok.inj h)
      exact move_of_isEnabled name
  | read i =>
      simp only [Flags.step] at h
      split at h
      · next name now hquery =>
          obtain ⟨rfl, rfl⟩ := Prod.mk.inj (Except.ok.inj h)
          exact .read i name now hquery
      · cases h
  | fail i =>
      simp only [Flags.step] at h
      split at h
      · next name now hquery =>
          obtain ⟨rfl, rfl⟩ := Prod.mk.inj (Except.ok.inj h)
          exact .failed i _ hquery
      · next name now value snapshot hquery =>
          obtain ⟨rfl, rfl⟩ := Prod.mk.inj (Except.ok.inj h)
          exact .failed i _ hquery
      · cases h
  | acquire i =>
      simp only [Flags.step] at h
      split at h
      · next name now value snapshot hquery _ =>
          obtain ⟨rfl, rfl⟩ := Prod.mk.inj (Except.ok.inj h)
          exact .acquired i name now value snapshot hquery
      · cases h
  | store i =>
      simp only [Flags.step] at h
      split at h
      · next name now value snapshot hquery =>
          obtain ⟨rfl, rfl⟩ := Prod.mk.inj (Except.ok.inj h)
          exact .stored i name now value snapshot hquery
      · cases h
  | finish i =>
      simp only [Flags.step] at h
      split at h
      · next name now value hquery =>
          obtain ⟨rfl, rfl⟩ := Prod.mk.inj (Except.ok.inj h)
          exact .finished i name now value hquery
      · cases h
  | commit name row =>
      obtain ⟨rfl, rfl⟩ := Prod.mk.inj (Except.ok.inj h)
      exact .committed name row
  | notify k =>
      simp only [Flags.step] at h
      split at h
      · next flag hchange =>
          obtain ⟨rfl, rfl⟩ := Prod.mk.inj (Except.ok.inj h)
          exact .notified k flag hchange
      · cases h
  | lose k =>
      simp only [Flags.step] at h
      split at h
      · next flag hchange =>
          obtain ⟨rfl, rfl⟩ := Prod.mk.inj (Except.ok.inj h)
          exact .lost k flag hchange
      · cases h
  | tick elapsed =>
      obtain ⟨rfl, rfl⟩ := Prod.mk.inj (Except.ok.inj h)
      exact .ticked elapsed

end Moves

section Spec
variable {reg : Registry} {w w' : Flags} {action : Action} {out : List Output}

/-- The value that a query carries from the row to its caller. -/
def Stage.value? : Stage → Option Bool
  | .reading | .done => none
  | .read value _ | .locked value _ | .stored value => some value

theorem queries_setStage (i j : Nat) (stage : Stage) :
    (w.setStage i stage).queries[j]?
      = (w.queries[j]?).map (fun q => if i = j then { q with stage := stage } else q) := by
  rw [Flags.setStage, List.getElem?_modify]
  by_cases h : i = j
  · simp only [if_pos h]
    rfl
  · simp only [if_neg h]
    rfl

theorem queries_setStage_of_ne {i j : Nat} (h : i ≠ j) (stage : Stage) :
    (w.setStage i stage).queries[j]? = w.queries[j]? := by
  simp only [queries_setStage, if_neg h, Option.map_id']

theorem queries_setStage_self {i : Nat} {q : Query} (h : w.queries[i]? = some q)
    (stage : Stage) : (w.setStage i stage).queries[i]? = some { q with stage := stage } := by
  rw [queries_setStage, h, Option.map_some, if_pos rfl]

theorem queries_begin_of_lt {name : String} {stage : Stage} {j : Nat}
    (h : j < w.queries.length) : (w.begin name stage).queries[j]? = w.queries[j]? :=
  List.getElem?_append_left h

theorem queries_begin_self (name : String) (stage : Stage) :
    (w.begin name stage).queries[w.queries.length]? = some ⟨name, w.clock, stage⟩ :=
  List.getElem?_concat_length

theorem eq_length_of_begin {name : String} {stage : Stage} {j : Nat} {q : Query}
    (hlt : ¬ j < w.queries.length) (h : (w.begin name stage).queries[j]? = some q) :
    j = w.queries.length := by
  have hle := (List.getElem?_eq_some_iff.mp h).1
  have hlen : (w.begin name stage).queries.length = w.queries.length + 1 := by
    rw [Flags.begin, List.length_append, List.length_singleton]
  omega

/-- A query of the next state was there before, under its name and its time, and is
    not done if it was not; or it has just started, and is done unless its flag is
    declared. -/
theorem query_of_move (hmove : Move reg w action w' out) {j : Nat} {q' : Query}
    (hq : w'.queries[j]? = some q') :
    (∃ q, w.queries[j]? = some q ∧ q.name = q'.name ∧ q.now = q'.now ∧
        (q'.stage ≠ .done → q.stage ≠ .done)) ∨
      (j = w.queries.length ∧ q'.now = w.clock ∧
        (q'.stage ≠ .done → ∃ decl, reg.flags.get? q'.name = some decl)) := by
  -- A step that gives a query a new stage leaves its name and its time.
  have hstage : ∀ (i : Nat) (p : Query) (stage : Stage), w.queries[i]? = some p →
      (stage ≠ .done → p.stage ≠ .done) → (w.setStage i stage).queries[j]? = some q' →
      ∃ q, w.queries[j]? = some q ∧ q.name = q'.name ∧ q.now = q'.now ∧
        (q'.stage ≠ .done → q.stage ≠ .done) := by
    intro i p stage hp hdone h
    by_cases hij : i = j
    · subst hij
      rw [queries_setStage_self hp, Option.some.injEq] at h
      subst h
      exact ⟨p, hp, rfl, rfl, hdone⟩
    · rw [queries_setStage_of_ne hij] at h
      exact ⟨q', h, rfl, rfl, id⟩
  -- A query that starts goes to the end of the list.
  have hbegin : ∀ (name : String) (stage : Stage),
      (stage ≠ .done → ∃ decl, reg.flags.get? name = some decl) →
      (w.begin name stage).queries[j]? = some q' →
      (∃ q, w.queries[j]? = some q ∧ q.name = q'.name ∧ q.now = q'.now ∧
          (q'.stage ≠ .done → q.stage ≠ .done)) ∨
        (j = w.queries.length ∧ q'.now = w.clock ∧
          (q'.stage ≠ .done → ∃ decl, reg.flags.get? q'.name = some decl)) := by
    intro name stage hdeclared h
    by_cases hlt : j < w.queries.length
    · rw [queries_begin_of_lt hlt] at h
      exact Or.inl ⟨q', h, rfl, rfl, id⟩
    · obtain rfl := eq_length_of_begin hlt h
      rw [queries_begin_self, Option.some.injEq] at h
      subst h
      exact Or.inr ⟨rfl, rfl, hdeclared⟩
  have hsame : w'.queries[j]? = w.queries[j]? →
      ∃ q, w.queries[j]? = some q ∧ q.name = q'.name ∧ q.now = q'.now ∧
        (q'.stage ≠ .done → q.stage ≠ .done) :=
    fun heq => ⟨q', heq.symm.trans hq, rfl, rfl, id⟩
  cases hmove with
  | refused name hname => exact hbegin _ _ (absurd rfl) hq
  | hit name decl value hname hcached => exact hbegin _ _ (absurd rfl) hq
  | missed name decl hname hcached => exact hbegin _ _ (fun _ => ⟨decl, hname⟩) hq
  | read i name now hquery =>
      exact Or.inl (hstage i _ _ hquery (fun _ => Stage.noConfusion) hq)
  | failed i q hquery => exact Or.inl (hstage i _ _ hquery (absurd rfl) hq)
  | acquired i name now value snapshot hquery =>
      exact Or.inl (hstage i _ (.locked value snapshot) hquery (fun _ => Stage.noConfusion) hq)
  | stored i name now value snapshot hquery =>
      exact Or.inl (hstage i _ (.stored value) hquery (fun _ => Stage.noConfusion) hq)
  | finished i name now value hquery => exact Or.inl (hstage i _ _ hquery (absurd rfl) hq)
  | notified k flag hchange =>
      refine Or.inl (hsame ?_)
      unfold onNotify
      split <;> rfl
  | committed | lost | ticked => exact Or.inl (hsame rfl)

theorem length_queries_of_move (hmove : Move reg w action w' out) :
    w.queries.length ≤ w'.queries.length := by
  have hstage : ∀ (i : Nat) (stage : Stage),
      w.queries.length ≤ (w.setStage i stage).queries.length := by
    intro i stage
    rw [Flags.setStage, List.length_modify]
  have hbegin : ∀ (name : String) (stage : Stage),
      w.queries.length ≤ (w.begin name stage).queries.length := by
    intro name stage
    rw [Flags.begin, List.length_append]
    omega
  cases hmove with
  | refused | hit | missed => exact hbegin _ _
  | read | failed | acquired | stored | finished => exact hstage _ _
  | notified k flag hchange =>
      unfold onNotify
      split <;> exact Nat.le_refl _
  | committed | lost | ticked => exact Nat.le_refl _

/-- A view of the stage of a query that is handed on from one stage to the next,
    and that a query has only from its read on. -/
structure HandedOn {α : Type} (view : Stage → Option α) : Prop where
  reading : view .reading = none
  done : view .done = none
  locked : ∀ value snapshot a, view (.locked value snapshot) = some a →
    view (.read value snapshot) = some a
  stored : ∀ value snapshot a, view (.stored value) = some a →
    view (.locked value snapshot) = some a

/-- What is seen of a query was seen of it before, or the query has just read its
    row. -/
theorem viewed_of_move {α : Type} {view : Stage → Option α} (hview : HandedOn view)
    (hmove : Move reg w action w' out) {j : Nat} {q' : Query} {a : α}
    (hq : w'.queries[j]? = some q') (ha : view q'.stage = some a) :
    (∃ q, w.queries[j]? = some q ∧ q.name = q'.name ∧ q.now = q'.now ∧
        view q.stage = some a) ∨
      (action = .read j ∧ w.queries[j]? = some ⟨q'.name, q'.now, .reading⟩ ∧
        q'.stage = .read (effective reg w q'.name) w.changes.length) := by
  have hother : ∀ (i : Nat) (stage : Stage), i ≠ j →
      (w.setStage i stage).queries[j]? = some q' →
      ∃ q, w.queries[j]? = some q ∧ q.name = q'.name ∧ q.now = q'.now ∧
        view q.stage = some a := by
    intro i stage hne h
    rw [queries_setStage_of_ne hne] at h
    exact ⟨q', h, rfl, rfl, ha⟩
  -- A step that hands on what is seen from one stage to the next, or drops it.
  have hhanded : ∀ (i : Nat) (q : Query) (stage : Stage), w.queries[i]? = some q →
      (∀ b, view stage = some b → view q.stage = some b) →
      (w.setStage i stage).queries[j]? = some q' →
      ∃ q, w.queries[j]? = some q ∧ q.name = q'.name ∧ q.now = q'.now ∧
        view q.stage = some a := by
    intro i q stage hi hsame h
    by_cases hij : i = j
    · subst hij
      rw [queries_setStage_self hi, Option.some.injEq] at h
      subst h
      exact ⟨q, hi, rfl, rfl, hsame a ha⟩
    · exact hother i stage hij h
  have hbegin : ∀ (name : String) (stage : Stage), view stage = none →
      (w.begin name stage).queries[j]? = some q' →
      ∃ q, w.queries[j]? = some q ∧ q.name = q'.name ∧ q.now = q'.now ∧
        view q.stage = some a := by
    intro name stage hnone h
    by_cases hlt : j < w.queries.length
    · rw [queries_begin_of_lt hlt] at h
      exact ⟨q', h, rfl, rfl, ha⟩
    · obtain rfl := eq_length_of_begin hlt h
      rw [queries_begin_self, Option.some.injEq] at h
      subst h
      exact absurd (hnone.symm.trans ha) (by simp only [reduceCtorEq, not_false_eq_true])
  have hdropped : ∀ (q : Query) (b : α), view .done = some b → view q.stage = some b :=
    fun _ b hb => absurd (hview.done.symm.trans hb) (by simp only [reduceCtorEq,
      not_false_eq_true])
  cases hmove with
  | refused name hname => exact Or.inl (hbegin _ _ hview.done hq)
  | hit name decl value hname hcached => exact Or.inl (hbegin _ _ hview.done hq)
  | missed name decl hname hcached => exact Or.inl (hbegin _ _ hview.reading hq)
  | read i name now hquery =>
      by_cases hij : i = j
      · subst hij
        rw [queries_setStage_self hquery, Option.some.injEq] at hq
        subst hq
        exact Or.inr ⟨rfl, hquery, rfl⟩
      · exact Or.inl (hother i _ hij hq)
  | failed i q hquery => exact Or.inl (hhanded i q .done hquery (hdropped q) hq)
  | acquired i name now value snapshot hquery =>
      exact Or.inl (hhanded i _ (.locked value snapshot) hquery (hview.locked value snapshot) hq)
  | stored i name now value snapshot hquery =>
      exact Or.inl (hhanded i _ (.stored value) hquery (hview.stored value snapshot) hq)
  | finished i name now value hquery =>
      exact Or.inl (hhanded i _ .done hquery (hdropped _) hq)
  | committed name row => exact Or.inl ⟨q', hq, rfl, rfl, ha⟩
  | notified k flag hchange =>
      refine Or.inl ⟨q', ?_, rfl, rfl, ha⟩
      unfold onNotify at hq
      split at hq <;> exact hq
  | lost k flag hchange => exact Or.inl ⟨q', hq, rfl, rfl, ha⟩
  | ticked elapsed => exact Or.inl ⟨q', hq, rfl, rfl, ha⟩

theorem value_handedOn : HandedOn Stage.value? :=
  ⟨rfl, rfl, fun _ _ _ h => h, fun _ _ _ h => h⟩

/-- A query carries the value it carried before, or the one it has just read. -/
theorem carried_of_move (hmove : Move reg w action w' out) {j : Nat} {q' : Query} {value : Bool}
    (hq : w'.queries[j]? = some q') (hvalue : q'.stage.value? = some value) :
    (∃ q, w.queries[j]? = some q ∧ q.name = q'.name ∧ q.now = q'.now ∧
        q.stage.value? = some value) ∨
      (w.queries[j]? = some ⟨q'.name, q'.now, .reading⟩ ∧ value = effective reg w q'.name) := by
  rcases viewed_of_move value_handedOn hmove hq hvalue with hold | ⟨-, hreading, hstage⟩
  · exact Or.inl hold
  · rw [hstage] at hvalue
    exact Or.inr ⟨hreading, (Option.some.inj hvalue).symm⟩

/-- An entry of the cache was there before, or a query has just stored it. -/
theorem cache_of_move (hmove : Move reg w action w' out) {name : String} {value : Bool}
    {expires : Instant} (h : w'.cache.get? name = some (value, expires)) :
    w.cache.get? name = some (value, expires) ∨
      ∃ i now snapshot, action = .store i ∧
        w.queries[i]? = some ⟨name, now, .locked value snapshot⟩ ∧ expires = now + cacheTtl := by
  cases hmove with
  | stored i name' now value' snapshot hquery =>
      by_cases hname : name = name'
      · subst hname
        rw [Dict.get?_set_self, Option.some.injEq, Prod.mk.injEq] at h
        obtain ⟨rfl, rfl⟩ := h
        exact Or.inr ⟨i, now, snapshot, rfl, hquery, rfl⟩
      · rw [Dict.get?_set_of_ne _ _ _ _ hname] at h
        exact Or.inl h
  | notified k flag hchange =>
      unfold onNotify at h
      split at h
      · exact Or.inl h
      · by_cases hname : name = flag
        · rw [hname, invalidate, Dict.get?_erase_self] at h
          cases h
        · rw [invalidate, Dict.get?_erase_of_ne _ _ _ hname] at h
          exact Or.inl h
  | refused | hit | missed | read | failed | acquired | finished | committed | lost | ticked =>
      exact Or.inl h

theorem changes_setDelivery (k j : Nat) (delivery : Delivery) :
    (w.setDelivery k delivery).changes[j]?
      = (w.changes[j]?).map (fun c => if k = j then { c with delivery := delivery } else c) := by
  rw [Flags.setDelivery, List.getElem?_modify]
  by_cases h : k = j
  · simp only [if_pos h]
    rfl
  · simp only [if_neg h]
    rfl

theorem onNotify_changes (payload : String) : (onNotify w payload).changes = w.changes := by
  unfold onNotify
  split <;> rfl

theorem effective_onNotify (payload name : String) :
    effective reg (onNotify w payload) name = effective reg w name := by
  unfold onNotify
  split <;> rfl

theorem effective_commit_of_ne {name other : String} (row : Option Bool) (h : other ≠ name) :
    effective reg (w.commit name row) other = effective reg w other := by
  have hrow : (w.commit name row).rows.get? other = w.rows.get? other := by
    cases row with
    | some enabled => exact Dict.get?_set_of_ne _ _ _ _ h
    | none => exact Dict.get?_erase_of_ne _ _ _ h
  rw [effective, hrow, effective]

/-- Only a commit changes the value of a flag. -/
theorem effective_of_move (hmove : Move reg w action w' out) {name : String}
    (hkept : ∀ row, action ≠ .commit name row) : effective reg w' name = effective reg w name := by
  cases hmove with
  | committed flag row =>
      refine effective_commit_of_ne row ?_
      intro hc
      exact hkept row (by rw [hc])
  | notified k flag hchange => exact effective_onNotify flag name
  | refused | hit | missed | read | failed | acquired | stored | finished | lost | ticked => rfl

/-- Time does not run backwards. -/
theorem clock_of_move (hmove : Move reg w action w' out) : w.clock ≤ w'.clock := by
  cases hmove with
  | notified k flag hchange =>
      unfold onNotify
      split <;> exact Int.le_refl _
  | ticked elapsed => exact Int.le_add_of_nonneg_right (Int.natCast_nonneg _)
  | refused | hit | missed | read | failed | acquired | stored | finished | committed | lost =>
      exact Int.le_refl _

/-- A returned value comes out of the cache as the query starts, or is the one
    that the query has carried. -/
theorem returned_of_move (hmove : Move reg w action w' out) {i : Nat} {value : Bool}
    (h : Output.returned i value ∈ out) :
    ∃ q, w'.queries[i]? = some q ∧
      ((action = .isEnabled q.name ∧ i = w.queries.length ∧ q.now = w.clock ∧
          cached w q.name = some value) ∨
        w.queries[i]? = some ⟨q.name, q.now, .stored value⟩) := by
  cases hmove with
  | hit name decl value' hname hcached =>
      obtain ⟨rfl, rfl⟩ := Output.returned.inj (List.mem_singleton.mp h)
      exact ⟨_, queries_begin_self name .done, Or.inl ⟨rfl, rfl, rfl, hcached⟩⟩
  | finished j name now value' hquery =>
      obtain ⟨rfl, rfl⟩ := Output.returned.inj (List.mem_singleton.mp h)
      exact ⟨_, queries_setStage_self hquery .done, Or.inr hquery⟩
  | refused name hname => exact absurd (List.mem_singleton.mp h) Output.noConfusion
  | failed j q hquery => exact absurd (List.mem_singleton.mp h) Output.noConfusion
  | missed | read | acquired | stored | committed | notified | lost | ticked =>
      exact absurd h List.not_mem_nil

end Spec

end TechScreen.FeatureFlags
