import TechScreen.Lib.ReadCommitted
import TechScreen.Services.TemplateConsistency

/-!
# Concurrent Updates of a Template

Two updates of one template at the same time, each in a transaction at READ
COMMITTED. An update reads the row, the stacks and the competencies in three
statements; it is merged with what it has read and checked; then it writes the
columns that are to change, and deletes and inserts the rows of the selections
that its fields name. Nothing that it has read is locked.

Two updates that both get through need not leave what they would leave one after
the other. They do when, at each commit, the update would get through once more
on the rows committed by then and would write the same columns, and when no
`DELETE` has to wait for the other update.

## Main definitions

* `Session`, `Duo`, `duoStep`: The transactions and their statements.
* `Contents`: The tables, without the identifiers of association rows.
* `Serialisable`: The tables are what one of the two orders leaves.
* `Undisturbed`: The condition on a step.

## Theorems

* `tracked_step`: The committed tables are those of the updates in the order of
  their commits.
* `serialisable_of_undisturbed`: Undisturbed updates are serialisable.
* `skew_not_serialisable`: Others are not.
-/

namespace TechScreen.Positions

open Lib Lib.ReadCommitted Rubric

section Sessions
variable (kit : IdKit)

/-- What a transaction has gathered and done. `seen` is the row as it was read. -/
structure Work where
  seen : TemplateRow
  resulting : CreateFields
  rowWritten : Bool := false
  stackRows : Option (Change TemplateStackRow) := none
  competencyRows : Option (Change TemplateCompetencyRow) := none

/-- The statements of an update after its checks. A `DELETE` that waits keeps the
    rows that it saw. -/
inductive Statement where
  | updateRow
  | deleteStacks
  | awaitStacks (snapshot : List TemplateStackRow)
  | insertStacks
  | deleteCompetencies
  | awaitCompetencies (snapshot : List TemplateCompetencyRow)
  | insertCompetencies
  | commit

inductive Session where
  | start
  | gotTemplate (tmpl : TemplateRow)
  | gotStacks (tmpl : TemplateRow) (stackIds : List RowId)
  | selected (tmpl : TemplateRow) (cur : Selection)
  | writing (next : Statement) (work : Work)
  | committed
  | failed

/-- What an open transaction has done. -/
def Session.work? : Session → Option Work
  | writing _ work => some work
  | _ => none

def Session.stackRows (x : Session) : Option (Change TemplateStackRow) :=
  x.work?.bind Work.stackRows

def Session.competencyRows (x : Session) : Option (Change TemplateCompetencyRow) :=
  x.work?.bind Work.competencyRows

/-- The columns that differ from the row that was read, set in a row. -/
def Work.columns (work : Work) (r : TemplateRow) : TemplateRow :=
  { r with
    title := if work.resulting.title = work.seen.title then r.title else work.resulting.title
    level := if work.resulting.level = work.seen.level then r.level else work.resulting.level
    jdText := if work.resulting.jdText = work.seen.jdText then r.jdText
      else work.resulting.jdText }

/-- There is a column to write. -/
def Work.changesRow (work : Work) : Bool :=
  work.resulting.title ≠ work.seen.title || work.resulting.level ≠ work.seen.level ||
    work.resulting.jdText ≠ work.seen.jdText

structure Update where
  patch : PositionTemplateUpdate kit
  now : Instant

variable {kit}

/-- The statement after those on the stacks. -/
def Update.afterStacks (x : Update kit) : Statement :=
  if x.patch.val.competencyIds.value?.isSome then .deleteCompetencies else .commit

/-- The statement after that on the row. -/
def Update.afterRow (x : Update kit) : Statement :=
  if x.patch.val.stackIds.value?.isSome then .deleteStacks else x.afterStacks

end Sessions

section Steps
variable {kit : IdKit} (id : RowId) (updates : Bool → Update kit)

/-- The committed tables and the two sessions. -/
structure Duo where
  store : Store
  sessions : Bool → Session

def Duo.set (s : Duo) (w : Bool) (x : Session) : Duo :=
  { s with sessions := Function.update s.sessions w x }

/-- New rows of the association tables, with identifiers from `nextId` on. -/
def newStackRows (now : Instant) : RowId → List RowId → List TemplateStackRow
  | _, [] => []
  | nextId, stackId :: rest => ⟨nextId, now, id, stackId⟩ :: newStackRows now (nextId + 1) rest

def newCompetencyRows (now : Instant) (must : List RowId) :
    RowId → List RowId → List TemplateCompetencyRow
  | _, [] => []
  | nextId, c :: rest =>
      ⟨nextId, now, id, c, must.contains c⟩ :: newCompetencyRows now must (nextId + 1) rest

/-- The tables with what a transaction has done. -/
def Store.commit (s : Store) (work : Work) : Store :=
  { s with
    positionTemplate := s.positionTemplate.map (fun r => if r.id = id then work.columns r else r)
    positionTemplateStack := Change.apply work.stackRows s.positionTemplateStack
    positionTemplateCompetency := Change.apply work.competencyRows s.positionTemplateCompetency }

/-- The statement of a session that writes. A statement that waits does not
    return. -/
def writeStep (s : Duo) (w : Bool) (work : Work) : Statement → Option Duo
  | .updateRow =>
      if !(updates w).patch.val.storable then some (s.set w .failed)
      else if work.changesRow && (s.sessions (!w)).work?.any Work.rowWritten then none
      else
        some (s.set w (.writing (updates w).afterRow { work with rowWritten := work.changesRow }))
  | .deleteStacks =>
      match startDelete s.store.positionTemplateStack (fun r => r.positionTemplateId = id)
          (s.sessions (!w)).stackRows with
      | .inl snapshot => some (s.set w (.writing (.awaitStacks snapshot) work))
      | .inr change =>
          some (s.set w (.writing .insertStacks { work with stackRows := some change }))
  | .awaitStacks snapshot =>
      (resumeDelete s.store.positionTemplateStack snapshot (s.sessions (!w)).stackRows).map
        (fun change => s.set w (.writing .insertStacks { work with stackRows := some change }))
  | .insertStacks =>
      let new := newStackRows id (updates w).now s.store.nextId work.resulting.stackIds
      match insertOutcome (fun r => (r.positionTemplateId, r.stackId)) s.store.positionTemplateStack
          work.stackRows (s.sessions (!w)).stackRows new with
      | .waits => none
      | .violates => some (s.set w .failed)
      | .succeeds =>
          some (Duo.set { s with store := { s.store with nextId := s.store.nextId + new.length } } w
            (.writing (updates w).afterStacks
              { work with stackRows := work.stackRows.map (fun c => { c with inserted := new }) }))
  | .deleteCompetencies =>
      match startDelete s.store.positionTemplateCompetency (fun r => r.positionTemplateId = id)
          (s.sessions (!w)).competencyRows with
      | .inl snapshot => some (s.set w (.writing (.awaitCompetencies snapshot) work))
      | .inr change =>
          some (s.set w (.writing .insertCompetencies { work with competencyRows := some change }))
  | .awaitCompetencies snapshot =>
      (resumeDelete s.store.positionTemplateCompetency snapshot
          (s.sessions (!w)).competencyRows).map
        (fun change =>
          s.set w (.writing .insertCompetencies { work with competencyRows := some change }))
  | .insertCompetencies =>
      let new := newCompetencyRows id (updates w).now work.resulting.mustHaveCompetencyIds
        s.store.nextId work.resulting.competencyIds
      match insertOutcome (fun r => (r.positionTemplateId, r.competencyId))
          s.store.positionTemplateCompetency work.competencyRows
          (s.sessions (!w)).competencyRows new with
      | .waits => none
      | .violates => some (s.set w .failed)
      | .succeeds =>
          some (Duo.set { s with store := { s.store with nextId := s.store.nextId + new.length } } w
            (.writing .commit
              { work with
                competencyRows := work.competencyRows.map (fun c => { c with inserted := new }) }))
  | .commit => some (Duo.set { s with store := s.store.commit id work } w .committed)

/-- The next statement of one of the sessions. -/
def duoStep : Step Duo Bool Empty Unit
  | s, w =>
      match s.sessions w with
      | .start =>
          match s.store.template? id with
          | none => .ok (s.set w .failed, [])
          | some tmpl => .ok (s.set w (.gotTemplate tmpl), [])
      | .gotTemplate tmpl => .ok (s.set w (.gotStacks tmpl (s.store.stackIds id)), [])
      | .gotStacks tmpl stackIds =>
          .ok (s.set w
            (.selected tmpl { s.store.currentSelection id with stackIds := stackIds }), [])
      | .selected tmpl cur =>
          match mergeUpdate kit s.store.rubric tmpl cur (updates w).patch with
          | .error _ => .ok (s.set w .failed, [])
          | .ok resulting =>
              .ok (s.set w (.writing .updateRow { seen := tmpl, resulting := resulting.val }), [])
      | .writing next work =>
          match writeStep id updates s w work next with
          | none => .error ()
          | some s' => .ok (s', [])
      | .committed => .error ()
      | .failed => .error ()

/-- The service starts on two updates. -/
def Duo.begin (store : Store) : Duo := ⟨store, fun _ => .start⟩

end Steps

section Serial
variable {kit : IdKit} {id : RowId} {s s' : Store}

/-- One update, with nothing at the same time. -/
def execute (id : RowId) (x : Update kit) (s : Store) : Store :=
  match updatePositionTemplate kit id x.patch x.now s with
  | .ok (_, s') => s'
  | .error _ => s

/-- The tables, without the identifiers and the times of association rows. -/
@[ext] structure Contents where
  positionTemplate : List TemplateRow
  stackIds : RowId → List RowId
  competencies : RowId → List (RowId × Bool)

def Store.contents (s : Store) : Contents := ⟨s.positionTemplate, s.stackIds, s.competencies⟩

/-- The tables are what the updates leave in one of the two orders. -/
def Serialisable (id : RowId) (updates : Bool → Update kit) (before after : Store) : Prop :=
  after.contents = (execute id (updates true) (execute id (updates false) before)).contents ∨
    after.contents = (execute id (updates false) (execute id (updates true) before)).contents

/-- The competencies that an update selects, with their flags. -/
def UpdateFields.selected? (patch : UpdateFields) : Option (List (RowId × Bool)) :=
  patch.competencyIds.value?.map (fun ids =>
    ids.map (fun c => (c, (patch.mustHaveCompetencyIds.value?.getD []).contains c)))

/-- The tables with what an update names. -/
def Contents.patched (id : RowId) (patch : UpdateFields) (c : Contents) : Contents where
  positionTemplate := c.positionTemplate.map (fun r => if r.id = id then patch.patched r else r)
  stackIds u := if u = id then patch.stackIds.value?.getD (c.stackIds u) else c.stackIds u
  competencies u := if u = id then patch.selected?.getD (c.competencies u) else c.competencies u

/-- The update passes the checks on the template as it is stored. -/
def Store.Admits (s : Store) (id : RowId) (x : Update kit) : Prop :=
  ∃ tmpl resulting, s.template? id = some tmpl ∧
    mergeUpdate kit s.rubric tmpl (s.currentSelection id) x.patch = .ok resulting

theorem OnlyNamed.contents {patch : UpdateFields} (h : OnlyNamed patch id s s') :
    s'.contents = s.contents.patched id patch := by
  -- Of the other templates no row has changed.
  have hselection : ∀ u, u ≠ id → s'.stackIds u = s.stackIds u ∧
      s'.competencies u = s.competencies u := by
    intro u hu
    constructor
    · exact congrArg (List.map _)
        (filter_of_others TemplateStackRow.positionTemplateId hu h.otherStacks)
    · exact congrArg (List.map _)
        (filter_of_others TemplateCompetencyRow.positionTemplateId hu h.otherCompetencies)
  have hstacks := h.ownStacks
  have hcomps := h.ownCompetencies
  refine Contents.ext h.columns (funext fun u => ?_) (funext fun u => ?_)
  · change s'.stackIds u = if u = id then _ else _
    by_cases hu : u = id
    · subst hu
      rw [if_pos rfl]
      cases hp : patch.stackIds.value? with
      | none =>
          rw [hp] at hstacks
          exact congrArg (fun rows => List.map _ (List.filter _ rows)) hstacks
      | some ids =>
          rw [hp] at hstacks
          exact hstacks
    · rw [if_neg hu]
      exact (hselection u hu).1
  · change s'.competencies u = if u = id then _ else _
    by_cases hu : u = id
    · subst hu
      rw [if_pos rfl]
      unfold UpdateFields.selected?
      cases hp : patch.competencyIds.value? with
      | none =>
          rw [hp] at hcomps
          exact congrArg (fun rows => List.map _ (List.filter _ rows)) hcomps
      | some ids =>
          rw [hp] at hcomps
          exact hcomps
    · rw [if_neg hu]
      exact (hselection u hu).2

/-- The checks see no more than the contents. -/
theorem Store.Admits.of_contents {x : Update kit} (h : s.Admits id x)
    (hc : s.contents = s'.contents) (hr : s.rubric = s'.rubric) : s'.Admits id x := by
  obtain ⟨tmpl, resulting, htmpl, hmerge⟩ := h
  have hrows : s.positionTemplate = s'.positionTemplate := congrArg Contents.positionTemplate hc
  have hstacks : s.stackIds = s'.stackIds := congrArg Contents.stackIds hc
  have hcomps : s.competencies = s'.competencies := congrArg Contents.competencies hc
  refine ⟨tmpl, resulting, ?_, ?_⟩
  · unfold Store.template? at htmpl ⊢
    rw [← hrows, htmpl]
  · unfold Store.currentSelection at hmerge ⊢
    rw [← hr, ← hstacks, ← hcomps, hmerge]

/-- An update that the checks admit leaves what it names. -/
theorem contents_execute {x : Update kit} (hids : s.ids.Nodup) (hadmits : s.Admits id x)
    (hstorable : x.patch.val.storable = true) :
    (execute id x s).contents = s.contents.patched id x.patch.val := by
  obtain ⟨tmpl, resulting, htmpl, hmerge⟩ := hadmits
  have hok : updatePositionTemplate kit id x.patch x.now s
      = .ok (((applyUpdate id x.patch.val resulting.val x.now s).template? id).map
          (applyUpdate id x.patch.val resulting.val x.now s).assembleRead,
        applyUpdate id x.patch.val resulting.val x.now s) := by
    unfold updatePositionTemplate
    simp only [htmpl, hmerge, hstorable, raiseIf, Except.mapError, bind, Except.bind, pure,
      Except.pure, Bool.not_true, Bool.false_eq_true, if_false]
  have hresult := (mergeUpdate_ok kit hmerge).1
  unfold execute
  rw [hok]
  dsimp only
  rw [hresult]
  exact (onlyNamed_of_apply htmpl hids x.patch.val).contents

variable (id) in
theorem sound_execute (hs : s.Sound) (x : Update kit) : (execute id x s).Sound := by
  unfold execute
  cases h : updatePositionTemplate kit id x.patch x.now s with
  | error f => exact hs
  | ok r => exact sound_update kit hs h

theorem rubric_execute (hs : s.Sound) (x : Update kit) : (execute id x s).rubric = s.rubric := by
  unfold execute
  cases h : updatePositionTemplate kit id x.patch x.now s with
  | error f => rfl
  | ok r =>
      rcases update_cases kit h with ⟨-, -, heq⟩ | ⟨tmpl, htmpl, -, -, heq⟩
      · exact congrArg Store.rubric heq
      · exact (congrArg Store.rubric heq).trans
          (onlyNamed_of_apply htmpl hs.ids_nodup x.patch.val).rubric

end Serial

section Condition
variable {kit : IdKit}

/-- The condition on the next statement of a session, given the other one. A
    `DELETE` meets no rows that the other update has replaced. At a commit, the
    update would be admitted on the rows that are committed by then, and what it has
    written in the template's row is what it names. -/
def Session.Calm (own : Session) (id : RowId) (x : Update kit) (store : Store)
    (other : Session) : Prop :=
  match own with
  | .writing .deleteStacks _ => other.stackRows = none
  | .writing .deleteCompetencies _ => other.competencyRows = none
  | .writing .commit work => store.Admits id x ∧
      ∀ r ∈ store.positionTemplate, r.id = id → work.columns r = x.patch.val.patched r
  | _ => True

/-- A step that finds its session calm. -/
def Undisturbed (id : RowId) (updates : Bool → Update kit) (s : Duo) (w : Bool) : Prop :=
  (s.sessions w).Calm id (updates w) s.store (s.sessions (!w))

instance (s : Store) (id : RowId) (x : Update kit) : Decidable (s.Admits id x) :=
  match ht : s.template? id with
  | none => isFalse (fun ⟨tmpl, _, h, _⟩ => by rw [ht] at h; cases h)
  | some tmpl =>
      match hm : mergeUpdate kit s.rubric tmpl (s.currentSelection id) x.patch with
      | .ok resulting => isTrue ⟨tmpl, resulting, ht, hm⟩
      | .error e => isFalse (fun ⟨tmpl', _, h, hok⟩ => by
          cases ht.symm.trans h
          rw [hm] at hok
          cases hok)

instance (id : RowId) (x : Update kit) (store : Store) (other : Session) :
    ∀ own : Session, Decidable (own.Calm id x store other)
  | .writing .deleteStacks _ => inferInstanceAs (Decidable (other.stackRows = none))
  | .writing .deleteCompetencies _ => inferInstanceAs (Decidable (other.competencyRows = none))
  | .writing .commit work => inferInstanceAs (Decidable (store.Admits id x ∧
      ∀ r ∈ store.positionTemplate, r.id = id → work.columns r = x.patch.val.patched r))
  | .writing .updateRow _ | .writing (.awaitStacks _) _ | .writing .insertStacks _
  | .writing (.awaitCompetencies _) _ | .writing .insertCompetencies _
  | .start | .gotTemplate _ | .gotStacks _ _ | .selected _ _ | .committed | .failed =>
      isTrue trivial

instance (id : RowId) (updates : Bool → Update kit) (s : Duo) (w : Bool) :
    Decidable (Undisturbed id updates s w) :=
  inferInstanceAs (Decidable (Session.Calm _ _ _ _ _))

end Condition

section Tracking
variable {kit : IdKit} {id : RowId} {updates : Bool → Update kit} {s : Duo} {w : Bool}

/-- What is left holds the selections that the update names. -/
structure Work.Carries (x : Update kit) (work : Work) : Prop where
  storable : x.patch.val.storable = true
  stackIds : ∀ ids, x.patch.val.stackIds.value? = some ids → work.resulting.stackIds = ids
  competencyIds : ∀ ids, x.patch.val.competencyIds.value? = some ids →
    work.resulting.competencyIds = ids ∧ work.resulting.mustHaveCompetencyIds
      = x.patch.val.mustHaveCompetencyIds.value?.getD []

/-- The rows of the template are replaced if there are values for new ones. -/
def Replaced {ρ β : Type} (template : ρ → RowId) (view : ρ → β) (id : RowId)
    (values : Option (List β)) (change : Option (Change ρ)) : Prop :=
  match values with
  | none => change = none
  | some vs => ∃ c, change = some c ∧ (∀ r ∈ c.inserted, template r = id) ∧
      c.inserted.map view = vs

def Work.StacksDone (id : RowId) (x : Update kit) (work : Work) : Prop :=
  Replaced TemplateStackRow.positionTemplateId TemplateStackRow.stackId id
    x.patch.val.stackIds.value? work.stackRows

def Work.CompetenciesDone (id : RowId) (x : Update kit) (work : Work) : Prop :=
  Replaced TemplateCompetencyRow.positionTemplateId (fun r => (r.competencyId, r.mustHave)) id
    x.patch.val.selected? work.competencyRows

/-- How far the work of a session has got when a statement comes next. -/
def Work.Before (id : RowId) (x : Update kit) (work : Work) : Statement → Prop
  | .updateRow => work.stackRows = none ∧ work.competencyRows = none ∧
      (x.patch.val.storable = true → work.Carries x)
  | .deleteStacks => work.stackRows = none ∧ work.competencyRows = none ∧ work.Carries x ∧
      x.patch.val.stackIds.value?.isSome = true
  | .insertStacks => work.stackRows.isSome = true ∧ work.competencyRows = none ∧
      work.Carries x ∧ x.patch.val.stackIds.value?.isSome = true
  | .deleteCompetencies => work.StacksDone id x ∧ work.competencyRows = none ∧
      work.Carries x ∧ x.patch.val.competencyIds.value?.isSome = true
  | .insertCompetencies => work.StacksDone id x ∧ work.competencyRows.isSome = true ∧
      work.Carries x ∧ x.patch.val.competencyIds.value?.isSome = true
  | .commit => work.StacksDone id x ∧ work.CompetenciesDone id x ∧ work.Carries x
  -- Undisturbed statements do not wait.
  | .awaitStacks _ => False
  | .awaitCompetencies _ => False

def Session.Before (id : RowId) (x : Update kit) : Session → Prop
  | .writing next work => work.Before id x next
  | _ => True

/-- One of the two sessions at most has replaced the rows of a table, and it has
    deleted all that are committed. -/
structure Holds {ρ : Type} (rows : List ρ) (held : Bool → Option (Change ρ)) : Prop where
  deleted : ∀ w c, held w = some c → c.deleted = rows
  alone : ∀ w, held w = none ∨ held (!w) = none

/-- The committed tables are those of the updates in the order of their commits. -/
structure Tracked (id : RowId) (updates : Bool → Update kit) (start : Store) (s : Duo) : Prop where
  before : ∀ w, (s.sessions w).Before id (updates w)
  stackRows : Holds (s.store.positionTemplateStack.filter (fun r => r.positionTemplateId = id))
    (fun w => (s.sessions w).stackRows)
  competencyRows : Holds
    (s.store.positionTemplateCompetency.filter (fun r => r.positionTemplateId = id))
    (fun w => (s.sessions w).competencyRows)
  rubric : s.store.rubric = start.rubric
  order : ∃ order : List Bool, order.Nodup ∧ (∀ w, w ∈ order ↔ s.sessions w = .committed) ∧
    s.store.contents
      = (order.foldl (fun st w => execute id (updates w) st) start).contents

@[simp] theorem sessions_set (x : Session) : (s.set w x).sessions w = x := by
  unfold Duo.set
  exact Function.update_self _ _ _

@[simp] theorem sessions_set_other (x : Session) :
    (s.set w x).sessions (!w) = s.sessions (!w) := by
  have hne : (!w) ≠ w := by cases w <;> decide
  unfold Duo.set
  exact Function.update_of_ne hne _ _

/-- Both sessions are the one that moves and the other one. -/
theorem forall_session {P : Bool → Prop} (w : Bool) (h : P w) (h' : P (!w)) : ∀ v, P v := by
  intro v
  cases v <;> cases w <;> assumption

/-- A session that takes nothing, or takes all the rows while the other one has
    none of them. -/
theorem Holds.move {ρ : Type} {rows : List ρ} {held held' : Bool → Option (Change ρ)}
    (h : Holds rows held) (w : Bool) (hother : held' (!w) = held (!w))
    (hown : ∀ c, held' w = some c → c.deleted = rows ∧ held (!w) = none) : Holds rows held' := by
  constructor
  · refine forall_session w (fun c hc => (hown c hc).1) (fun c hc => ?_)
    rw [hother] at hc
    exact h.deleted (!w) c hc
  · have hone : held' w = none ∨ held' (!w) = none := by
      cases hc : held' w with
      | none => exact .inl rfl
      | some c => exact .inr (hother.trans (hown c hc).2)
    refine forall_session w hone ?_
    rw [Bool.not_not]
    exact hone.symm

/-- A session keeps what it holds. -/
theorem Holds.own {ρ : Type} {rows : List ρ} {held : Bool → Option (Change ρ)}
    (h : Holds rows held) (w : Bool) {c : Change ρ} (hc : held w = some c) :
    c.deleted = rows ∧ held (!w) = none := by
  refine ⟨h.deleted w c hc, ?_⟩
  rcases h.alone w with hnone | hnone
  · rw [hc] at hnone
    cases hnone
  · exact hnone

/-- A statement that leaves the committed tables as they are. -/
theorem Tracked.move {start : Store} (h : Tracked id updates start s) {s' : Duo} {x : Session}
    (hstore : s'.store = { s.store with nextId := s'.store.nextId })
    (hsessions : s'.sessions = (s.set w x).sessions)
    (hopen : s.sessions w ≠ .committed) (hx : x ≠ .committed) (hbefore : x.Before id (updates w))
    (hstacks : ∀ c, x.stackRows = some c →
      c.deleted = s.store.positionTemplateStack.filter (fun r => r.positionTemplateId = id) ∧
        (s.sessions (!w)).stackRows = none)
    (hcomps : ∀ c, x.competencyRows = some c →
      c.deleted = s.store.positionTemplateCompetency.filter (fun r => r.positionTemplateId = id) ∧
        (s.sessions (!w)).competencyRows = none) :
    Tracked id updates start s' := by
  have hself : s'.sessions w = x := by rw [hsessions, sessions_set]
  have hother : s'.sessions (!w) = s.sessions (!w) := by rw [hsessions, sessions_set_other]
  constructor
  · refine forall_session w ?_ ?_
    · rw [hself]
      exact hbefore
    · rw [hother]
      exact h.before (!w)
  · rw [hstore]
    refine h.stackRows.move w (congrArg _ hother) (fun c hc => hstacks c ?_)
    rw [← hself]
    exact hc
  · rw [hstore]
    refine h.competencyRows.move w (congrArg _ hother) (fun c hc => hcomps c ?_)
    rw [← hself]
    exact hc
  · rw [hstore]
    exact h.rubric
  · obtain ⟨order, hnodup, hcommitted, hcontents⟩ := h.order
    refine ⟨order, hnodup, forall_session w ?_ ?_, ?_⟩
    · rw [hself, hcommitted]
      exact iff_of_false hopen hx
    · rw [hother]
      exact hcommitted (!w)
    · rw [hstore]
      exact hcontents

/-- A session that gives back what it holds by making it the table. -/
theorem Holds.release {ρ : Type} [DecidableEq ρ] {rows : List ρ} {test : ρ → Bool}
    {held : Bool → Option (Change ρ)} (h : Holds (rows.filter test) held) (w : Bool)
    (held' : Bool → Option (Change ρ)) (hown : held' w = none) (hother : held' (!w) = held (!w)) :
    Holds ((Change.apply (held w) rows).filter test) held' := by
  cases hw : held w with
  | none => exact h.move w hother (fun c hc => by rw [hown] at hc; cases hc)
  | some c =>
      -- The other session holds nothing, so no session holds anything now.
      have hnone : held' (!w) = none := hother.trans (h.own w hw).2
      refine ⟨forall_session w (fun c hc => ?_) (fun c hc => ?_),
        forall_session w (.inl hown) (.inl hnone)⟩
      · rw [hown] at hc
        cases hc
      · rw [hnone] at hc
        cases hc

/-- A table after a replacement of the rows of one template. -/
theorem Replaced.map_filter_apply {ρ β : Type} [DecidableEq ρ] {template : ρ → RowId}
    {view : ρ → β} {values : Option (List β)} {change : Option (Change ρ)} {rows : List ρ}
    (h : Replaced template view id values change)
    (hdel : ∀ c, change = some c → c.deleted = rows.filter (fun r => template r = id)) (u : RowId) :
    ((Change.apply change rows).filter (fun r => template r = u)).map view
      = if u = id then values.getD ((rows.filter (fun r => template r = u)).map view)
        else (rows.filter (fun r => template r = u)).map view := by
  unfold Replaced at h
  cases values with
  | none =>
      rw [h, Option.getD_none, ite_self]
      rfl
  | some vs =>
      obtain ⟨c, rfl, hins, hvs⟩ := h
      have hins' : ∀ r ∈ c.inserted, decide (template r = id) = true :=
        fun r hr => decide_eq_true (hins r hr)
      by_cases hu : u = id
      · subst hu
        rw [if_pos rfl, filter_apply_own (hdel c rfl) hins', hvs, Option.getD_some]
      · rw [if_neg hu, filter_apply_other (hdel c rfl) hins']
        intro r hr
        exact decide_eq_false (fun h => hu ((of_decide_eq_true hr).symm.trans h))

/-- A commit leaves what the update names. -/
theorem contents_commit {store : Store} {x : Update kit} {work : Work}
    (hbefore : work.Before id x .commit)
    (hstacks : ∀ c, work.stackRows = some c →
      c.deleted = store.positionTemplateStack.filter (fun r => r.positionTemplateId = id))
    (hcomps : ∀ c, work.competencyRows = some c →
      c.deleted = store.positionTemplateCompetency.filter (fun r => r.positionTemplateId = id))
    (hrow : ∀ r ∈ store.positionTemplate, r.id = id → work.columns r = x.patch.val.patched r) :
    (store.commit id work).contents = store.contents.patched id x.patch.val := by
  obtain ⟨hdoneStacks, hdoneComps, -⟩ := hbefore
  refine Contents.ext (List.map_congr_left (fun r hr => ?_))
    (funext fun u => hdoneStacks.map_filter_apply hstacks u)
    (funext fun u => hdoneComps.map_filter_apply hcomps u)
  by_cases hid : r.id = id
  · rw [if_pos hid, if_pos hid, hrow r hr hid]
  · rw [if_neg hid, if_neg hid]

variable (id updates) in
theorem sound_order {start : Store} (hs : start.Sound) (order : List Bool) :
    (order.foldl (fun st w => execute id (updates w) st) start).Sound ∧
      (order.foldl (fun st w => execute id (updates w) st) start).rubric = start.rubric := by
  induction order generalizing start with
  | nil => exact ⟨hs, rfl⟩
  | cons w order ih =>
      obtain ⟨hsound, hrubric⟩ := ih (sound_execute id hs (updates w))
      exact ⟨hsound, hrubric.trans (rubric_execute hs (updates w))⟩

/-- A commit adds its update to the order. -/
theorem Tracked.commit {start : Store} (hstart : start.Sound) (h : Tracked id updates start s)
    {work : Work} (hw : s.sessions w = .writing .commit work) (hund : Undisturbed id updates s w) :
    Tracked id updates start
      (Duo.set { s with store := s.store.commit id work } w .committed) := by
  have hbefore : work.Before id (updates w) .commit := by
    have := h.before w
    rw [hw] at this
    exact this
  have hstacks : (s.sessions w).stackRows = work.stackRows := by rw [hw]; rfl
  have hcomps : (s.sessions w).competencyRows = work.competencyRows := by rw [hw]; rfl
  obtain ⟨hadmits, hrow⟩ : s.store.Admits id (updates w) ∧
      ∀ r ∈ s.store.positionTemplate, r.id = id →
        work.columns r = (updates w).patch.val.patched r := by
    unfold Undisturbed at hund
    rw [hw] at hund
    exact hund
  have hcontents := contents_commit hbefore
    (fun c hc => (h.stackRows.deleted w c (hstacks.trans hc)))
    (fun c hc => (h.competencyRows.deleted w c (hcomps.trans hc))) hrow
  constructor
  · refine forall_session w ?_ ?_
    · rw [sessions_set]
      exact trivial
    · rw [sessions_set_other]
      exact h.before (!w)
  · have hreleased := h.stackRows.release w (fun v => ((Duo.set { s with
      store := s.store.commit id work } w .committed).sessions v).stackRows)
      (by rw [sessions_set]; rfl) (by rw [sessions_set_other])
    rw [hstacks] at hreleased
    exact hreleased
  · have hreleased := h.competencyRows.release w (fun v => ((Duo.set { s with
      store := s.store.commit id work } w .committed).sessions v).competencyRows)
      (by rw [sessions_set]; rfl) (by rw [sessions_set_other])
    rw [hcomps] at hreleased
    exact hreleased
  · exact h.rubric
  · obtain ⟨order, hnodup, hcommitted, hold⟩ := h.order
    obtain ⟨hsound, hrubric⟩ := sound_order id updates hstart order
    refine ⟨order ++ [w], ?_, forall_session w ?_ ?_, ?_⟩
    · have hnew : w ∉ order := by
        rw [hcommitted, hw]
        exact fun hc => by cases hc
      exact List.nodup_append.mpr ⟨hnodup, List.nodup_singleton w,
        fun v hv v' hv' heq => hnew (List.mem_singleton.mp hv' ▸ heq ▸ hv)⟩
    · rw [sessions_set]
      exact iff_of_true (List.mem_append_right _ List.mem_cons_self) rfl
    · have hne : (!w) ≠ w := by cases w <;> decide
      rw [sessions_set_other, List.mem_append, List.mem_singleton, ← hcommitted]
      exact or_iff_left hne
    · -- The update is admitted by the serial tables just as by the committed ones.
      have hserial := hadmits.of_contents hold (h.rubric.trans hrubric.symm)
      rw [List.foldl_append, List.foldl_cons, List.foldl_nil,
        contents_execute hsound.ids_nodup hserial hbefore.2.2.storable, ← hold]
      exact hcontents

theorem before_afterStacks {x : Update kit} {work : Work} (hdone : work.StacksDone id x)
    (hcomps : work.competencyRows = none) (hcarries : work.Carries x) :
    work.Before id x x.afterStacks := by
  unfold Update.afterStacks
  split
  · next hnamed => exact ⟨hdone, hcomps, hcarries, hnamed⟩
  · next hnamed =>
      refine ⟨hdone, ?_, hcarries⟩
      unfold Work.CompetenciesDone Replaced UpdateFields.selected?
      cases hp : x.patch.val.competencyIds.value? with
      | none => exact hcomps
      | some ids => exact absurd (by rw [hp]; rfl) hnamed

theorem before_afterRow {x : Update kit} {work : Work} (hstacks : work.stackRows = none)
    (hcomps : work.competencyRows = none) (hcarries : work.Carries x) :
    work.Before id x x.afterRow := by
  unfold Update.afterRow
  split
  · next hnamed => exact ⟨hstacks, hcomps, hcarries, hnamed⟩
  · next hnamed =>
      refine before_afterStacks ?_ hcomps hcarries
      unfold Work.StacksDone Replaced
      cases hp : x.patch.val.stackIds.value? with
      | none => exact hstacks
      | some ids => exact absurd (by rw [hp]; rfl) hnamed

theorem carries_of_merge {x : Update kit} {tmpl : TemplateRow} {cur : Selection}
    {rubric : Rows} {resulting : PositionTemplateCreate kit}
    (h : mergeUpdate kit rubric tmpl cur x.patch = .ok resulting)
    (hstorable : x.patch.val.storable = true) :
    Work.Carries x { seen := tmpl, resulting := resulting.val } := by
  have hval := (mergeUpdate_ok kit h).1
  refine ⟨hstorable, fun ids hp => ?_, fun ids hp => ?_⟩
  · change resulting.val.stackIds = ids
    rw [hval]
    unfold resultingTemplate
    rw [hp]
    rfl
  · change resulting.val.competencyIds = ids ∧ resulting.val.mustHaveCompetencyIds = _
    rw [hval]
    unfold resultingTemplate
    rw [hp]
    exact ⟨rfl, rfl⟩

variable (id) in
theorem newStackRows_spec (now : Instant) (nextId : RowId) (stackIds : List RowId) :
    (∀ r ∈ newStackRows id now nextId stackIds, r.positionTemplateId = id) ∧
      (newStackRows id now nextId stackIds).map TemplateStackRow.stackId = stackIds := by
  induction stackIds generalizing nextId with
  | nil => exact ⟨fun _ hr => absurd hr List.not_mem_nil, rfl⟩
  | cons stackId rest ih =>
      obtain ⟨htemplate, hids⟩ := ih (nextId + 1)
      refine ⟨fun r hr => ?_, congrArg (stackId :: ·) hids⟩
      rcases List.mem_cons.mp hr with rfl | hr
      · rfl
      · exact htemplate r hr

variable (id) in
theorem newCompetencyRows_spec (now : Instant) (must : List RowId) (nextId : RowId)
    (competencyIds : List RowId) :
    (∀ r ∈ newCompetencyRows id now must nextId competencyIds, r.positionTemplateId = id) ∧
      (newCompetencyRows id now must nextId competencyIds).map
        (fun r => (r.competencyId, r.mustHave))
          = competencyIds.map (fun c => (c, must.contains c)) := by
  induction competencyIds generalizing nextId with
  | nil => exact ⟨fun _ hr => absurd hr List.not_mem_nil, rfl⟩
  | cons c rest ih =>
      obtain ⟨htemplate, hids⟩ := ih (nextId + 1)
      refine ⟨fun r hr => ?_, congrArg ((c, must.contains c) :: ·) hids⟩
      rcases List.mem_cons.mp hr with rfl | hr
      · rfl
      · exact htemplate r hr

/-- The statements of a session that writes, at an undisturbed step. -/
theorem Tracked.write {start : Store} (hstart : start.Sound) (h : Tracked id updates start s)
    {next : Statement} {work : Work} (hw : s.sessions w = .writing next work)
    (hund : Undisturbed id updates s w) {s' : Duo}
    (hstep : writeStep id updates s w work next = some s') : Tracked id updates start s' := by
  have hopen : s.sessions w ≠ .committed := by
    rw [hw]
    exact fun hc => by cases hc
  have hbefore : work.Before id (updates w) next := by
    have := h.before w
    rw [hw] at this
    exact this
  have hstacks : (s.sessions w).stackRows = work.stackRows := by rw [hw]; rfl
  have hcomps : (s.sessions w).competencyRows = work.competencyRows := by rw [hw]; rfl
  -- What the session holds it goes on holding.
  have hholdStacks : ∀ c, work.stackRows = some c →
      c.deleted = s.store.positionTemplateStack.filter (fun r => r.positionTemplateId = id) ∧
        (s.sessions (!w)).stackRows = none := fun c hc => h.stackRows.own w (hstacks.trans hc)
  have hholdComps : ∀ c, work.competencyRows = some c →
      c.deleted = s.store.positionTemplateCompetency.filter (fun r => r.positionTemplateId = id) ∧
        (s.sessions (!w)).competencyRows = none :=
    fun c hc => h.competencyRows.own w (hcomps.trans hc)
  unfold Undisturbed at hund
  rw [hw] at hund
  unfold writeStep at hstep
  cases next with
  | updateRow =>
      obtain ⟨hnoStacks, hnoComps, hcarries⟩ := hbefore
      dsimp only at hstep
      split at hstep
      · cases hstep
        exact h.move rfl rfl hopen (fun hc => by cases hc) trivial (fun c hc => by cases hc)
          (fun c hc => by cases hc)
      · next hstorable =>
          split at hstep
          · cases hstep
          · cases hstep
            have hcarries' := hcarries (by simpa using hstorable)
            refine h.move rfl rfl hopen (fun hc => by cases hc) ?_ hholdStacks hholdComps
            exact before_afterRow hnoStacks hnoComps
              ⟨hcarries'.storable, hcarries'.stackIds, hcarries'.competencyIds⟩
  | deleteStacks =>
      obtain ⟨hnoStacks, hnoComps, hcarries, hnamed⟩ := hbefore
      dsimp only at hstep hund
      rw [hund, startDelete_free] at hstep
      cases hstep
      refine h.move rfl rfl hopen (fun hc => by cases hc)
        ⟨rfl, hnoComps, ⟨hcarries.storable, hcarries.stackIds, hcarries.competencyIds⟩, hnamed⟩
        (fun c hc => ?_) hholdComps
      cases hc
      exact ⟨rfl, hund⟩
  | awaitStacks snapshot => exact hbefore.elim
  | insertStacks =>
      obtain ⟨hsome, hnoComps, hcarries, hnamed⟩ := hbefore
      obtain ⟨c, hc⟩ := Option.isSome_iff_exists.mp hsome
      dsimp only at hstep
      split at hstep
      · cases hstep
      · cases hstep
        exact h.move rfl rfl hopen (fun hc => by cases hc) trivial (fun c hc => by cases hc)
          (fun c hc => by cases hc)
      · cases hstep
        obtain ⟨htemplate, hids⟩ := newStackRows_spec id (updates w).now s.store.nextId
          work.resulting.stackIds
        refine h.move rfl rfl hopen (fun hc => by cases hc)
          (before_afterStacks ?_ hnoComps
            ⟨hcarries.storable, hcarries.stackIds, hcarries.competencyIds⟩)
          (fun c' hc' => ?_) hholdComps
        · obtain ⟨ids, hp⟩ := Option.isSome_iff_exists.mp hnamed
          unfold Work.StacksDone Replaced
          rw [hp]
          refine ⟨_, congrArg (Option.map _) hc, htemplate, ?_⟩
          exact hids.trans (hcarries.stackIds ids hp)
        · change work.stackRows.map _ = some c' at hc'
          rw [hc] at hc'
          cases hc'
          exact hholdStacks c hc
  | deleteCompetencies =>
      obtain ⟨hdone, hnoComps, hcarries, hnamed⟩ := hbefore
      dsimp only at hstep hund
      rw [hund, startDelete_free] at hstep
      cases hstep
      refine h.move rfl rfl hopen (fun hc => by cases hc)
        ⟨hdone, rfl, ⟨hcarries.storable, hcarries.stackIds, hcarries.competencyIds⟩, hnamed⟩
        hholdStacks (fun c hc => ?_)
      cases hc
      exact ⟨rfl, hund⟩
  | awaitCompetencies snapshot => exact hbefore.elim
  | insertCompetencies =>
      obtain ⟨hdone, hsome, hcarries, hnamed⟩ := hbefore
      obtain ⟨c, hc⟩ := Option.isSome_iff_exists.mp hsome
      dsimp only at hstep
      split at hstep
      · cases hstep
      · cases hstep
        exact h.move rfl rfl hopen (fun hc => by cases hc) trivial (fun c hc => by cases hc)
          (fun c hc => by cases hc)
      · cases hstep
        obtain ⟨htemplate, hids⟩ := newCompetencyRows_spec id (updates w).now
          work.resulting.mustHaveCompetencyIds s.store.nextId work.resulting.competencyIds
        refine h.move rfl rfl hopen (fun hc => by cases hc)
          ⟨hdone, ?_, ⟨hcarries.storable, hcarries.stackIds, hcarries.competencyIds⟩⟩
          hholdStacks (fun c' hc' => ?_)
        · obtain ⟨ids, hp⟩ := Option.isSome_iff_exists.mp hnamed
          obtain ⟨hcompetencyIds, hmust⟩ := hcarries.competencyIds ids hp
          unfold Work.CompetenciesDone Replaced UpdateFields.selected?
          rw [hp]
          refine ⟨_, congrArg (Option.map _) hc, htemplate, ?_⟩
          rw [← hmust, ← hcompetencyIds]
          exact hids
        · change work.competencyRows.map _ = some c' at hc'
          rw [hc] at hc'
          cases hc'
          exact hholdComps c hc
  | commit =>
      cases hstep
      refine h.commit hstart hw ?_
      unfold Undisturbed
      rw [hw]
      exact hund

theorem tracked_step {start : Store} (hstart : start.Sound) (h : Tracked id updates start s)
    (hund : Undisturbed id updates s w) {s' : Duo} {out : List Empty}
    (hstep : duoStep id updates s w = .ok (s', out)) : Tracked id updates start s' := by
  -- Up to the first write a session holds nothing.
  have hread : ∀ x : Session, x.work? = none → x ≠ .committed → s.sessions w ≠ .committed →
      Tracked id updates start (s.set w x) := by
    intro x hx hne hopen
    refine h.move rfl rfl hopen hne ?_ (fun c hc => ?_) (fun c hc => ?_)
    · cases x with
      | writing next work => cases hx
      | _ => trivial
    · unfold Session.stackRows at hc
      rw [hx] at hc
      cases hc
    · unfold Session.competencyRows at hc
      rw [hx] at hc
      cases hc
  unfold duoStep at hstep
  dsimp only at hstep
  cases hw : s.sessions w with
  | start =>
      rw [hw] at hstep
      dsimp only at hstep
      split at hstep
      · cases hstep
        exact hread _ rfl (fun hc => by cases hc) (fun hc => by rw [hw] at hc; cases hc)
      · cases hstep
        exact hread _ rfl (fun hc => by cases hc) (fun hc => by rw [hw] at hc; cases hc)
  | gotTemplate tmpl =>
      rw [hw] at hstep
      cases hstep
      exact hread _ rfl (fun hc => by cases hc) (fun hc => by rw [hw] at hc; cases hc)
  | gotStacks tmpl stackIds =>
      rw [hw] at hstep
      cases hstep
      exact hread _ rfl (fun hc => by cases hc) (fun hc => by rw [hw] at hc; cases hc)
  | selected tmpl cur =>
      rw [hw] at hstep
      dsimp only at hstep
      split at hstep
      · cases hstep
        exact hread _ rfl (fun hc => by cases hc) (fun hc => by rw [hw] at hc; cases hc)
      · next resulting hmerge =>
          cases hstep
          refine h.move rfl rfl (fun hc => by rw [hw] at hc; cases hc) (fun hc => by cases hc)
            ⟨rfl, rfl, carries_of_merge hmerge⟩ (fun c hc => by cases hc) (fun c hc => by cases hc)
  | writing next work =>
      rw [hw] at hstep
      dsimp only at hstep
      split at hstep
      · cases hstep
      · next s₁ hwrite =>
          cases hstep
          exact h.write hstart hw hund hwrite
  | committed =>
      rw [hw] at hstep
      cases hstep
  | failed =>
      rw [hw] at hstep
      cases hstep

theorem tracked_begin (start : Store) : Tracked id updates start (Duo.begin start) where
  before _ := trivial
  stackRows := ⟨(fun _ _ hc => by cases hc), fun _ => .inl rfl⟩
  competencyRows := ⟨(fun _ _ hc => by cases hc), fun _ => .inl rfl⟩
  rubric := rfl
  order := ⟨[], List.nodup_nil,
    fun _ => iff_of_false List.not_mem_nil (fun hc => by cases hc), rfl⟩

theorem tracked_of_run {start : Store} (hstart : start.Sound) {ts : List (Taken Duo Bool Empty)}
    (h : Run (duoStep id updates) (Duo.begin start) ts s)
    (hund : ∀ t ∈ ts, Undisturbed id updates t.before t.event) : Tracked id updates start s := by
  induction h with
  | nil => exact tracked_begin start
  | snoc ts a b e out _ hab ih =>
      have hbefore := ih (fun t ht => hund t (List.mem_append_left _ ht))
      exact tracked_step hstart hbefore
        (hund ⟨a, e, b, out⟩ (List.mem_append_right _ List.mem_cons_self)) hab

/-- Two updates that get through without disturbance leave what they leave one after
    the other. -/
theorem serialisable_of_undisturbed (id : RowId) (updates : Bool → Update kit) {start : Store}
    (hstart : start.Sound) {ts : List (Taken Duo Bool Empty)} {s : Duo}
    (h : Run (duoStep id updates) (Duo.begin start) ts s)
    (hund : ∀ t ∈ ts, Undisturbed id updates t.before t.event)
    (hboth : ∀ w, s.sessions w = .committed) : Serialisable id updates start s.store := by
  obtain ⟨order, hnodup, hcommitted, hcontents⟩ := (tracked_of_run hstart h hund).order
  have hmem : ∀ w, w ∈ order := fun w => (hcommitted w).mpr (hboth w)
  -- An order of both sessions is one of two.
  match order, hnodup, hmem, hcontents with
  | [], _, hmem, _ => exact absurd (hmem true) List.not_mem_nil
  | [v], _, hmem, _ =>
      have hv := List.mem_singleton.mp (hmem (!v))
      cases v <;> cases hv
  | [false, true], _, _, hcontents => exact .inl hcontents
  | [true, false], _, _, hcontents => exact .inr hcontents
  | [false, false], hnodup, _, _ => exact absurd hnodup (by decide)
  | [true, true], hnodup, _, _ => exact absurd hnodup (by decide)
  | a :: b :: c :: rest, hnodup, _, _ =>
      simp only [List.nodup_cons, List.mem_cons, not_or] at hnodup
      obtain ⟨⟨hab, hac, -⟩, ⟨hbc, -⟩, -⟩ := hnodup
      cases a <;> cases b <;> cases c <;> simp_all

end Tracking

section SmallUpdates

/-- A template with two stacks and one competency. -/
def smallStore : Store where
  rubric := smallRubric
  nextId := 4
  positionTemplate := [⟨0, 0, "Developer", .middle, none, none, none⟩]
  positionTemplateStack := [⟨1, 0, 0, 1⟩, ⟨2, 0, 0, 2⟩]
  positionTemplateCompetency := [⟨3, 0, 0, 5, false⟩]

theorem sound_smallStore : smallStore.Sound := by
  refine ⟨by decide, by decide, by decide, by decide, fun i hi => ?_⟩
  cases List.mem_singleton.mp hi
  refine ⟨by decide, by decide, by decide, by decide, by decide, ?_⟩
  unfold BelongsTo
  decide

def noFields : UpdateFields := ⟨.absent, .absent, .absent, .absent, .absent, .absent⟩

/-- One update gives up the second stack, the other one selects a competency of it. -/
def narrowed : UpdateFields := { noFields with stackIds := .value [1] }
def broadened : UpdateFields := { noFields with competencyIds := .value [5, 6] }

/-- Both updates replace everything that is selected. -/
def pythonOnly : UpdateFields :=
  { noFields with stackIds := .value [1], competencyIds := .value [5] }
def reactOnly : UpdateFields :=
  { noFields with stackIds := .value [2], competencyIds := .value [6] }

/-- Both updates set the title and the text, one of them to the title that was there. -/
def retitled : UpdateFields := { noFields with title := .value "Engineer", jdText := .value "A" }
def confirmedTitle : UpdateFields :=
  { noFields with title := .value "Developer", jdText := .value "B" }

/-- The updates of the two sessions. -/
def pair (first second : PositionTemplateUpdate smallKit) (w : Bool) : Update smallKit :=
  if w then ⟨second, 20⟩ else ⟨first, 10⟩

theorem narrowed_ok : narrowed.check smallKit = .ok () := by decide
theorem broadened_ok : broadened.check smallKit = .ok () := by decide
theorem pythonOnly_ok : pythonOnly.check smallKit = .ok () := by decide
theorem reactOnly_ok : reactOnly.check smallKit = .ok () := by decide
theorem retitled_ok : retitled.check smallKit = .ok () := by decide
theorem confirmedTitle_ok : confirmedTitle.check smallKit = .ok () := by decide

def skewed : Bool → Update smallKit := pair ⟨narrowed, narrowed_ok⟩ ⟨broadened, broadened_ok⟩
def replaced : Bool → Update smallKit := pair ⟨pythonOnly, pythonOnly_ok⟩ ⟨reactOnly, reactOnly_ok⟩
def titled : Bool → Update smallKit :=
  pair ⟨retitled, retitled_ok⟩ ⟨confirmedTitle, confirmedTitle_ok⟩

def Session.isCommitted : Session → Bool
  | committed => true
  | _ => false

theorem committed_of_isCommitted {x : Session} (h : x.isCommitted = true) : x = .committed := by
  cases x with
  | committed => rfl
  | _ => cases h

/-- What is seen of a template. -/
def Store.seen (s : Store) : List (String × Option String) × List RowId × List RowId :=
  (s.positionTemplate.map (fun r => (r.title, r.jdText)), s.stackIds 0,
    (s.competencies 0).map Prod.fst)

theorem seen_of_contents {s s' : Store} (h : s.contents = s'.contents) : s.seen = s'.seen := by
  have hrows : s.positionTemplate = s'.positionTemplate := congrArg Contents.positionTemplate h
  have hstacks : s.stackIds = s'.stackIds := congrArg Contents.stackIds h
  have hcomps : s.competencies = s'.competencies := congrArg Contents.competencies h
  unfold Store.seen
  rw [hrows, hstacks, hcomps]

/-- A schedule that both updates survive, and what neither order leaves. -/
theorem exists_anomaly (updates : Bool → Update smallKit) (schedule : List Bool)
    (seen : List (String × Option String) × List RowId × List RowId)
    (hrecord : (record (duoStep 0 updates) (Duo.begin smallStore) schedule).map (fun q =>
      ((q.2.sessions false).isCommitted && (q.2.sessions true).isCommitted, q.2.store.seen))
        = .ok (true, seen))
    (h₁ : seen ≠ (execute 0 (updates true) (execute 0 (updates false) smallStore)).seen)
    (h₂ : seen ≠ (execute 0 (updates false) (execute 0 (updates true) smallStore)).seen) :
    ∃ ts s, Run (duoStep 0 updates) (Duo.begin smallStore) ts s ∧
      (∀ w, s.sessions w = .committed) ∧ ¬ Serialisable 0 updates smallStore s.store := by
  obtain ⟨ts, s, hrun, hproj⟩ := exists_run_of_record _ schedule _ _ _ hrecord
  rw [Prod.mk.injEq, Bool.and_eq_true] at hproj
  obtain ⟨⟨hfirst, hsecond⟩, rfl⟩ := hproj
  refine ⟨ts, s, hrun, ?_, ?_⟩
  · intro w
    cases w with
    | false => exact committed_of_isCommitted hfirst
    | true => exact committed_of_isCommitted hsecond
  · rintro (hc | hc)
    · exact h₁ (seen_of_contents hc)
    · exact h₂ (seen_of_contents hc)

/-- Both updates read, and then one writes after the other: a competency is left
    without its stack. A `DELETE` that has waited leaves the stacks of the other
    update in place. A title that looked unchanged is not written. -/
theorem skew_not_serialisable : smallStore.Sound ∧
    (∃ ts s, Run (duoStep 0 skewed) (Duo.begin smallStore) ts s ∧
      (∀ w, s.sessions w = .committed) ∧ ¬ Serialisable 0 skewed smallStore s.store) ∧
    (∃ ts s, Run (duoStep 0 replaced) (Duo.begin smallStore) ts s ∧
      (∀ w, s.sessions w = .committed) ∧ ¬ Serialisable 0 replaced smallStore s.store) ∧
    (∃ ts s, Run (duoStep 0 titled) (Duo.begin smallStore) ts s ∧
      (∀ w, s.sessions w = .committed) ∧ ¬ Serialisable 0 titled smallStore s.store) := by
  refine ⟨sound_smallStore, ?_, ?_, ?_⟩
  · exact exists_anomaly skewed
      (List.replicate 4 false ++ List.replicate 4 true ++ List.replicate 4 false ++
        List.replicate 4 true)
      ([("Developer", none)], [1], [5, 6]) (by decide +kernel) (by decide +kernel)
      (by decide +kernel)
  · exact exists_anomaly replaced
      (List.replicate 4 false ++ List.replicate 4 true ++ List.replicate 3 false ++
        List.replicate 2 true ++ List.replicate 3 false ++ List.replicate 5 true)
      ([("Developer", none)], [1, 2], [6]) (by decide +kernel) (by decide +kernel)
      (by decide +kernel)
  · exact exists_anomaly titled
      (List.replicate 4 false ++ List.replicate 4 true ++ List.replicate 2 false ++
        List.replicate 2 true)
      ([("Engineer", some "B")], [1, 2], [5]) (by decide +kernel) (by decide +kernel)
      (by decide +kernel)

/-- The text and the selection may be changed at the same time. -/
def blended : Bool → Update smallKit := pair ⟨retitled, retitled_ok⟩ ⟨narrowed, narrowed_ok⟩

def blendedSchedule : List Bool :=
  List.replicate 4 false ++ List.replicate 4 true ++
    [false, true, true, false, true, true]

theorem serialisable_of_undisturbed_small :
    ∃ ts s, Run (duoStep 0 blended) (Duo.begin smallStore) ts s ∧
      ts.map Taken.event = blendedSchedule ∧
      s.store.seen = ([("Engineer", some "A")], [1], [5]) ∧
      Serialisable 0 blended smallStore s.store := by
  obtain ⟨ts, s, hrun, hevents, hproj⟩ := exists_run_of_events (duoStep 0 blended) blendedSchedule
    (Duo.begin smallStore)
    (fun q => (((q.2.sessions false).isCommitted && (q.2.sessions true).isCommitted,
      q.1.all (fun t => decide (Undisturbed 0 blended t.before t.event))), q.2.store.seen))
    ((true, true), ([("Engineer", some "A")], [1], [5])) (by decide +kernel)
  rw [Prod.mk.injEq, Prod.mk.injEq, Bool.and_eq_true] at hproj
  obtain ⟨⟨⟨hfirst, hsecond⟩, hund⟩, hseen⟩ := hproj
  refine ⟨ts, s, hrun, hevents, hseen, serialisable_of_undisturbed 0 blended sound_smallStore hrun
    (fun t ht => of_decide_eq_true (List.all_eq_true.mp hund t ht)) (fun w => ?_)⟩
  cases w with
  | false => exact committed_of_isCommitted hfirst
  | true => exact committed_of_isCommitted hsecond

end SmallUpdates

end TechScreen.Positions
