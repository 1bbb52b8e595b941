import Mathlib.Data.List.Dedup
import TechScreen.Lib.Json
import TechScreen.Lib.Run
import TechScreen.Rubric.Importer

/-!
# Position Templates

The roles that recruiters describe: a title, a level and a text, the stacks that
a role covers, and the competencies that are assessed for it, some of them as
must-haves. A template is a row of its own, and its two selections are rows of
two association tables.

A request is read by a schema that knows nothing of the database: it checks
types, lengths and the relations between the lists of one request. What is left
is checked against the rubric. An update is merged with what is stored and put
through both checks again. A request that is refused is rolled back.

## Main definitions

* `TemplateRow`, `TemplateStackRow`, `TemplateCompetencyRow`, `Store`: The tables.
* `PositionTemplateCreate`, `PositionTemplateUpdate`: The requests that the
  schemas let through.
* `readCreate`, `readUpdate`: The schemas.
* `validatePositionTemplate`: The check against the rubric.
* `createPositionTemplate`, `updatePositionTemplate`, `archivePositionTemplate`:
  The service.
* `Store.step`: The endpoints, and the growth of the rubric.

## Theorems

* `check_create_iff`: What the schema asks of a new template.
* `validate_ok_iff`: What the rubric asks of it.
* `update_cases`: What an update does.
-/

namespace TechScreen.Positions

open Lib Rubric

section Rows

inductive PositionLevel where
  | junior
  | middle
  | senior
  | techLeader
  deriving DecidableEq

def positionLevels : List (String × PositionLevel) :=
  [("Junior", .junior), ("Middle", .middle), ("Senior", .senior), ("Tech Leader", .techLeader)]

/-- A row of `position_template`. The check on the column `level` lets the four
    levels through and nothing else. -/
structure TemplateRow where
  id : RowId
  createdAt : Instant
  title : String
  level : PositionLevel
  jdText : Option String
  archivedAt : Option Instant
  createdBy : Option RowId
  deriving DecidableEq

structure TemplateStackRow where
  id : RowId
  createdAt : Instant
  positionTemplateId : RowId
  stackId : RowId
  deriving DecidableEq

structure TemplateCompetencyRow where
  id : RowId
  createdAt : Instant
  positionTemplateId : RowId
  competencyId : RowId
  mustHave : Bool
  deriving DecidableEq

/-- The tables that the service reads and writes. Identifiers are handed out from
    a count of their own. -/
structure Store where
  rubric : Rows := {}
  users : List RowId := []
  nextId : RowId := 0
  positionTemplate : List TemplateRow := []
  positionTemplateStack : List TemplateStackRow := []
  positionTemplateCompetency : List TemplateCompetencyRow := []
  deriving DecidableEq

end Rows

section Schemas

/-- How a request reads and shows an identifier. -/
structure IdKit where
  read : Json → Option RowId
  text : RowId → String

/-- Why a schema refuses a request: fields with a value of the wrong type or
    length, missing fields and unknown ones, by name; or a relation between the
    fields. -/
inductive SchemaError where
  | fields (names : List String)
  | value (message : String)
  deriving DecidableEq

/-- An optional field of a request. -/
inductive Supplied (α : Type) where
  | absent
  | null
  | value (a : α)
  deriving DecidableEq

namespace Supplied

variable {α : Type}

/-- The field is one of `model_fields_set`. -/
def isSet : Supplied α → Bool
  | absent => false
  | _ => true

/-- What the attribute is, with `None` for a field that is absent or null. -/
def value? : Supplied α → Option α
  | value a => some a
  | _ => none

end Supplied

variable (kit : IdKit)

def titleOk (title : String) : Bool := decide (1 ≤ title.length ∧ title.length ≤ 200)

/-- The name of a field that is not as it should be. -/
def flagged (name : String) (ok : Bool) : List String := if ok then [] else [name]

/-- `if c: raise e`. -/
def raiseIf {ε : Type} (c : Bool) (e : ε) : Except ε Unit := if c then .error e else .ok ()

def rejectFields (names : List String) : Except SchemaError Unit :=
  if names = [] then .ok () else .error (.fields names)

/-- A check of a field that has a value. -/
def ifGiven {α : Type} (field : Supplied α) (check : α → Except SchemaError Unit) :
    Except SchemaError Unit :=
  match field.value? with
  | none => .ok ()
  | some a => check a

/-- `_reject_duplicates`. -/
def rejectDuplicates (ids : List RowId) (field : String) : Except SchemaError Unit :=
  if ids.dedup.length = ids.length then .ok ()
  else .error (.value (field ++ " contains duplicate ids"))

/-- The subset rule on must-haves. -/
def rejectUnselected (mustHave selected : List RowId) : Except SchemaError Unit :=
  let notSelected := mustHave.filter (fun c => !selected.contains c)
  if notSelected = [] then .ok ()
  else .error (.value ("must_have_competency_ids must be a subset of competency_ids; " ++
    "not selected: " ++ showIds (notSelected.map kit.text)))

/-- The fields of a new template. -/
structure CreateFields where
  title : String
  level : PositionLevel
  jdText : Option String
  stackIds : List RowId
  competencyIds : List RowId
  mustHaveCompetencyIds : List RowId
  deriving DecidableEq

def CreateFields.check (f : CreateFields) : Except SchemaError Unit := do
  rejectFields (flagged "title" (titleOk f.title) ++
    flagged "stack_ids" (!f.stackIds.isEmpty) ++
    flagged "competency_ids" (!f.competencyIds.isEmpty))
  rejectDuplicates f.stackIds "stack_ids"
  rejectDuplicates f.competencyIds "competency_ids"
  rejectDuplicates f.mustHaveCompetencyIds "must_have_competency_ids"
  rejectUnselected kit f.mustHaveCompetencyIds f.competencyIds

/-- A new template that the schema lets through. -/
abbrev PositionTemplateCreate := {f : CreateFields // f.check kit = .ok ()}

def CreateFields.accept (f : CreateFields) : Except SchemaError (PositionTemplateCreate kit) :=
  match h : f.check kit with
  | .error e => .error e
  | .ok () => .ok ⟨f, h⟩

/-- The fields of an update. -/
structure UpdateFields where
  title : Supplied String
  level : Supplied PositionLevel
  jdText : Supplied String
  stackIds : Supplied (List RowId)
  competencyIds : Supplied (List RowId)
  mustHaveCompetencyIds : Supplied (List RowId)
  deriving DecidableEq

def UpdateFields.check (f : UpdateFields) : Except SchemaError Unit := do
  rejectFields (flagged "title" (f.title.value?.all titleOk) ++
    flagged "stack_ids" (f.stackIds.value?.all (fun ids => !ids.isEmpty)) ++
    flagged "competency_ids" (f.competencyIds.value?.all (fun ids => !ids.isEmpty)))
  ifGiven f.stackIds (fun ids => rejectDuplicates ids "stack_ids")
  ifGiven f.competencyIds (fun ids => rejectDuplicates ids "competency_ids")
  ifGiven f.mustHaveCompetencyIds (fun ids => rejectDuplicates ids "must_have_competency_ids")
  match f.competencyIds.value?, f.mustHaveCompetencyIds.value? with
  | some selected, some mustHave => rejectUnselected kit mustHave selected
  | _, _ => .ok ()

/-- An update that the schema lets through. -/
abbrev PositionTemplateUpdate := {f : UpdateFields // f.check kit = .ok ()}

def UpdateFields.accept (f : UpdateFields) : Except SchemaError (PositionTemplateUpdate kit) :=
  match h : f.check kit with
  | .error e => .error e
  | .ok () => .ok ⟨f, h⟩

end Schemas

section Bodies
variable (kit : IdKit)

def asText : Json → Option String
  | .str s => some s
  | _ => none

def asLevel (j : Json) : Option PositionLevel :=
  (asText j).bind (fun name => positionLevels.lookup name)

def asIds : Json → Option (List RowId)
  | .arr items => items.mapM kit.read
  | _ => none

/-- A field that may be left out, or be null. `none` says that it has a value of
    the wrong type. -/
def readSupplied {α : Type} (read : Json → Option α) (body : Json) (key : String) :
    Option (Supplied α) :=
  match body.get? key with
  | none => some .absent
  | some .null => some .null
  | some v => (read v).map .value

def templateKeys : List String :=
  ["title", "level", "jd_text", "stack_ids", "competency_ids", "must_have_competency_ids"]

/-- The keys that no field has. What is not an object at all is refused as a
    whole. -/
def extraKeys : Json → List String
  | .obj fields => (fields.map Prod.fst).filter (fun k => !templateKeys.contains k)
  | _ => ["body"]

/-- The body of a `POST`. -/
def readCreate (body : Json) : Except SchemaError (PositionTemplateCreate kit) :=
  let title := (body.get? "title").bind asText
  let level := (body.get? "level").bind asLevel
  let jdText := readSupplied asText body "jd_text"
  let stackIds := (body.get? "stack_ids").bind (asIds kit)
  let competencyIds := (body.get? "competency_ids").bind (asIds kit)
  let mustHave := match body.get? "must_have_competency_ids" with
    | none => some []
    | some v => asIds kit v
  let bad := flagged "title" (title.any titleOk) ++ flagged "level" level.isSome ++
    flagged "jd_text" jdText.isSome ++
    flagged "stack_ids" (stackIds.any (fun ids => !ids.isEmpty)) ++
    flagged "competency_ids" (competencyIds.any (fun ids => !ids.isEmpty)) ++
    flagged "must_have_competency_ids" mustHave.isSome ++ extraKeys body
  match bad, title, level, jdText, stackIds, competencyIds, mustHave with
  | [], some title, some level, some jdText, some stackIds, some competencyIds, some mustHave =>
      CreateFields.accept kit ⟨title, level, jdText.value?, stackIds, competencyIds, mustHave⟩
  | _, _, _, _, _, _, _ => .error (.fields bad)

/-- The body of a `PATCH`. -/
def readUpdate (body : Json) : Except SchemaError (PositionTemplateUpdate kit) :=
  let title := readSupplied asText body "title"
  let level := readSupplied asLevel body "level"
  let jdText := readSupplied asText body "jd_text"
  let stackIds := readSupplied (asIds kit) body "stack_ids"
  let competencyIds := readSupplied (asIds kit) body "competency_ids"
  let mustHave := readSupplied (asIds kit) body "must_have_competency_ids"
  let bad := flagged "title" (title.any (fun t => t.value?.all titleOk)) ++
    flagged "level" level.isSome ++ flagged "jd_text" jdText.isSome ++
    flagged "stack_ids" (stackIds.any (fun ids => ids.value?.all (fun l => !l.isEmpty))) ++
    flagged "competency_ids"
      (competencyIds.any (fun ids => ids.value?.all (fun l => !l.isEmpty))) ++
    flagged "must_have_competency_ids" mustHave.isSome ++ extraKeys body
  match bad, title, level, jdText, stackIds, competencyIds, mustHave with
  | [], some title, some level, some jdText, some stackIds, some competencyIds, some mustHave =>
      UpdateFields.accept kit ⟨title, level, jdText, stackIds, competencyIds, mustHave⟩
  | _, _, _, _, _, _, _ => .error (.fields bad)

end Bodies

section RubricCheck
variable (kit : IdKit)

/-- `PositionTemplateValidationError`, with a text of its own or with what the
    schema had to object. -/
inductive ValidationError where
  | message (text : String)
  | schema (e : SchemaError)
  deriving DecidableEq

def stacksExist (rubric : Rows) (ids : List RowId) : List RowId :=
  (rubric.stack.filter (fun r => ids.contains r.id)).map StackRow.id

def competenciesExist (rubric : Rows) (ids : List RowId) : List RowId :=
  (rubric.competency.filter (fun r => ids.contains r.id)).map CompetencyRow.id

/-- The competencies whose block is in one of the stacks. -/
def competenciesInStacks (rubric : Rows) (cids sids : List RowId) : List RowId :=
  rubric.competency.flatMap (fun c =>
    (rubric.competencyBlock.filter (fun cb =>
      c.competencyBlockId == cb.id && cids.contains c.id && sids.contains cb.stackId)).map
        (fun _ => c.id))

/-- The members of one list that another one lacks. -/
def without (ids found : List RowId) : List RowId := ids.filter (fun id => !found.contains id)

/-- The stacks exist, and the competencies belong to them. -/
def validatePositionTemplate (rubric : Rows) (payload : PositionTemplateCreate kit) :
    Except ValidationError Unit :=
  let stackIds := payload.val.stackIds
  let competencyIds := payload.val.competencyIds
  let missingStacks := without stackIds (stacksExist rubric stackIds)
  let invalid := without competencyIds (competenciesInStacks rubric competencyIds stackIds)
  if missingStacks ≠ [] then
    .error (.message ("unknown stack id(s): " ++ showIds (missingStacks.map kit.text)))
  else if invalid ≠ [] then
    let unknown := without invalid (competenciesExist rubric competencyIds)
    let wrongStack := without invalid unknown
    .error (.message ("; ".intercalate (
      (if unknown = [] then []
        else ["unknown competency id(s): " ++ showIds (unknown.map kit.text)]) ++
      (if wrongStack = [] then []
        else ["competency id(s) not in any selected stack: " ++
          showIds (wrongStack.map kit.text)]))))
  else .ok ()

end RubricCheck

section Service
variable (kit : IdKit)

/-- Why a request fails that a schema has let through. -/
inductive Failure where
  | validation (e : ValidationError)
  | foreignKey
  | characterNotInRepertoire
  deriving DecidableEq

structure PositionTemplateRead where
  id : RowId
  title : String
  level : PositionLevel
  jdText : Option String
  archivedAt : Option Instant
  createdAt : Instant
  createdBy : Option RowId
  stackIds : List RowId
  competencies : List (RowId × Bool)
  deriving DecidableEq

structure Selection where
  stackIds : List RowId
  competencyIds : List RowId
  mustHaveIds : List RowId
  deriving DecidableEq

namespace Store

/-- `session.get` by the primary key. -/
def template? (s : Store) (id : RowId) : Option TemplateRow :=
  s.positionTemplate.find? (fun r => r.id = id)

def stackIds (s : Store) (template : RowId) : List RowId :=
  (s.positionTemplateStack.filter (fun r => r.positionTemplateId = template)).map
    TemplateStackRow.stackId

/-- The competencies of a template, with the flag of each. -/
def competencies (s : Store) (template : RowId) : List (RowId × Bool) :=
  (s.positionTemplateCompetency.filter (fun r => r.positionTemplateId = template)).map
    (fun r => (r.competencyId, r.mustHave))

/-- `_assemble_read`. -/
def assembleRead (s : Store) (tmpl : TemplateRow) : PositionTemplateRead where
  id := tmpl.id
  title := tmpl.title
  level := tmpl.level
  jdText := tmpl.jdText
  archivedAt := tmpl.archivedAt
  createdAt := tmpl.createdAt
  createdBy := tmpl.createdBy
  stackIds := s.stackIds tmpl.id
  competencies := s.competencies tmpl.id

/-- `_current_selection`. -/
def currentSelection (s : Store) (template : RowId) : Selection where
  stackIds := s.stackIds template
  competencyIds := (s.competencies template).map Prod.fst
  mustHaveIds := ((s.competencies template).filter Prod.snd).map Prod.fst

def insertStack (now : Instant) (template : RowId) (s : Store) (stackId : RowId) : Store :=
  { s with
    nextId := s.nextId + 1
    positionTemplateStack := s.positionTemplateStack ++ [⟨s.nextId, now, template, stackId⟩] }

def insertCompetency (now : Instant) (template : RowId) (mustHave : List RowId) (s : Store)
    (competencyId : RowId) : Store :=
  { s with
    nextId := s.nextId + 1
    positionTemplateCompetency := s.positionTemplateCompetency ++
      [⟨s.nextId, now, template, competencyId, mustHave.contains competencyId⟩] }

def deleteStacks (template : RowId) (s : Store) : Store :=
  { s with
    positionTemplateStack :=
      s.positionTemplateStack.filter (fun r => r.positionTemplateId ≠ template) }

def deleteCompetencies (template : RowId) (s : Store) : Store :=
  { s with
    positionTemplateCompetency :=
      s.positionTemplateCompetency.filter (fun r => r.positionTemplateId ≠ template) }

/-- Set the three columns that an update may change. -/
def setColumns (template : RowId) (f : CreateFields) (s : Store) : Store :=
  { s with
    positionTemplate := s.positionTemplate.map (fun r =>
      if r.id = template then { r with title := f.title, level := f.level, jdText := f.jdText }
      else r) }

end Store

/-- A text column takes any text without a zero character. -/
def storable (text : String) : Bool := !text.toList.contains '\x00'

def CreateFields.storable (f : CreateFields) : Bool :=
  Positions.storable f.title && f.jdText.all Positions.storable

/-- The columns that an update writes are among those that it names. -/
def UpdateFields.storable (f : UpdateFields) : Bool :=
  f.title.value?.all Positions.storable && f.jdText.value?.all Positions.storable

def createPositionTemplate (payload : PositionTemplateCreate kit) (createdBy : Option RowId)
    (now : Instant) (s : Store) : Except Failure (PositionTemplateRead × Store) := do
  (validatePositionTemplate kit s.rubric payload).mapError .validation
  let tmpl : TemplateRow :=
    { id := s.nextId, createdAt := now, title := payload.val.title, level := payload.val.level,
      jdText := payload.val.jdText, archivedAt := none, createdBy := createdBy }
  raiseIf (!payload.val.storable) .characterNotInRepertoire
  raiseIf (!createdBy.all (fun id => s.users.contains id)) .foreignKey
  let s := { s with nextId := s.nextId + 1, positionTemplate := s.positionTemplate ++ [tmpl] }
  let s := payload.val.stackIds.foldl (Store.insertStack now tmpl.id) s
  let s := payload.val.competencyIds.foldl
    (Store.insertCompetency now tmpl.id payload.val.mustHaveCompetencyIds) s
  return (s.assembleRead tmpl, s)

/-- What an update would leave. -/
def resultingTemplate (tmpl : TemplateRow) (cur : Selection) (patch : UpdateFields) :
    CreateFields where
  title := patch.title.value?.getD tmpl.title
  level := patch.level.value?.getD tmpl.level
  jdText := if patch.jdText.isSet then patch.jdText.value? else tmpl.jdText
  stackIds := patch.stackIds.value?.getD cur.stackIds
  competencyIds := patch.competencyIds.value?.getD cur.competencyIds
  mustHaveCompetencyIds :=
    if patch.competencyIds.value?.isSome then patch.mustHaveCompetencyIds.value?.getD []
    else cur.mustHaveIds

/-- The update merged with what is stored, if it passes the checks. -/
def mergeUpdate (rubric : Rows) (tmpl : TemplateRow) (cur : Selection)
    (patch : PositionTemplateUpdate kit) : Except ValidationError (PositionTemplateCreate kit) := do
  raiseIf (patch.val.mustHaveCompetencyIds.isSet && patch.val.competencyIds.value?.isNone)
    (.message "must_have_competency_ids requires competency_ids in the same update")
  let resulting ← (CreateFields.accept kit (resultingTemplate tmpl cur patch.val)).mapError .schema
  validatePositionTemplate kit rubric resulting
  return resulting

/-- The writes of an update. Only the selections that it names are replaced. -/
def applyUpdate (id : RowId) (patch : UpdateFields) (resulting : CreateFields) (now : Instant)
    (s : Store) : Store :=
  let s := s.setColumns id resulting
  let s := if patch.stackIds.value?.isSome then
      resulting.stackIds.foldl (Store.insertStack now id) (s.deleteStacks id)
    else s
  if patch.competencyIds.value?.isSome then
    resulting.competencyIds.foldl
      (Store.insertCompetency now id resulting.mustHaveCompetencyIds) (s.deleteCompetencies id)
  else s

def updatePositionTemplate (id : RowId) (patch : PositionTemplateUpdate kit) (now : Instant)
    (s : Store) : Except Failure (Option PositionTemplateRead × Store) :=
  match s.template? id with
  | none => .ok (none, s)
  | some tmpl => do
      let resulting ←
        (mergeUpdate kit s.rubric tmpl (s.currentSelection id) patch).mapError .validation
      raiseIf (!patch.val.storable) .characterNotInRepertoire
      let s := applyUpdate id patch.val resulting.val now s
      return ((s.template? id).map s.assembleRead, s)

/-- Soft deletion: the row stays, with the time at which it was archived. -/
def archivePositionTemplate (id : RowId) (now : Instant) (s : Store) :
    Option PositionTemplateRead × Store :=
  match s.template? id with
  | none => (none, s)
  | some _ =>
      let s := { s with
        positionTemplate := s.positionTemplate.map (fun r =>
          if r.id = id then { r with archivedAt := r.archivedAt.or (some now) } else r) }
      ((s.template? id).map s.assembleRead, s)

end Service

section Endpoints
variable (kit : IdKit)

/-- A request, or rows that are added to the rubric or to the users. -/
inductive Request where
  | create (body : Json) (createdBy : Option RowId) (now : Instant)
  | update (id : RowId) (body : Json) (now : Instant)
  | archive (id : RowId) (now : Instant)
  | grow (rubric : Rows) (users : List RowId)

inductive Response where
  | created (template : PositionTemplateRead)
  | ok (template : PositionTemplateRead)
  | notFound
  | unprocessable (e : ValidationError)
  | serverError
  deriving DecidableEq

/-- The status of a response. -/
def Response.status : Response → Nat
  | created _ => 201
  | ok _ => 200
  | notFound => 404
  | unprocessable _ => 422
  | serverError => 500

def Failure.response : Failure → Response
  | .validation e => .unprocessable e
  | _ => .serverError

def found : Option PositionTemplateRead → Response
  | none => .notFound
  | some template => .ok template

/-- One request. What it wrote is kept if it gets through, and rolled back if it
    raises. -/
def Store.step : Step Store Request Response Empty
  | s, .create body createdBy now =>
      match readCreate kit body with
      | .error e => .ok (s, [.unprocessable (.schema e)])
      | .ok payload =>
          match createPositionTemplate kit payload createdBy now s with
          | .error f => .ok (s, [f.response])
          | .ok (template, s') => .ok (s', [.created template])
  | s, .update id body now =>
      match readUpdate kit body with
      | .error e => .ok (s, [.unprocessable (.schema e)])
      | .ok patch =>
          match updatePositionTemplate kit id patch now s with
          | .error f => .ok (s, [f.response])
          | .ok (template, s') => .ok (s', [found template])
  | s, .archive id now =>
      let (template, s') := archivePositionTemplate id now s
      .ok (s', [found template])
  | s, .grow rubric users =>
      .ok ({ s with rubric := s.rubric ++ rubric, users := s.users ++ users }, [])

end Endpoints

section Checks
variable (kit : IdKit)

theorem flagged_eq_nil_iff (name : String) (ok : Bool) : flagged name ok = [] ↔ ok = true := by
  cases ok <;> simp [flagged]

theorem rejectFields_ok_iff (names : List String) : rejectFields names = .ok () ↔ names = [] := by
  unfold rejectFields
  split <;> simp_all

theorem rejectDuplicates_ok_iff (ids : List RowId) (field : String) :
    rejectDuplicates ids field = .ok () ↔ ids.Nodup := by
  unfold rejectDuplicates
  split
  · next h => exact iff_of_true rfl (List.dedup_eq_self.mp (ids.dedup_sublist.eq_of_length h))
  · next h =>
      refine iff_of_false (fun hc => by cases hc) (fun hnodup => h ?_)
      rw [List.dedup_eq_self.mpr hnodup]

theorem rejectUnselected_ok_iff (mustHave selected : List RowId) :
    rejectUnselected kit mustHave selected = .ok () ↔ ∀ c ∈ mustHave, c ∈ selected := by
  unfold rejectUnselected
  dsimp only
  split
  · next h =>
      refine iff_of_true rfl (fun c hc => ?_)
      have := List.filter_eq_nil_iff.mp h c hc
      simpa using this
  · next h =>
      refine iff_of_false (fun hc => by cases hc) (fun hall => h ?_)
      exact List.filter_eq_nil_iff.mpr (fun c hc => by simp [hall c hc])

/-- One computation after another. -/
theorem bind_ok_iff {ε α β : Type} (x : Except ε α) (f : α → Except ε β) (b : β) :
    (x >>= f) = .ok b ↔ ∃ a, x = .ok a ∧ f a = .ok b := by
  cases x with
  | error e => exact iff_of_false (fun h => by cases h) (fun ⟨_, h, _⟩ => by cases h)
  | ok a =>
      constructor
      · intro h
        exact ⟨a, rfl, h⟩
      · rintro ⟨a', ha, h⟩
        cases ha
        exact h

/-- One check and then the rest. -/
theorem andThen_ok_iff {ε β : Type} (x : Except ε Unit) (f : Unit → Except ε β) (b : β) :
    (x >>= f) = .ok b ↔ x = .ok () ∧ f () = .ok b := by
  rw [bind_ok_iff]
  exact ⟨fun ⟨(), hx, hf⟩ => ⟨hx, hf⟩, fun ⟨hx, hf⟩ => ⟨(), hx, hf⟩⟩

theorem mapError_ok_iff {ε ε' α : Type} (x : Except ε α) (f : ε → ε') (a : α) :
    x.mapError f = .ok a ↔ x = .ok a := by
  cases x with
  | error e => exact iff_of_false (fun h => by cases h) (fun h => by cases h)
  | ok b => exact ⟨fun h => by cases h; rfl, fun h => by cases h; rfl⟩

/-- What the schema asks of the fields of a template. -/
structure CreateFields.Valid (f : CreateFields) : Prop where
  title : 1 ≤ f.title.length ∧ f.title.length ≤ 200
  stackIds_ne : f.stackIds ≠ []
  stackIds_nodup : f.stackIds.Nodup
  competencyIds_ne : f.competencyIds ≠ []
  competencyIds_nodup : f.competencyIds.Nodup
  mustHave_nodup : f.mustHaveCompetencyIds.Nodup
  mustHave_selected : ∀ c ∈ f.mustHaveCompetencyIds, c ∈ f.competencyIds

theorem check_create_iff (f : CreateFields) : f.check kit = .ok () ↔ f.Valid := by
  unfold CreateFields.check
  simp only [andThen_ok_iff, rejectFields_ok_iff, rejectDuplicates_ok_iff,
    rejectUnselected_ok_iff, List.append_eq_nil_iff, flagged_eq_nil_iff, titleOk,
    decide_eq_true_eq, Bool.not_eq_true', List.isEmpty_eq_false_iff]
  constructor
  · rintro ⟨⟨⟨ht, hs⟩, hc⟩, hsd, hcd, hmd, hm⟩
    exact ⟨ht, hs, hsd, hc, hcd, hmd, hm⟩
  · intro h
    exact ⟨⟨⟨h.title, h.stackIds_ne⟩, h.competencyIds_ne⟩, h.stackIds_nodup,
      h.competencyIds_nodup, h.mustHave_nodup, h.mustHave_selected⟩

theorem accept_create_ok_iff (f : CreateFields) (payload : PositionTemplateCreate kit) :
    CreateFields.accept kit f = .ok payload ↔ payload.val = f := by
  unfold CreateFields.accept
  split
  · next e h =>
      refine iff_of_false (fun hc => by cases hc) (fun heq => ?_)
      have := payload.property
      rw [heq, h] at this
      cases this
  · next h =>
      constructor
      · intro hok
        cases hok
        rfl
      · intro heq
        exact congrArg Except.ok (Subtype.ext heq.symm)

/-- A competency of one of the stacks, through its block. -/
def BelongsTo (rubric : Rows) (stackIds : List RowId) (competencyId : RowId) : Prop :=
  ∃ c ∈ rubric.competency, c.id = competencyId ∧
    ∃ cb ∈ rubric.competencyBlock, c.competencyBlockId = cb.id ∧ cb.stackId ∈ stackIds

theorem mem_stacksExist_iff (rubric : Rows) (ids : List RowId) (id : RowId) :
    id ∈ stacksExist rubric ids ↔ id ∈ ids ∧ ∃ r ∈ rubric.stack, r.id = id := by
  unfold stacksExist
  simp only [List.mem_map, List.mem_filter, List.contains_iff_mem]
  constructor
  · rintro ⟨r, ⟨hr, hin⟩, rfl⟩
    exact ⟨hin, r, hr, rfl⟩
  · rintro ⟨hin, r, hr, rfl⟩
    exact ⟨r, ⟨hr, hin⟩, rfl⟩

theorem mem_competenciesInStacks_iff (rubric : Rows) (cids sids : List RowId) (id : RowId) :
    id ∈ competenciesInStacks rubric cids sids ↔ id ∈ cids ∧ BelongsTo rubric sids id := by
  unfold competenciesInStacks BelongsTo
  simp only [List.mem_flatMap, List.mem_map, List.mem_filter, Bool.and_eq_true, beq_iff_eq,
    List.contains_iff_mem]
  constructor
  · rintro ⟨c, hc, cb, ⟨hcb, ⟨hblock, hin⟩, hsid⟩, rfl⟩
    exact ⟨hin, c, hc, rfl, cb, hcb, hblock, hsid⟩
  · rintro ⟨hin, c, hc, rfl, cb, hcb, hblock, hsid⟩
    exact ⟨c, hc, cb, ⟨hcb, ⟨hblock, hin⟩, hsid⟩, rfl⟩

theorem without_eq_nil_iff (ids found : List RowId) :
    without ids found = [] ↔ ∀ id ∈ ids, id ∈ found := by
  unfold without
  simp only [List.filter_eq_nil_iff, Bool.not_eq_true', Bool.not_eq_false,
    List.contains_iff_mem]

/-- What the rubric asks of the fields of a template. -/
structure CreateFields.Fits (rubric : Rows) (f : CreateFields) : Prop where
  stackIds_exist : ∀ id ∈ f.stackIds, ∃ r ∈ rubric.stack, r.id = id
  competencyIds_belong : ∀ id ∈ f.competencyIds, BelongsTo rubric f.stackIds id

theorem validate_ok_iff (rubric : Rows) (payload : PositionTemplateCreate kit) :
    validatePositionTemplate kit rubric payload = .ok () ↔ payload.val.Fits rubric := by
  have hstacks := without_eq_nil_iff payload.val.stackIds
    (stacksExist rubric payload.val.stackIds)
  have hcomps := without_eq_nil_iff payload.val.competencyIds
    (competenciesInStacks rubric payload.val.competencyIds payload.val.stackIds)
  simp only [mem_stacksExist_iff] at hstacks
  simp only [mem_competenciesInStacks_iff] at hcomps
  unfold validatePositionTemplate
  dsimp only
  split
  · next h =>
      refine iff_of_false (fun hc => by cases hc) (fun hfits => h (hstacks.mpr ?_))
      exact fun id hid => ⟨hid, hfits.stackIds_exist id hid⟩
  · next h =>
      split
      · next h' =>
          refine iff_of_false (fun hc => by cases hc) (fun hfits => h' (hcomps.mpr ?_))
          exact fun id hid => ⟨hid, hfits.competencyIds_belong id hid⟩
      · next h' =>
          refine iff_of_true rfl ⟨fun id hid => ?_, fun id hid => ?_⟩
          · exact (hstacks.mp (not_not.mp h) id hid).2
          · exact (hcomps.mp (not_not.mp h') id hid).2

end Checks

section Writes
variable (now : Instant) (template : RowId)

/-- What no insert touches is untouched by many. -/
theorem foldl_keeps {σ α β : Type} (insert : σ → α → σ) (part : σ → β)
    (h : ∀ s a, part (insert s a) = part s) (l : List α) (s : σ) :
    part (l.foldl insert s) = part s := by
  induction l generalizing s with
  | nil => rfl
  | cons a l ih => rw [List.foldl_cons, ih, h]

/-- Inserted rows come after the others. -/
theorem foldl_appends {σ α β : Type} (insert : σ → α → σ) (part : σ → List β) (row : α → List β)
    (h : ∀ s a, part (insert s a) = part s ++ row a) (l : List α) (s : σ) :
    part (l.foldl insert s) = part s ++ l.flatMap row := by
  induction l generalizing s with
  | nil => rw [List.foldl_nil, List.flatMap_nil, List.append_nil]
  | cons a l ih => rw [List.foldl_cons, ih, h, List.flatMap_cons, List.append_assoc]

namespace Store

variable (s : Store) (ids : List RowId)

theorem stackIds_insertStack (id u : RowId) :
    (insertStack now template s id).stackIds u
      = s.stackIds u ++ if template = u then [id] else [] := by
  unfold stackIds insertStack
  rw [List.filter_append, List.map_append, List.filter_singleton]
  by_cases h : template = u
  · simp [h]
  · simp [h]

theorem competencies_insertCompetency (must : List RowId) (id u : RowId) :
    (insertCompetency now template must s id).competencies u
      = s.competencies u ++ if template = u then [(id, must.contains id)] else [] := by
  unfold competencies insertCompetency
  rw [List.filter_append, List.map_append, List.filter_singleton]
  by_cases h : template = u
  · simp [h]
  · simp [h]

theorem stackIds_insertStacks (u : RowId) :
    (ids.foldl (insertStack now template) s).stackIds u
      = s.stackIds u ++ if template = u then ids else [] := by
  rw [foldl_appends _ (fun s => s.stackIds u) (fun id => if template = u then [id] else [])
    (fun s id => stackIds_insertStack now template s id u)]
  by_cases h : template = u
  · simp [h, List.flatMap_singleton']
  · simp [h]

theorem competencies_insertCompetencies (must : List RowId) (u : RowId) :
    (ids.foldl (insertCompetency now template must) s).competencies u
      = s.competencies u ++
        if template = u then ids.map (fun c => (c, must.contains c)) else [] := by
  rw [foldl_appends _ (fun s => s.competencies u)
    (fun id => if template = u then [(id, must.contains id)] else [])
    (fun s id => competencies_insertCompetency now template s must id u)]
  by_cases h : template = u
  · simp only [h, if_true, ← List.map_eq_flatMap]
  · simp [h]

/-- The selection that a template has after its stacks were replaced. -/
theorem stackIds_replaceStacks :
    (ids.foldl (insertStack now template) (s.deleteStacks template)).stackIds template = ids := by
  rw [stackIds_insertStacks, if_pos rfl]
  have hnone : (s.deleteStacks template).stackIds template = [] := by
    unfold stackIds deleteStacks
    rw [List.map_eq_nil_iff, List.filter_filter, List.filter_eq_nil_iff]
    simp
  rw [hnone, List.nil_append]

theorem competencies_replaceCompetencies (must : List RowId) :
    (ids.foldl (insertCompetency now template must)
        (s.deleteCompetencies template)).competencies template
      = ids.map (fun c => (c, must.contains c)) := by
  rw [competencies_insertCompetencies, if_pos rfl]
  have hnone : (s.deleteCompetencies template).competencies template = [] := by
    unfold competencies deleteCompetencies
    rw [List.map_eq_nil_iff, List.filter_filter, List.filter_eq_nil_iff]
    simp
  rw [hnone, List.nil_append]

end Store

end Writes

section Updates
variable (kit : IdKit) {id : RowId} {now : Instant} {s s' : Store}

/-- A row with the changes of an update. -/
def UpdateFields.patched (patch : UpdateFields) (r : TemplateRow) : TemplateRow :=
  { r with
    title := patch.title.value?.getD r.title
    level := patch.level.value?.getD r.level
    jdText := if patch.jdText.isSet then patch.jdText.value? else r.jdText }

/-- Nothing is different but what the fields of an update name: the columns, the
    stacks, and the competencies together with their flags. -/
structure OnlyNamed (patch : UpdateFields) (id : RowId) (s s' : Store) : Prop where
  rubric : s'.rubric = s.rubric
  users : s'.users = s.users
  columns : s'.positionTemplate
    = s.positionTemplate.map (fun r => if r.id = id then patch.patched r else r)
  otherStacks : s'.positionTemplateStack.filter (fun r => r.positionTemplateId ≠ id)
    = s.positionTemplateStack.filter (fun r => r.positionTemplateId ≠ id)
  otherCompetencies : s'.positionTemplateCompetency.filter (fun r => r.positionTemplateId ≠ id)
    = s.positionTemplateCompetency.filter (fun r => r.positionTemplateId ≠ id)
  ownStacks : match patch.stackIds.value? with
    | none => s'.positionTemplateStack = s.positionTemplateStack
    | some ids => s'.stackIds id = ids
  ownCompetencies : match patch.competencyIds.value? with
    | none => s'.positionTemplateCompetency = s.positionTemplateCompetency
    | some ids => s'.competencies id
        = ids.map (fun c => (c, (patch.mustHaveCompetencyIds.value?.getD []).contains c))

/-- A merge that gets through has passed both checks. -/
theorem mergeUpdate_ok {rubric : Rows} {tmpl : TemplateRow} {cur : Selection}
    {patch : PositionTemplateUpdate kit} {resulting : PositionTemplateCreate kit}
    (h : mergeUpdate kit rubric tmpl cur patch = .ok resulting) :
    resulting.val = resultingTemplate tmpl cur patch.val ∧ resulting.val.Valid ∧
      resulting.val.Fits rubric := by
  unfold mergeUpdate at h
  simp only [bind_ok_iff, mapError_ok_iff, accept_create_ok_iff] at h
  obtain ⟨_, -, payload, hval, ⟨⟩, hfits, hpure⟩ := h
  cases hpure
  exact ⟨hval, (check_create_iff kit _).mp resulting.property, (validate_ok_iff kit _ _).mp hfits⟩

/-- An update that raises nothing finds no template, or passes both checks on what
    it would leave and writes just that. -/
theorem update_cases {patch : PositionTemplateUpdate kit} {r : Option PositionTemplateRead}
    (h : updatePositionTemplate kit id patch now s = .ok (r, s')) :
    (s.template? id = none ∧ r = none ∧ s' = s) ∨
      ∃ tmpl, s.template? id = some tmpl ∧
        (resultingTemplate tmpl (s.currentSelection id) patch.val).Valid ∧
        (resultingTemplate tmpl (s.currentSelection id) patch.val).Fits s.rubric ∧
        s' = applyUpdate id patch.val (resultingTemplate tmpl (s.currentSelection id) patch.val)
          now s := by
  unfold updatePositionTemplate at h
  cases ht : s.template? id with
  | none =>
      rw [ht] at h
      cases h
      exact .inl ⟨rfl, rfl, rfl⟩
  | some tmpl =>
      simp only [ht, bind_ok_iff, mapError_ok_iff] at h
      obtain ⟨resulting, hmerge, _, -, hpure⟩ := h
      obtain ⟨hval, hvalid, hfits⟩ := mergeUpdate_ok kit hmerge
      rw [hval] at hvalid hfits hpure
      cases hpure
      exact .inr ⟨tmpl, rfl, hvalid, hfits, rfl⟩

end Updates

end TechScreen.Positions
