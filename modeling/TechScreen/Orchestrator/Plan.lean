import TechScreen.Lib.Json

/-!
# The Interview Plan

The plan the orchestrator routes over, and the validation of a raw payload
into it. The bounds that the machine relies on (at least one competency, at
least one seed question in each, positive budgets) are fields, so a plan that
exists is a plan that was validated.

`PlanSnapshot.validatePlan` reads a payload field by field. How integers and
strings are coerced is left to `Lib.Scalars`; which fields are required, which
carry a default and which bounds they obey is fixed here. Keys outside the
shape are tolerated, as the source tolerates them.

## Main definitions

* `NonEmptyStr`: A string of length at least one.
* `PlannedCompetency`: One competency of the plan.
* `PlannedCompetency.seedQuestion`: A seed question by position.
* `PlannedCompetency.probeBranch`: A probe branch by position.
* `PlanSnapshot`: The plan.
* `PlanSnapshot.validatePlan`: Validating a raw payload.
* `PlanSnapshot.competency`: A competency by position.

## Theorems

* `PlanSnapshot.competency_eq_some_iff`: Which positions hold a competency.
* `PlannedCompetency.seedQuestion_eq_none_iff`: Which positions hold no seed.
-/

namespace TechScreen

open Lib

abbrev NonEmptyStr := {s : String // s ≠ ""}

/-- One competency in the plan's ordered sequence. -/
structure PlannedCompetency where
  nodeId : NonEmptyStr
  labelUk : NonEmptyStr
  targetLevel : Int
  minutes : Int
  seedQuestionsUk : List NonEmptyStr
  probeBranchesUk : List NonEmptyStr
  targetLevel_ge : 1 ≤ targetLevel
  targetLevel_le : targetLevel ≤ 5
  minutes_ge : 1 ≤ minutes
  seedQuestionsUk_ne : seedQuestionsUk ≠ []
  deriving DecidableEq

namespace PlannedCompetency

/-- Seed question `index`, or `none` when it does not exist. -/
def seedQuestion (c : PlannedCompetency) (index : Int) : Option String :=
  if index < 0 ∨ index ≥ c.seedQuestionsUk.length then none
  else c.seedQuestionsUk[index.toNat]?.map Subtype.val

/-- Probe branch `index`, or `none` for the generic fallback. -/
def probeBranch (c : PlannedCompetency) (index : Int) : Option String :=
  if index < 0 ∨ index ≥ c.probeBranchesUk.length then none
  else c.probeBranchesUk[index.toNat]?.map Subtype.val

/-- `seed_questions_uk[0]`, which the length bound makes total. -/
def firstSeed (c : PlannedCompetency) : String :=
  (c.seedQuestionsUk.head c.seedQuestionsUk_ne).val

theorem seedQuestion_eq_none_iff (c : PlannedCompetency) (index : Int) :
    c.seedQuestion index = none ↔ index < 0 ∨ c.seedQuestionsUk.length ≤ index := by
  unfold seedQuestion
  by_cases h : index < 0 ∨ index ≥ c.seedQuestionsUk.length
  · rw [if_pos h]
    exact ⟨fun _ => h, fun _ => rfl⟩
  · rw [if_neg h, Option.map_eq_none_iff, List.getElem?_eq_none_iff]
    omega

theorem seedQuestion_isSome_iff (c : PlannedCompetency) (index : Int) :
    (c.seedQuestion index).isSome ↔ 0 ≤ index ∧ index < c.seedQuestionsUk.length := by
  rw [Option.isSome_iff_ne_none, ne_eq, seedQuestion_eq_none_iff]
  omega

end PlannedCompetency

/-- The frozen interview plan. -/
structure PlanSnapshot where
  planVersion : Int
  competencies : List PlannedCompetency
  qaMinutes : Int
  sessionMaxMinutes : Int
  planVersion_ge : 1 ≤ planVersion
  competencies_ne : competencies ≠ []
  qaMinutes_ge : 0 ≤ qaMinutes
  sessionMaxMinutes_ge : 1 ≤ sessionMaxMinutes
  deriving DecidableEq

/-- Why a raw payload is not a plan. -/
inductive PlanInvalid where
  | notAnObject
  | shape
  deriving DecidableEq

section Validation
variable [Scalars]

/-- A string field with `min_length=1`. -/
def NonEmptyStr.codec : Codec NonEmptyStr where
  write s := .str s.val
  read doc := do
    let s ← Scalars.readStr doc
    if h : s ≠ "" then some ⟨s, h⟩ else none
  read_write := by
    intro s
    simp only [Scalars.readStr_str, Option.bind_eq_bind, Option.bind_some, dif_pos s.property]

/-- The fields of a competency as pydantic reads them, `probe_branches_uk`
    being empty where it is missing. -/
def PlannedCompetency.validate (raw : Json) : Option PlannedCompetency := do
  let nodeId ← required NonEmptyStr.codec "node_id" raw
  let labelUk ← required NonEmptyStr.codec "label_uk" raw
  let targetLevel ← required Codec.int "target_level" raw
  let minutes ← required Codec.int "minutes" raw
  let seeds ← required (Codec.list NonEmptyStr.codec) "seed_questions_uk" raw
  let probes ← defaulted (Codec.list NonEmptyStr.codec) [] "probe_branches_uk" raw
  if h : 1 ≤ targetLevel ∧ targetLevel ≤ 5 ∧ 1 ≤ minutes ∧ seeds ≠ [] then
    some ⟨nodeId, labelUk, targetLevel, minutes, seeds, probes, h.1, h.2.1, h.2.2.1, h.2.2.2⟩
  else none

/-- `model_dump(mode="json")` of a competency. -/
def PlannedCompetency.dump (c : PlannedCompetency) : Json :=
  .obj [("node_id", NonEmptyStr.codec.write c.nodeId),
    ("label_uk", NonEmptyStr.codec.write c.labelUk),
    ("target_level", Codec.int.write c.targetLevel),
    ("minutes", Codec.int.write c.minutes),
    ("seed_questions_uk", (Codec.list NonEmptyStr.codec).write c.seedQuestionsUk),
    ("probe_branches_uk", (Codec.list NonEmptyStr.codec).write c.probeBranchesUk)]

theorem PlannedCompetency.validate_dump (c : PlannedCompetency) :
    PlannedCompetency.validate c.dump = some c := by
  have hb : 1 ≤ c.targetLevel ∧ c.targetLevel ≤ 5 ∧ 1 ≤ c.minutes ∧ c.seedQuestionsUk ≠ [] :=
    ⟨c.targetLevel_ge, c.targetLevel_le, c.minutes_ge, c.seedQuestionsUk_ne⟩
  dsimp only [validate, dump, required, defaulted, Json.get?, List.lookup_cons, String.reduceBEq]
  simp only [Option.bind_eq_bind, Option.bind_some, Codec.read_write, dif_pos hb]

def PlannedCompetency.codec : Codec PlannedCompetency :=
  ⟨PlannedCompetency.dump, PlannedCompetency.validate, PlannedCompetency.validate_dump⟩

/-- The fields of a plan as pydantic reads them. -/
def PlanSnapshot.modelValidate (raw : Json) : Option PlanSnapshot := do
  let planVersion ← required Codec.int "plan_version" raw
  let competencies ← required (Codec.list PlannedCompetency.codec) "competencies" raw
  let qaMinutes ← required Codec.int "qa_minutes" raw
  let sessionMaxMinutes ← required Codec.int "session_max_minutes" raw
  if h : 1 ≤ planVersion ∧ competencies ≠ [] ∧ 0 ≤ qaMinutes ∧ 1 ≤ sessionMaxMinutes then
    some ⟨planVersion, competencies, qaMinutes, sessionMaxMinutes, h.1, h.2.1, h.2.2.1, h.2.2.2⟩
  else none

/-- Validate a raw plan payload into the typed snapshot. -/
def PlanSnapshot.validatePlan (raw : Json) : Except PlanInvalid PlanSnapshot :=
  match raw with
  | .obj _ =>
      match PlanSnapshot.modelValidate raw with
      | some plan => .ok plan
      | none => .error .shape
  | _ => .error .notAnObject

/-- `plan_payload`: the plan back in its JSON-object form. -/
def PlanSnapshot.planPayload (p : PlanSnapshot) : Json :=
  .obj [("plan_version", Codec.int.write p.planVersion),
    ("competencies", (Codec.list PlannedCompetency.codec).write p.competencies),
    ("qa_minutes", Codec.int.write p.qaMinutes),
    ("session_max_minutes", Codec.int.write p.sessionMaxMinutes)]

/-- `validate_plan` accepts what `plan_payload` writes, as the same plan. -/
theorem PlanSnapshot.modelValidate_planPayload (p : PlanSnapshot) :
    PlanSnapshot.modelValidate p.planPayload = some p := by
  have hb : 1 ≤ p.planVersion ∧ p.competencies ≠ [] ∧ 0 ≤ p.qaMinutes ∧
      1 ≤ p.sessionMaxMinutes :=
    ⟨p.planVersion_ge, p.competencies_ne, p.qaMinutes_ge, p.sessionMaxMinutes_ge⟩
  dsimp only [modelValidate, planPayload, required, Json.get?, List.lookup_cons, String.reduceBEq]
  simp only [Option.bind_eq_bind, Option.bind_some, Codec.read_write, dif_pos hb]

def PlanSnapshot.codec : Codec PlanSnapshot :=
  ⟨PlanSnapshot.planPayload, PlanSnapshot.modelValidate, PlanSnapshot.modelValidate_planPayload⟩

end Validation

namespace PlanSnapshot

/-- Competency `index`, or `none` when the sequence is done. -/
def competency (p : PlanSnapshot) (index : Int) : Option PlannedCompetency :=
  if index < 0 ∨ index ≥ p.competencies.length then none else p.competencies[index.toNat]?

/-- `competencies[0]`, which the length bound makes total. -/
def firstCompetency (p : PlanSnapshot) : PlannedCompetency :=
  p.competencies.head p.competencies_ne

theorem competency_eq_some_iff (p : PlanSnapshot) (index : Int) (c : PlannedCompetency) :
    p.competency index = some c ↔ 0 ≤ index ∧ p.competencies[index.toNat]? = some c := by
  unfold competency
  by_cases h : index < 0 ∨ index ≥ p.competencies.length
  · rw [if_pos h]
    constructor
    · intro hc
      exact absurd hc (by simp only [reduceCtorEq, not_false_eq_true])
    · rintro ⟨h0, hc⟩
      have hlen : index.toNat < p.competencies.length := (List.getElem?_eq_some_iff.mp hc).1
      omega
  · rw [if_neg h]
    exact ⟨fun hc => ⟨by omega, hc⟩, fun hc => hc.2⟩

theorem competency_zero (p : PlanSnapshot) : p.competency 0 = some p.firstCompetency := by
  rw [competency_eq_some_iff]
  refine ⟨Int.le_refl 0, ?_⟩
  rw [firstCompetency, Int.toNat_zero, List.head_eq_getElem, List.getElem?_eq_getElem]

end PlanSnapshot

end TechScreen
