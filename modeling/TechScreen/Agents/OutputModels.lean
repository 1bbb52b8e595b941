import TechScreen.Lib.JsonSchema
import TechScreen.Llm.CallModel
import TechScreen.Orchestrator.Persistence

/-!
# Output Models

What an agent makes of the document that the wrapper hands it: the output model
of a validation library, with its fields, their kinds and their bounds. The
contracts that are committed beside the prompts are here too, as the documents
they are. What the two have to do with each other is proved later.

A scalar is read by the library, which may coerce; the bounds are checked on what
it reads. A model is a closed record: a field it does not declare is refused.

## Main definitions

* `interviewerSchema`, `assessorSchema`: The committed contracts.
* `readField`, `readOptional`, `readList`: Readers of parts of a document.
* `InterviewerOutput.modelValidate`, `AssessorOutput.modelValidate`: The output
  models.

## Theorems

* `isSome_readField_iff`, `isSome_readList_iff`: What a reader takes.
* `readMove_eq_some_iff`: A move is read out of its name only.
-/

namespace TechScreen.Agents

open Lib Llm

section Schemas

/-- `prompts/interviewer/v0001/schema.json`. -/
def interviewerSchema : Fields :=
  objectSchema
    [("$schema", .str "https://json-schema.org/draft/2020-12/schema"),
      ("$id", .str "https://techscreen.nix.internal/schemas/interviewer-output.v1.json"),
      ("title", .str "InterviewerOutput")]
    ["utterance", "internal_move_executed"]
    [("utterance", .obj [("type", .str "string"), ("minLength", .int 1),
        ("maxLength", .int 1200),
        ("description", .str ("Ukrainian text the candidate reads next. Plain prose, no " ++
          "markdown. The prompt caps this at ~80 Ukrainian words; 1200 chars is the hard " ++
          "backstop."))]),
      ("internal_move_executed", .obj [("type", .str "string"),
        ("enum", .arr [.str "ask_seed", .str "depth_probe", .str "acknowledge_and_transition",
          .str "redirect", .str "close_competency"]),
        ("description", .str ("Must equal next_planned_move unless a contradictory input forced " ++
          "a redirect. The orchestrator uses this to detect drift."))])]

/-- One of `assessments`. -/
def assessmentSchema : Fields :=
  objectSchema [] ["rubric_node_id", "level", "confidence", "rationale_en", "evidence_spans"]
    [("rubric_node_id", .obj [("type", .str "string")]),
      ("level", .obj [("type", .str "integer"),
        ("enum", .arr [.int 0, .int 1, .int 2, .int 3, .int 4, .int 5]),
        ("description", .str ("Competency proficiency level: 0=None (no proficiency " ++
          "demonstrated after probing), 1=Basic, 2=Competent, 3=Advanced, 4=Proficient, " ++
          "5=Expert. Levels 1-5 match the rubric node's level descriptors; 0 is assessor-only " ++
          "(rubric files carry no descriptor for it)."))]),
      ("confidence", .obj [("type", .str "number"), ("minimum", .int 0),
        ("maximum", .float (99 / 100)),
        ("description", .str ("Assessor-reported confidence. 1.0 is forbidden; below 0.4 sets " ++
          "needs_manual_review."))]),
      ("rationale_en", .obj [("type", .str "string"), ("minLength", .int 1),
        ("maxLength", .int 600),
        ("description", .str ("English, 1-3 sentences, referencing the matched level " ++
          "descriptor."))]),
      ("evidence_spans", .obj (arraySchema [("type", .str "string"), ("minLength", .int 1),
        ("description", .str "Exact substring of the candidate answer.")] (some 1)))]

/-- One of `red_flags`. -/
def redFlagSchema : Fields :=
  objectSchema [] ["type", "description_en"]
    [("type", .obj [("type", .str "string"),
        ("enum", .arr [.str "FACTUALLY_WRONG", .str "CONTRADICTION",
          .str "FABRICATED_TECHNOLOGY", .str "LIKELY_CHEATING", .str "RED_FLAG_OTHER"])]),
      ("rubric_node_id", .obj [("type", .arr [.str "string", .str "null"])]),
      ("description_en", .obj [("type", .str "string"), ("minLength", .int 1),
        ("maxLength", .int 400)]),
      ("evidence_span", .obj [("type", .arr [.str "string", .str "null"])])]

/-- `prompts/assessor/v0003/schema.json`. -/
def assessorSchema : Fields :=
  objectSchema
    [("$schema", .str "https://json-schema.org/draft/2020-12/schema"),
      ("$id", .str "https://techscreen.nix.internal/schemas/assessor-output.v3.json"),
      ("title", .str "AssessorOutput")]
    ["turn_id", "session_id", "competency_focus", "assessments", "red_flags",
      "needs_manual_review"]
    [("turn_id", .obj [("type", .str "string"), ("format", .str "uuid"),
        ("description", .str "UUID of the candidate turn being assessed.")]),
      ("session_id", .obj [("type", .str "string"), ("format", .str "uuid")]),
      ("competency_focus", .obj [("type", .str "string"),
        ("description", .str ("The rubric_node_id the orchestrator asked the Assessor to focus " ++
          "on."))]),
      ("assessments", .obj (arraySchema assessmentSchema none)),
      ("red_flags", .obj (arraySchema redFlagSchema none)),
      ("needs_manual_review", .obj [("type", .str "boolean")]),
      ("manual_review_reason_en", .obj [("type", .arr [.str "string", .str "null"]),
        ("maxLength", .int 400)])]

end Schemas

end TechScreen.Agents

namespace TechScreen

open Lib

section Models
variable [Scalars]

/-- A field of a model, through its reader. -/
def readField {α : Type} (key : String) (read : Json → Option α) (doc : Json) : Option α :=
  (doc.get? key).bind read

/-- A field that stands for nothing where it is missing. -/
def readOptional {α : Type} (key : String) (read : Json → Option (Option α)) (doc : Json) :
    Option (Option α) :=
  match doc.get? key with
  | none => some none
  | some value => read value

/-- A string of a length within the bounds. -/
def strWithin (low : Nat) (high : Option Nat) (doc : Json) : Option String :=
  (Scalars.readStr doc).filter (fun s =>
    low ≤ s.length && (high.all (fun high => s.length ≤ high)))

/-- A string, or null. -/
def strOrNull (high : Option Nat) : Json → Option (Option String)
  | .null => some none
  | doc => (strWithin 0 high doc).map some

/-- `Literal[0, 1, 2, 3, 4, 5]`. -/
def readLevel : Json → Option (Fin 6)
  | .int (.ofNat n) => if h : n < 6 then some ⟨n, h⟩ else none
  | _ => none

omit [Scalars] in
theorem readLevel_int (n : Int) : (readLevel (.int n)).isSome = true ↔ 0 ≤ n ∧ n < 6 := by
  cases n with
  | ofNat n =>
      have hcast : Int.ofNat n = (n : Int) := rfl
      by_cases h : n < 6
      · rw [readLevel, dif_pos h]
        exact iff_of_true rfl (by omega)
      · rw [readLevel, dif_neg h]
        exact iff_of_false (fun hc => by cases hc) (by omega)
  | negSucc n => exact iff_of_false (fun hc => by cases hc) (by omega)

/-- A confidence from 0 to 0.99. -/
def readConfidence (doc : Json) : Option ℚ :=
  (Scalars.readFloat doc).filter (fun q => 0 ≤ q && q ≤ 99 / 100)

/-- A list of a least length. -/
def readList {α : Type} (least : Nat) (read : Json → Option α) : Json → Option (List α)
  | .arr items => if least ≤ items.length then items.mapM read else none
  | _ => none

/-- `InterviewerOutput.model_validate`. -/
def InterviewerOutput.modelValidate (doc : Json) : Option InterviewerOutput := do
  guard (doc.closed ["utterance", "internal_move_executed"])
  let utterance ← readField "utterance" (strWithin 1 (some 1200)) doc
  let move ← readField "internal_move_executed" InterviewerMove.codec.read doc
  some ⟨utterance, move⟩

/-- `AssessmentItem.model_validate`. -/
def AssessmentItem.modelValidate (doc : Json) : Option AssessmentItem := do
  guard (doc.closed ["rubric_node_id", "level", "confidence", "rationale_en", "evidence_spans"])
  let rubricNodeId ← readField "rubric_node_id" Scalars.readStr doc
  let level ← readField "level" readLevel doc
  let confidence ← readField "confidence" readConfidence doc
  let rationaleEn ← readField "rationale_en" (strWithin 1 (some 600)) doc
  let evidenceSpans ← readField "evidence_spans" (readList 1 (strWithin 1 none)) doc
  some ⟨rubricNodeId, level, confidence, rationaleEn, evidenceSpans⟩

/-- `RedFlagItem.model_validate`. -/
def RedFlagItem.modelValidate (doc : Json) : Option RedFlagItem := do
  guard (doc.closed ["type", "rubric_node_id", "description_en", "evidence_span"])
  let type ← readField "type" RedFlagType.codec.read doc
  let rubricNodeId ← readOptional "rubric_node_id" (strOrNull none) doc
  let descriptionEn ← readField "description_en" (strWithin 1 (some 400)) doc
  let evidenceSpan ← readOptional "evidence_span" (strOrNull none) doc
  some ⟨type, rubricNodeId, descriptionEn, evidenceSpan⟩

/-- `AssessorOutput.model_validate`. -/
def AssessorOutput.modelValidate (doc : Json) : Option AssessorOutput := do
  guard (doc.closed ["turn_id", "session_id", "competency_focus", "assessments", "red_flags",
    "needs_manual_review", "manual_review_reason_en"])
  let turnId ← readField "turn_id" Scalars.readUuid doc
  let sessionId ← readField "session_id" Scalars.readUuid doc
  let competencyFocus ← readField "competency_focus" Scalars.readStr doc
  let assessments ← readField "assessments" (readList 0 AssessmentItem.modelValidate) doc
  let redFlags ← readField "red_flags" (readList 0 RedFlagItem.modelValidate) doc
  let needsManualReview ← readField "needs_manual_review" Scalars.readBool doc
  let manualReviewReasonEn ← readOptional "manual_review_reason_en" (strOrNull (some 400)) doc
  some ⟨turnId, sessionId, competencyFocus, assessments, redFlags, needsManualReview,
    manualReviewReasonEn⟩

end Models

end TechScreen

namespace TechScreen.Agents

open Lib Llm

section Readers
variable {α β : Type}

theorem isSome_bind_iff {x : Option α} {f : α → Option β} {P : Prop}
    (h : ∀ a, (f a).isSome ↔ P) : (x >>= f).isSome ↔ x.isSome ∧ P := by
  cases x with
  | none => simp only [Option.bind_eq_bind, Option.bind_none, Option.isSome_none,
      Bool.false_eq_true, false_and]
  | some a => simp only [Option.bind_eq_bind, Option.bind_some, h, Option.isSome_some, true_and]

theorem isSome_guard_iff (b : Bool) : (guard (b = true) : Option Unit).isSome ↔ b = true := by
  cases b with
  | false => exact iff_of_false Bool.false_ne_true Bool.false_ne_true
  | true => exact iff_of_true rfl rfl

theorem closed_obj_iff (fields : Fields) (keys : List String) :
    (Json.obj fields).closed keys = true ↔ ∀ p ∈ fields, p.1 ∈ keys := by
  rw [Json.closed, List.all_eq_true]
  simp only [List.contains_iff_mem]

theorem isSome_readField_iff {fields : Fields} {key : String} (read : Json → Option α)
    (h : (fields.lookup key).isSome) :
    (readField key read (.obj fields)).isSome ↔
      ∀ value, fields.lookup key = some value → (read value).isSome := by
  obtain ⟨value, hvalue⟩ := Option.isSome_iff_exists.mp h
  rw [readField, Json.get?, hvalue, Option.bind_some]
  simp only [Option.some.injEq, forall_eq']

theorem isSome_readOptional_iff (fields : Fields) (key : String)
    (read : Json → Option (Option α)) :
    (readOptional key read (.obj fields)).isSome ↔
      ∀ value, fields.lookup key = some value → (read value).isSome := by
  rw [readOptional, Json.get?]
  cases fields.lookup key with
  | none => simp only [Option.isSome_some, reduceCtorEq, false_implies, implies_true]
  | some value => simp only [Option.some.injEq, forall_eq']

theorem isSome_mapM_iff (read : Json → Option α) (items : List Json) :
    (items.mapM read).isSome ↔ ∀ item ∈ items, (read item).isSome := by
  induction items with
  | nil => simp only [List.mapM_nil, List.not_mem_nil, false_implies, implies_true, pure,
      Option.isSome_some]
  | cons item rest ih =>
      rw [List.mapM_cons, List.forall_mem_cons, ← ih]
      refine isSome_bind_iff fun a => ?_
      cases rest.mapM read with
      | none => rfl
      | some as => rfl

theorem isSome_readList_iff (least : Nat) (read : Json → Option α) (items : List Json) :
    (readList least read (.arr items)).isSome ↔
      least ≤ items.length ∧ ∀ item ∈ items, (read item).isSome := by
  rw [readList]
  split
  · next h => rw [isSome_mapM_iff]; exact (and_iff_right h).symm
  · next h => exact iff_of_false Bool.false_ne_true (fun hc => h hc.1)

/-- A move is read out of its name only. -/
theorem readMove_eq_some_iff {doc : Json} {m : InterviewerMove} :
    InterviewerMove.codec.read doc = some m ↔ doc = .str m.value := by
  constructor
  · intro h
    cases doc with
    | str s =>
        obtain ⟨before, after, htable, -⟩ := List.lookup_eq_some_iff.mp h
        have hmem : (s, m) ∈ [("ask_seed", InterviewerMove.askSeed), ("depth_probe", .depthProbe),
            ("acknowledge_and_transition", .acknowledgeAndTransition), ("redirect", .redirect),
            ("close_competency", .closeCompetency)] := by
          rw [htable]
          exact List.mem_append_right _ List.mem_cons_self
        simp only [List.mem_cons, Prod.mk.injEq, List.not_mem_nil, or_false] at hmem
        rcases hmem with ⟨rfl, rfl⟩ | ⟨rfl, rfl⟩ | ⟨rfl, rfl⟩ | ⟨rfl, rfl⟩ | ⟨rfl, rfl⟩ <;> rfl
    | null | bool | int | float | arr | obj => cases h
  · rintro rfl
    exact InterviewerMove.codec.read_write m

end Readers

section Bounds
variable [Scalars]

theorem isSome_strWithin (low : Nat) (high : Option Nat) (s : String) :
    (strWithin low high (.str s)).isSome ↔ low ≤ s.length ∧ ∀ n ∈ high, s.length ≤ n := by
  rw [strWithin, Scalars.readStr_str]
  cases high <;> simp [Option.isSome_filter]

theorem strWithin_isSome_of_str {low : Nat} {high : Option Nat} {doc : Json}
    (hstr : ∀ s, Scalars.readStr doc = some s → doc = .str s)
    (h : (strWithin low high doc).isSome) : ∃ s, doc = .str s := by
  obtain ⟨s, hs⟩ := Option.isSome_iff_exists.mp h
  exact ⟨s, hstr s (Option.filter_eq_some_iff.mp hs).1⟩

theorem strOrNull_of_ne (high : Option Nat) {doc : Json} (h : doc ≠ .null) :
    strOrNull high doc = (strWithin 0 high doc).map some := by
  cases doc with
  | null => exact absurd rfl h
  | bool | int | float | str | arr | obj => rfl

end Bounds

end TechScreen.Agents
