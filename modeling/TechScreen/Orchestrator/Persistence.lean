import TechScreen.Orchestrator.Invariant

/-!
# Persisting and Resuming

The document in which a session's state is stored, and its decoder. Each record
of the state is written with all of its fields and read back with its declared
defaults and without tolerance for other keys; the outstanding command is a
union told apart by its kind. The version check comes first, and a document
that fails it is never read as a state.

A resumed session decodes what it stored and tells the machine that it
reconnected. That is a step which leaves the state alone, so a run with resumes
anywhere in it is the run without them, plus what the resumes themselves emit.

## Main definitions

* `CoverageCell.codec`, `TechState.codec`, `PendingCommand.codec`,
  `SessionState.codec`: The stored forms.
* `encodeSessionState`, `decodeSessionState`: The column's contents.
* `Op`: An event, or a resume.
* `resumeStep`: The machine with resumes.

## Theorems

* `decodeSessionState_encode`: Decoding undoes encoding.
* `decodeSessionState_version`: A wrong version is never a state.
* `persist_resume_transparency`: Resumes change nothing.
-/

namespace TechScreen

open Lib

section Vocabulary

def Phase.codec : Codec Phase :=
  Codec.literal Phase.value
    [("created", .created), ("intro", .intro), ("tech", .tech), ("qa", .qa), ("close", .close),
      ("completed", .completed), ("aborted", .aborted)]
    (by intro p; cases p <;> decide)

def Awaiting.value : Awaiting → String
  | .interviewer => "interviewer"
  | .candidate => "candidate"

def Awaiting.codec : Codec Awaiting :=
  Codec.literal Awaiting.value [("interviewer", .interviewer), ("candidate", .candidate)]
    (by intro a; cases a <;> decide)

def InterviewerMove.value : InterviewerMove → String
  | .askSeed => "ask_seed"
  | .depthProbe => "depth_probe"
  | .acknowledgeAndTransition => "acknowledge_and_transition"
  | .redirect => "redirect"
  | .closeCompetency => "close_competency"

def InterviewerMove.codec : Codec InterviewerMove :=
  Codec.literal InterviewerMove.value
    [("ask_seed", .askSeed), ("depth_probe", .depthProbe),
      ("acknowledge_and_transition", .acknowledgeAndTransition), ("redirect", .redirect),
      ("close_competency", .closeCompetency)]
    (by intro m; cases m <;> decide)

def AbortReason.value : AbortReason → String
  | .candidateTimeout => "candidate_timeout"
  | .costCeiling => "cost_ceiling"
  | .operatorAbort => "operator_abort"
  | .fatalAgentError => "fatal_agent_error"

def AbortReason.codec : Codec AbortReason :=
  Codec.literal AbortReason.value
    [("candidate_timeout", .candidateTimeout), ("cost_ceiling", .costCeiling),
      ("operator_abort", .operatorAbort), ("fatal_agent_error", .fatalAgentError)]
    (by intro r; cases r <;> decide)

def RedFlagType.value : RedFlagType → String
  | .factuallyWrong => "FACTUALLY_WRONG"
  | .contradiction => "CONTRADICTION"
  | .fabricatedTechnology => "FABRICATED_TECHNOLOGY"
  | .likelyCheating => "LIKELY_CHEATING"
  | .redFlagOther => "RED_FLAG_OTHER"

def RedFlagType.codec : Codec RedFlagType :=
  Codec.literal RedFlagType.value
    [("FACTUALLY_WRONG", .factuallyWrong), ("CONTRADICTION", .contradiction),
      ("FABRICATED_TECHNOLOGY", .fabricatedTechnology), ("LIKELY_CHEATING", .likelyCheating),
      ("RED_FLAG_OTHER", .redFlagOther)]
    (by intro t; cases t <;> decide)

end Vocabulary

section Records
variable [Scalars]

/-- A dictionary with string keys. -/
def strDict {β : Type} (c : Codec β) : Codec (Dict String β) :=
  Codec.dict id Scalars.readStr Scalars.readStr_str c

/-- A dictionary with identifiers as keys. -/
def uuidDict {β : Type} (c : Codec β) : Codec (Dict Uuid β) :=
  Codec.dict Scalars.writeUuid Scalars.readUuid Scalars.readUuid_writeUuid c

def optInt : Codec (Option Int) :=
  Codec.option Codec.int (fun _ => by simp only [Codec.int, ne_eq, reduceCtorEq, not_false_eq_true])

def optFloat : Codec (Option ℚ) :=
  Codec.option Codec.float
    (fun _ => by simp only [Codec.float, ne_eq, reduceCtorEq, not_false_eq_true])

def optStr : Codec (Option String) :=
  Codec.option Codec.str (fun _ => by simp only [Codec.str, ne_eq, reduceCtorEq, not_false_eq_true])

def optInstant : Codec (Option Instant) :=
  Codec.option Codec.instant
    (fun _ => by simp only [Codec.instant, ne_eq, reduceCtorEq, not_false_eq_true])

def CoverageCell.fields : List String :=
  ["best_level", "best_confidence", "latest_level", "latest_confidence", "gap_not_assessable",
    "assessment_failed", "gap_budget_exhausted", "needs_manual_review", "red_flags"]

def CoverageCell.dump (c : CoverageCell) : Json :=
  .obj [("best_level", optInt.write c.bestLevel),
    ("best_confidence", optFloat.write c.bestConfidence),
    ("latest_level", optInt.write c.latestLevel),
    ("latest_confidence", optFloat.write c.latestConfidence),
    ("gap_not_assessable", Codec.bool.write c.gapNotAssessable),
    ("assessment_failed", Codec.bool.write c.assessmentFailed),
    ("gap_budget_exhausted", Codec.bool.write c.gapBudgetExhausted),
    ("needs_manual_review", Codec.bool.write c.needsManualReview),
    ("red_flags", (Codec.list RedFlagType.codec).write c.redFlags)]

def CoverageCell.modelValidate (raw : Json) : Option CoverageCell :=
  if raw.closed CoverageCell.fields then do
    let bestLevel ← defaulted optInt none "best_level" raw
    let bestConfidence ← defaulted optFloat none "best_confidence" raw
    let latestLevel ← defaulted optInt none "latest_level" raw
    let latestConfidence ← defaulted optFloat none "latest_confidence" raw
    let gapNotAssessable ← defaulted Codec.bool false "gap_not_assessable" raw
    let assessmentFailed ← defaulted Codec.bool false "assessment_failed" raw
    let gapBudgetExhausted ← defaulted Codec.bool false "gap_budget_exhausted" raw
    let needsManualReview ← defaulted Codec.bool false "needs_manual_review" raw
    let redFlags ← defaulted (Codec.list RedFlagType.codec) [] "red_flags" raw
    some { bestLevel, bestConfidence, latestLevel, latestConfidence, gapNotAssessable,
           assessmentFailed, gapBudgetExhausted, needsManualReview, redFlags }
  else none

theorem CoverageCell.modelValidate_dump (c : CoverageCell) :
    CoverageCell.modelValidate c.dump = some c := by
  have hclosed : c.dump.closed CoverageCell.fields = true := rfl
  rw [modelValidate, if_pos hclosed]
  dsimp only [dump, defaulted, Json.get?, List.lookup_cons, String.reduceBEq]
  simp only [Option.bind_eq_bind, Option.bind_some, Codec.read_write]

def CoverageCell.codec : Codec CoverageCell :=
  ⟨CoverageCell.dump, CoverageCell.modelValidate, CoverageCell.modelValidate_dump⟩

def TechState.fields : List String :=
  ["competency_index", "seed_index", "probes_used", "drift_count", "competency_started_at",
    "coverage", "pending_assessments", "assessment_focus"]

def TechState.dump (t : TechState) : Json :=
  .obj [("competency_index", Codec.int.write t.competencyIndex),
    ("seed_index", Codec.int.write t.seedIndex),
    ("probes_used", Codec.int.write t.probesUsed),
    ("drift_count", Codec.int.write t.driftCount),
    ("competency_started_at", optInstant.write t.competencyStartedAt),
    ("coverage", (strDict CoverageCell.codec).write t.coverage),
    ("pending_assessments", (Codec.list Codec.uuid).write t.pendingAssessments),
    ("assessment_focus", (uuidDict Codec.str).write t.assessmentFocus)]

def TechState.modelValidate (raw : Json) : Option TechState :=
  if raw.closed TechState.fields then do
    let competencyIndex ← defaulted Codec.int 0 "competency_index" raw
    let seedIndex ← defaulted Codec.int 0 "seed_index" raw
    let probesUsed ← defaulted Codec.int 0 "probes_used" raw
    let driftCount ← defaulted Codec.int 0 "drift_count" raw
    let competencyStartedAt ← defaulted optInstant none "competency_started_at" raw
    let coverage ← defaulted (strDict CoverageCell.codec) .empty "coverage" raw
    let pendingAssessments ← defaulted (Codec.list Codec.uuid) [] "pending_assessments" raw
    let assessmentFocus ← defaulted (uuidDict Codec.str) .empty "assessment_focus" raw
    some { competencyIndex, seedIndex, probesUsed, driftCount, competencyStartedAt, coverage,
           pendingAssessments, assessmentFocus }
  else none

theorem TechState.modelValidate_dump (t : TechState) :
    TechState.modelValidate t.dump = some t := by
  have hclosed : t.dump.closed TechState.fields = true := rfl
  rw [modelValidate, if_pos hclosed]
  dsimp only [dump, defaulted, Json.get?, List.lookup_cons, String.reduceBEq]
  simp only [Option.bind_eq_bind, Option.bind_some, Codec.read_write]

def TechState.codec : Codec TechState :=
  ⟨TechState.dump, TechState.modelValidate, TechState.modelValidate_dump⟩

def RunInterviewer.fields : List String :=
  ["kind", "turn_id", "move", "competency_node_id", "move_context", "retry"]

def RunInterviewer.dump (c : RunInterviewer) : Json :=
  .obj [("kind", .str "run_interviewer"), ("turn_id", Codec.uuid.write c.turnId),
    ("move", InterviewerMove.codec.write c.move),
    ("competency_node_id", optStr.write c.competencyNodeId),
    ("move_context", (strDict Codec.any).write c.moveContext),
    ("retry", Codec.bool.write c.retry)]

def RunInterviewer.modelValidate (raw : Json) : Option RunInterviewer :=
  if raw.closed RunInterviewer.fields then do
    let turnId ← required Codec.uuid "turn_id" raw
    let move ← required InterviewerMove.codec "move" raw
    let competencyNodeId ← defaulted optStr none "competency_node_id" raw
    let moveContext ← defaulted (strDict Codec.any) .empty "move_context" raw
    let retry ← defaulted Codec.bool false "retry" raw
    some { turnId, move, competencyNodeId, moveContext, retry }
  else none

theorem RunInterviewer.modelValidate_dump (c : RunInterviewer) :
    RunInterviewer.modelValidate c.dump = some c := by
  have hclosed : c.dump.closed RunInterviewer.fields = true := rfl
  rw [modelValidate, if_pos hclosed]
  dsimp only [dump, required, defaulted, Json.get?, List.lookup_cons, String.reduceBEq]
  simp only [Option.bind_eq_bind, Option.bind_some, Codec.read_write]

def DeliverUtterance.fields : List String := ["kind", "turn_id", "utterance"]

def DeliverUtterance.dump (c : DeliverUtterance) : Json :=
  .obj [("kind", .str "deliver_utterance"), ("turn_id", Codec.uuid.write c.turnId),
    ("utterance", Codec.str.write c.utterance)]

def DeliverUtterance.modelValidate (raw : Json) : Option DeliverUtterance :=
  if raw.closed DeliverUtterance.fields then do
    let turnId ← required Codec.uuid "turn_id" raw
    let utterance ← required Codec.str "utterance" raw
    some { turnId, utterance }
  else none

theorem DeliverUtterance.modelValidate_dump (c : DeliverUtterance) :
    DeliverUtterance.modelValidate c.dump = some c := by
  have hclosed : c.dump.closed DeliverUtterance.fields = true := rfl
  rw [modelValidate, if_pos hclosed]
  dsimp only [dump, required, Json.get?, List.lookup_cons, String.reduceBEq]
  simp only [Option.bind_eq_bind, Option.bind_some, Codec.read_write]

/-- The fields of both scripted commands. -/
def scriptedFields : List String := ["kind", "turn_id", "script_path"]

/-- The stored form of a scripted command. -/
def dumpScripted (kind : String) (turnId : Uuid) (scriptPath : String) : Json :=
  .obj [("kind", .str kind), ("turn_id", Codec.uuid.write turnId),
    ("script_path", Codec.str.write scriptPath)]

/-- The turn and the script of a stored scripted command. -/
def validateScripted (defaultPath : String) (raw : Json) : Option (Uuid × String) :=
  if raw.closed scriptedFields then do
    let turnId ← required Codec.uuid "turn_id" raw
    let scriptPath ← defaulted Codec.str defaultPath "script_path" raw
    some (turnId, scriptPath)
  else none

theorem validateScripted_dump (defaultPath kind : String) (turnId : Uuid) (scriptPath : String) :
    validateScripted defaultPath (dumpScripted kind turnId scriptPath)
      = some (turnId, scriptPath) := by
  have hclosed : (dumpScripted kind turnId scriptPath).closed scriptedFields = true := rfl
  rw [validateScripted, if_pos hclosed]
  dsimp only [dumpScripted, required, defaulted, Json.get?, List.lookup_cons, String.reduceBEq]
  simp only [Option.bind_eq_bind, Option.bind_some, Codec.read_write]

def EmitScriptedOpening.modelValidate (raw : Json) : Option EmitScriptedOpening :=
  (validateScripted openingScriptPath raw).map (fun p => ⟨p.1, p.2⟩)

def EmitScriptedClosing.modelValidate (raw : Json) : Option EmitScriptedClosing :=
  (validateScripted closingScriptPath raw).map (fun p => ⟨p.1, p.2⟩)

def PendingCommand.dump : PendingCommand → Json
  | .runInterviewer c => c.dump
  | .deliverUtterance c => c.dump
  | .emitScriptedOpening c => dumpScripted "emit_scripted_opening" c.turnId c.scriptPath
  | .emitScriptedClosing c => dumpScripted "emit_scripted_closing" c.turnId c.scriptPath

/-- The union is told apart by its `kind`, which has to be there. -/
def PendingCommand.modelValidate (raw : Json) : Option PendingCommand :=
  match raw.get? "kind" with
  | some (.str kind) =>
      if kind = "run_interviewer" then (RunInterviewer.modelValidate raw).map .runInterviewer
      else if kind = "deliver_utterance" then
        (DeliverUtterance.modelValidate raw).map .deliverUtterance
      else if kind = "emit_scripted_opening" then
        (EmitScriptedOpening.modelValidate raw).map .emitScriptedOpening
      else if kind = "emit_scripted_closing" then
        (EmitScriptedClosing.modelValidate raw).map .emitScriptedClosing
      else none
  | _ => none

theorem PendingCommand.modelValidate_dump (c : PendingCommand) :
    PendingCommand.modelValidate c.dump = some c := by
  cases c with
  | runInterviewer c =>
      have hkind : (PendingCommand.runInterviewer c).dump.get? "kind"
          = some (.str "run_interviewer") := rfl
      rw [modelValidate, hkind]
      simp only
      rw [if_pos trivial, dump, RunInterviewer.modelValidate_dump]
      rfl
  | deliverUtterance c =>
      have hkind : (PendingCommand.deliverUtterance c).dump.get? "kind"
          = some (.str "deliver_utterance") := rfl
      rw [modelValidate, hkind]
      simp only
      rw [if_neg (by decide), if_pos trivial, dump, DeliverUtterance.modelValidate_dump]
      rfl
  | emitScriptedOpening c =>
      have hkind : (PendingCommand.emitScriptedOpening c).dump.get? "kind"
          = some (.str "emit_scripted_opening") := rfl
      have hread := validateScripted_dump openingScriptPath "emit_scripted_opening" c.turnId
        c.scriptPath
      rw [modelValidate, hkind]
      simp only
      rw [if_neg (by decide), if_neg (by decide), if_pos trivial,
        EmitScriptedOpening.modelValidate, dump, hread]
      rfl
  | emitScriptedClosing c =>
      have hkind : (PendingCommand.emitScriptedClosing c).dump.get? "kind"
          = some (.str "emit_scripted_closing") := rfl
      have hread := validateScripted_dump closingScriptPath "emit_scripted_closing" c.turnId
        c.scriptPath
      rw [modelValidate, hkind]
      simp only
      rw [if_neg (by decide), if_neg (by decide), if_neg (by decide), if_pos trivial,
        EmitScriptedClosing.modelValidate, dump, hread]
      rfl

def PendingCommand.codec : Codec PendingCommand :=
  ⟨PendingCommand.dump, PendingCommand.modelValidate, PendingCommand.modelValidate_dump⟩

def optAwaiting : Codec (Option Awaiting) :=
  Codec.option Awaiting.codec
    (fun _ => by simp only [Awaiting.codec, Codec.literal, ne_eq, reduceCtorEq, not_false_eq_true])

def optMove : Codec (Option InterviewerMove) :=
  Codec.option InterviewerMove.codec
    (fun _ => by simp only [InterviewerMove.codec, Codec.literal, ne_eq, reduceCtorEq,
      not_false_eq_true])

def optAbortReason : Codec (Option AbortReason) :=
  Codec.option AbortReason.codec
    (fun _ => by simp only [AbortReason.codec, Codec.literal, ne_eq, reduceCtorEq,
      not_false_eq_true])

def optPlan : Codec (Option PlanSnapshot) :=
  Codec.option PlanSnapshot.codec
    (fun _ => by simp only [PlanSnapshot.codec, PlanSnapshot.planPayload, ne_eq, reduceCtorEq,
      not_false_eq_true])

def optPending : Codec (Option PendingCommand) :=
  Codec.option PendingCommand.codec (fun c => by
    cases c <;> simp only [PendingCommand.codec, PendingCommand.dump, RunInterviewer.dump,
      DeliverUtterance.dump, dumpScripted, ne_eq, reduceCtorEq, not_false_eq_true])

def SessionState.fields : List String :=
  ["state_schema_version", "session_id", "phase", "awaiting", "last_issued_move", "plan_input",
    "plan", "tech", "abort_reason", "flagged_for_review", "needs_manual_review",
    "cheat_flag_count", "interviewer_failure_streak", "turn_seq", "session_started_at",
    "qa_started_at", "last_candidate_activity", "pending_command"]

def SessionState.dump (s : SessionState) : Json :=
  .obj [("state_schema_version", Codec.int.write s.stateSchemaVersion),
    ("session_id", Codec.uuid.write s.sessionId), ("phase", Phase.codec.write s.phase),
    ("awaiting", optAwaiting.write s.awaiting),
    ("last_issued_move", optMove.write s.lastIssuedMove),
    ("plan_input", (strDict Codec.any).write s.planInput), ("plan", optPlan.write s.plan),
    ("tech", TechState.codec.write s.tech),
    ("abort_reason", optAbortReason.write s.abortReason),
    ("flagged_for_review", Codec.bool.write s.flaggedForReview),
    ("needs_manual_review", Codec.bool.write s.needsManualReview),
    ("cheat_flag_count", Codec.int.write s.cheatFlagCount),
    ("interviewer_failure_streak", Codec.int.write s.interviewerFailureStreak),
    ("turn_seq", Codec.int.write s.turnSeq),
    ("session_started_at", optInstant.write s.sessionStartedAt),
    ("qa_started_at", optInstant.write s.qaStartedAt),
    ("last_candidate_activity", optInstant.write s.lastCandidateActivity),
    ("pending_command", optPending.write s.pendingCommand)]

def SessionState.modelValidate (raw : Json) : Option SessionState :=
  if raw.closed SessionState.fields then do
    let stateSchemaVersion ← required Codec.int "state_schema_version" raw
    let sessionId ← required Codec.uuid "session_id" raw
    let phase ← defaulted Phase.codec .created "phase" raw
    let awaiting ← defaulted optAwaiting none "awaiting" raw
    let lastIssuedMove ← defaulted optMove none "last_issued_move" raw
    let planInput ← defaulted (strDict Codec.any) .empty "plan_input" raw
    let plan ← defaulted optPlan none "plan" raw
    let tech ← defaulted TechState.codec {} "tech" raw
    let abortReason ← defaulted optAbortReason none "abort_reason" raw
    let flaggedForReview ← defaulted Codec.bool false "flagged_for_review" raw
    let needsManualReview ← defaulted Codec.bool false "needs_manual_review" raw
    let cheatFlagCount ← defaulted Codec.int 0 "cheat_flag_count" raw
    let interviewerFailureStreak ← defaulted Codec.int 0 "interviewer_failure_streak" raw
    let turnSeq ← defaulted Codec.int 0 "turn_seq" raw
    let sessionStartedAt ← defaulted optInstant none "session_started_at" raw
    let qaStartedAt ← defaulted optInstant none "qa_started_at" raw
    let lastCandidateActivity ← defaulted optInstant none "last_candidate_activity" raw
    let pendingCommand ← defaulted optPending none "pending_command" raw
    some { stateSchemaVersion, sessionId, phase, awaiting, lastIssuedMove, planInput, plan, tech,
           abortReason, flaggedForReview, needsManualReview, cheatFlagCount,
           interviewerFailureStreak, turnSeq, sessionStartedAt, qaStartedAt,
           lastCandidateActivity, pendingCommand }
  else none

theorem SessionState.modelValidate_dump (s : SessionState) :
    SessionState.modelValidate s.dump = some s := by
  have hclosed : s.dump.closed SessionState.fields = true := rfl
  rw [modelValidate, if_pos hclosed]
  dsimp only [dump, required, defaulted, Json.get?, List.lookup_cons, String.reduceBEq]
  simp only [Option.bind_eq_bind, Option.bind_some, Codec.read_write]

end Records

/-- Why a stored document is not a state. -/
inductive PersistenceError where
  | notAMapping
  | noIntegerVersion
  | versionMismatch (stored expected : Int)
  | invalidState
  deriving DecidableEq

/-- The failures that are a `StateSchemaVersionError`; the others are a
    `SessionStateDecodeError`. -/
def PersistenceError.isSchemaVersionError : PersistenceError → Bool
  | .noIntegerVersion => true
  | .versionMismatch _ _ => true
  | _ => false

section Column
variable [Scalars]

/-- `encode_session_state`: the document of a state. -/
def encodeSessionState (s : SessionState) : Json := s.dump

/-- `decode_session_state`: the version first, then the shape. -/
def decodeSessionState (raw : Json) (expectedVersion : Int) :
    Except PersistenceError SessionState :=
  match raw with
  | .obj fields =>
      match fields.lookup "state_schema_version" with
      | some (.int stored) =>
          if stored ≠ expectedVersion then .error (.versionMismatch stored expectedVersion)
          else
            match SessionState.modelValidate raw with
            | some s => .ok s
            | none => .error .invalidState
      | _ => .error .noIntegerVersion
  | _ => .error .notAMapping

/-- Decoding undoes encoding, at the version the state carries. -/
theorem decodeSessionState_encode (s : SessionState) :
    decodeSessionState (encodeSessionState s) s.stateSchemaVersion = .ok s := by
  have hvalid := SessionState.modelValidate_dump s
  unfold encodeSessionState
  cases hdump : s.dump with
  | obj fields =>
      have hversion : fields.lookup "state_schema_version"
          = some (.int s.stateSchemaVersion) := by
        have hget : s.dump.get? "state_schema_version" = some (.int s.stateSchemaVersion) := rfl
        rw [hdump] at hget
        exact hget
      rw [hdump] at hvalid
      simp only [decodeSessionState, hversion, ne_eq, not_true_eq_false, if_false, hvalid]
  | _ => exact absurd hdump (by simp only [SessionState.dump, reduceCtorEq, not_false_eq_true])

/-- A document without an integer version, or with another one, is refused with
    the version error. -/
theorem decodeSessionState_version (fields : List (String × Json)) (expectedVersion : Int)
    (h : fields.lookup "state_schema_version" ≠ some (.int expectedVersion)) :
    ∃ err, decodeSessionState (.obj fields) expectedVersion = .error err ∧
      err.isSchemaVersionError = true := by
  unfold decodeSessionState
  cases hv : fields.lookup "state_schema_version" with
  | none => exact ⟨.noIntegerVersion, by simp only [hv], rfl⟩
  | some j =>
      cases j with
      | int stored =>
          have hne : stored ≠ expectedVersion := fun hc => h (by rw [hv, hc])
          exact ⟨.versionMismatch stored expectedVersion, by simp only [hv, if_pos hne], rfl⟩
      | _ => exact ⟨.noIntegerVersion, by simp only [hv], rfl⟩

end Column

/-- What a session that may be resumed is fed: an event, or a reload of what it
    stored followed by the news that it reconnected. -/
inductive Op where
  | event (e : Event)
  | resume (now : Instant)

def Op.event? : Op → Option Event
  | .event e => some e
  | .resume _ => none

inductive ResumeError where
  | transition (err : OrchestratorError)
  | decode (err : PersistenceError)

section Resume
variable [Scalars] (cfg : OrchestratorConfig)

/-- The machine with resumes: encode, decode at the configured version, and
    feed `Reconnected`. -/
def resumeStep : Step SessionState Op Command ResumeError
  | s, .event e => (step cfg s e).mapError .transition
  | s, .resume now =>
      match decodeSessionState (encodeSessionState s) cfg.stateSchemaVersion with
      | .error err => .error (.decode err)
      | .ok s' => (step cfg s' (.reconnected now)).mapError .transition

/-- What a resume adds to the commands of a run. -/
def resumeOutput (s : SessionState) : List Command :=
  if live s then
    match s.pendingCommand with
    | some command => [.reissuePendingCommand command, .persistState]
    | none => [.persistState]
  else []

/-- The version a session is stamped with never changes. -/
theorem stateSchemaVersion_of_edge {s s' : SessionState} {e : Event} {out : List Command}
    (hedge : Edge cfg s e s' out) : s'.stateSchemaVersion = s.stateSchemaVersion := by
  cases hedge with
  | assessed forTurnId output now hlive hpending =>
      rw [onAssessmentCompleted, if_neg (not_not.mpr hpending)]
  | assessmentFailed forTurnId errorKind now hlive hpending =>
      rw [onAssessmentFailed, if_neg (not_not.mpr hpending)]
  | _ => rfl

/-- A resume leaves the state alone. -/
theorem resumeStep_resume (s : SessionState) (now : Instant)
    (hversion : s.stateSchemaVersion = cfg.stateSchemaVersion) :
    resumeStep cfg s (.resume now) = .ok (s, resumeOutput s) := by
  have hdecode := decodeSessionState_encode s
  rw [hversion] at hdecode
  have hstep : step cfg s (.reconnected now) = .ok (s, resumeOutput s) := by
    rw [step_eq_ok_iff, resumeOutput]
    unfold transition
    by_cases hlive : live s
    · rw [if_neg hlive, if_pos hlive]
      unfold onReconnected
      cases s.pendingCommand with
      | none => rfl
      | some c => rfl
    · rw [if_pos (not_not.mp hlive), if_neg hlive]
      rfl
  rw [resumeStep, hdecode]
  simp only [hstep, Except.mapError]

/-- Storing and reloading a session changes nothing. Decoding undoes encoding;
    a document of another version is refused; and a run that is resumed at any
    points is the run without the resumes, step for step, with the same error
    if there is one, where each resume leaves the state alone and adds at most
    the outstanding command and the request to persist. -/
theorem persist_resume_transparency (sessionId : Uuid) (planInput : Dict String Json) :
    (∀ s : SessionState,
      decodeSessionState (encodeSessionState s) s.stateSchemaVersion = .ok s) ∧
    (∀ fields expectedVersion,
      fields.lookup "state_schema_version" ≠ some (.int expectedVersion) →
        ∃ err, decodeSessionState (.obj fields) expectedVersion = .error err ∧
          err.isSchemaVersionError = true) ∧
    (∀ ops : List Op,
      (record (resumeStep cfg) (initialState sessionId planInput cfg) ops).map
          (fun r => (r.1.filterMap (Taken.project Op.event?), r.2))
        = (record (step cfg) (initialState sessionId planInput cfg)
            (ops.filterMap Op.event?)).mapError .transition) ∧
    (∀ ops ts s, record (resumeStep cfg) (initialState sessionId planInput cfg) ops = .ok (ts, s) →
      ∀ t ∈ ts, ∀ now, t.event = .resume now →
        t.after = t.before ∧ t.out = resumeOutput t.before) := by
  -- No transition changes the version, so every document can be read back.
  have hkeep : ∀ s e s' out, s.stateSchemaVersion = cfg.stateSchemaVersion →
      step cfg s e = .ok (s', out) → s'.stateSchemaVersion = cfg.stateSchemaVersion :=
    fun s e s' out hs hstep => (stateSchemaVersion_of_edge cfg (edge_of_step hstep)).trans hs
  refine ⟨decodeSessionState_encode, decodeSessionState_version, fun ops => ?_,
    fun ops ts s hrec t ht now hevent => ?_⟩
  · -- A resume is a step that stutters.
    refine record_project (step cfg) (resumeStep cfg) Op.event? .transition
      (fun s => s.stateSchemaVersion = cfg.stateSchemaVersion) hkeep ?_ ?_ ops _ rfl
    · intro s o e ho
      cases o with
      | event e' =>
          simp only [Op.event?, Option.some.injEq] at ho
          rw [resumeStep, ho]
      | resume now => simp only [Op.event?, reduceCtorEq] at ho
    · intro s o hs ho
      cases o with
      | event e => simp only [Op.event?, reduceCtorEq] at ho
      | resume now => exact ⟨_, resumeStep_resume cfg s now hs⟩
  · have hrun := run_of_record (resumeStep cfg) ops _ s ts hrec
    rcases hrun.of_mem t ht with ⟨us, _, hus, hstep⟩
    -- The version of the state before the resume is the configured one.
    have hversion : t.before.stateSchemaVersion = cfg.stateSchemaVersion := by
      refine hus.invariant (fun s => s.stateSchemaVersion = cfg.stateSchemaVersion) rfl
        (fun a o b out ha hab => ?_)
      cases o with
      | resume now =>
          rw [resumeStep_resume cfg a now ha, Except.ok.injEq, Prod.mk.injEq] at hab
          rw [← hab.1]
          exact ha
      | event e =>
          rw [resumeStep] at hab
          cases hs : step cfg a e with
          | error x => rw [hs] at hab; simp only [Except.mapError, reduceCtorEq] at hab
          | ok r =>
              rw [hs] at hab
              simp only [Except.mapError, Except.ok.injEq] at hab
              exact hkeep a e b out ha (by rw [hs, hab])
    rw [hevent, resumeStep_resume cfg t.before now hversion, Except.ok.injEq,
      Prod.mk.injEq] at hstep
    exact ⟨hstep.1.symm, hstep.2.symm⟩

end Resume

end TechScreen
