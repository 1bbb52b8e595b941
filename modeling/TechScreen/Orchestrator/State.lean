import TechScreen.Orchestrator.Config
import TechScreen.Orchestrator.Plan

/-!
# State, Events and Commands

The data of the interview orchestrator: the outputs of the two agents as the
machine receives them, the persisted session state, the input alphabet and the
commands the machine asks the shell to execute.

Counters are integers and optional values are options, as in the source, so a
stored document that holds a negative counter is still a state. The length
bounds of the agents' texts are checked by the agent wrappers before an event
exists; no branch of the machine reads those texts, so the bounds are not
carried here and every theorem also covers texts outside them.

## Main definitions

* `InterviewerOutput`, `AssessorOutput`: What the agents return.
* `CoverageCell`: Per-node coverage.
* `TechState`: The sub-state of the technical phase.
* `PendingCommand`, `Command`: What the machine asks for.
* `SessionState`: The whole persisted state of one session.
* `Event`: The input alphabet.
-/

namespace TechScreen

open Lib

inductive InterviewerMove where
  | askSeed
  | depthProbe
  | acknowledgeAndTransition
  | redirect
  | closeCompetency
  deriving DecidableEq

structure InterviewerOutput where
  utterance : String
  internalMoveExecuted : InterviewerMove
  deriving DecidableEq

inductive RedFlagType where
  | factuallyWrong
  | contradiction
  | fabricatedTechnology
  | likelyCheating
  | redFlagOther
  deriving DecidableEq

/-- One per-node assessment, on the six-state scale from 0 to 5. -/
structure AssessmentItem where
  rubricNodeId : String
  level : Fin 6
  confidence : ℚ
  rationaleEn : String
  evidenceSpans : List String
  deriving DecidableEq

structure RedFlagItem where
  type : RedFlagType
  rubricNodeId : Option String
  descriptionEn : String
  evidenceSpan : Option String
  deriving DecidableEq

/-- The assessor's full output for one turn. -/
structure AssessorOutput where
  turnId : Uuid
  sessionId : Uuid
  competencyFocus : String
  assessments : List AssessmentItem
  redFlags : List RedFlagItem
  needsManualReview : Bool
  manualReviewReasonEn : Option String
  deriving DecidableEq

/-- `prompts/shared/candidate-facing/opening.md`: the fixed scripted opening. -/
def openingScriptPath : String := "prompts/shared/candidate-facing/opening.md"

/-- `prompts/shared/candidate-facing/closing.md`: the fixed scripted closing. -/
def closingScriptPath : String := "prompts/shared/candidate-facing/closing.md"

/-- The one red-flag type that feeds a session-level flag. -/
def cheatRedFlag : RedFlagType := .likelyCheating

inductive Phase where
  | created
  | intro
  | tech
  | qa
  | close
  | completed
  | aborted
  deriving DecidableEq

/-- The text of a phase, as it is stored and printed. -/
def Phase.value : Phase → String
  | .created => "created"
  | .intro => "intro"
  | .tech => "tech"
  | .qa => "qa"
  | .close => "close"
  | .completed => "completed"
  | .aborted => "aborted"

/-- In a terminal phase every event is a no-op. -/
def terminalPhases : List Phase := [.completed, .aborted]

inductive Awaiting where
  | interviewer
  | candidate
  deriving DecidableEq

inductive AbortReason where
  | candidateTimeout
  | costCeiling
  | operatorAbort
  | fatalAgentError
  deriving DecidableEq

inductive DecisionReason where
  | planInvalid
  | agentFailure
  | timeout
  | operator
  | completed
  deriving DecidableEq

/-- The 2/1/0 adjudication table. -/
inductive Verdict where
  | answered
  | clarify
  | none
  deriving DecidableEq

inductive AdjudicationBasis where
  | assessment
  | pending
  | failed
  | notAssessable
  deriving DecidableEq

inductive GapMarker where
  | gapNotAssessable
  | gapBudgetExhausted
  | assessmentFailed
  | levelZero
  deriving DecidableEq

/-- Per-rubric-node coverage: the best level (ties go to the later assessment),
    the latest one, and the markers reviewers see. -/
structure CoverageCell where
  bestLevel : Option Int := none
  bestConfidence : Option ℚ := none
  latestLevel : Option Int := none
  latestConfidence : Option ℚ := none
  gapNotAssessable : Bool := false
  assessmentFailed : Bool := false
  gapBudgetExhausted : Bool := false
  needsManualReview : Bool := false
  redFlags : List RedFlagType := []
  deriving DecidableEq

/-- The sub-state of the technical phase. -/
structure TechState where
  competencyIndex : Int := 0
  seedIndex : Int := 0
  probesUsed : Int := 0
  driftCount : Int := 0
  competencyStartedAt : Option Instant := none
  coverage : Dict String CoverageCell := .empty
  pendingAssessments : List Uuid := []
  assessmentFocus : Dict Uuid String := .empty

/-- Ask the interviewer wrapper for the next utterance. -/
structure RunInterviewer where
  turnId : Uuid
  move : InterviewerMove
  competencyNodeId : Option String := none
  moveContext : Dict String Json := .empty
  retry : Bool := false

/-- Schedule the assessor wrapper for a candidate turn. -/
structure RunAssessor where
  turnId : Uuid
  competencyFocus : String
  deriving DecidableEq

/-- Send the interviewer's utterance to the candidate. -/
structure DeliverUtterance where
  turnId : Uuid
  utterance : String
  deriving DecidableEq

structure EmitScriptedOpening where
  turnId : Uuid
  scriptPath : String := openingScriptPath
  deriving DecidableEq

structure EmitScriptedClosing where
  turnId : Uuid
  scriptPath : String := closingScriptPath
  deriving DecidableEq

structure FlagTurnDegraded where
  turnId : Uuid
  errorKind : String
  deriving DecidableEq

structure RecordGap where
  nodeId : String
  marker : GapMarker
  deriving DecidableEq

structure RecordDecision where
  reason : DecisionReason
  deriving DecidableEq

/-- The outbound commands a resume may have to re-issue. -/
inductive PendingCommand where
  | runInterviewer (command : RunInterviewer)
  | deliverUtterance (command : DeliverUtterance)
  | emitScriptedOpening (command : EmitScriptedOpening)
  | emitScriptedClosing (command : EmitScriptedClosing)

def PendingCommand.turnId : PendingCommand → Uuid
  | .runInterviewer c => c.turnId
  | .deliverUtterance c => c.turnId
  | .emitScriptedOpening c => c.turnId
  | .emitScriptedClosing c => c.turnId

/-- Everything the machine can ask the shell to do. -/
inductive Command where
  | runInterviewer (command : RunInterviewer)
  | runAssessor (command : RunAssessor)
  | deliverUtterance (command : DeliverUtterance)
  | emitScriptedOpening (command : EmitScriptedOpening)
  | emitScriptedClosing (command : EmitScriptedClosing)
  | flagTurnDegraded (command : FlagTurnDegraded)
  | recordGap (command : RecordGap)
  | recordDecision (command : RecordDecision)
  | endSession
  | persistState
  | reissuePendingCommand (command : PendingCommand)

/-- The whole persisted working state of one session. -/
structure SessionState where
  stateSchemaVersion : Int
  sessionId : Uuid
  phase : Phase := .created
  awaiting : Option Awaiting := none
  lastIssuedMove : Option InterviewerMove := none
  planInput : Dict String Json := .empty
  plan : Option PlanSnapshot := none
  tech : TechState := {}
  abortReason : Option AbortReason := none
  flaggedForReview : Bool := false
  needsManualReview : Bool := false
  cheatFlagCount : Int := 0
  interviewerFailureStreak : Int := 0
  turnSeq : Int := 0
  sessionStartedAt : Option Instant := none
  qaStartedAt : Option Instant := none
  lastCandidateActivity : Option Instant := none
  pendingCommand : Option PendingCommand := none

/-- The input alphabet. -/
inductive Event where
  | sessionStarted (now : Instant)
  | candidateTurnReceived (turnId : Uuid) (text : String) (now : Instant)
  | interviewerReplyReady (turnId : Uuid) (output : InterviewerOutput) (now : Instant)
  | interviewerFailed (turnId : Uuid) (errorKind : String) (now : Instant)
  | assessmentCompleted (forTurnId : Uuid) (output : AssessorOutput) (now : Instant)
  | assessmentFailed (forTurnId : Uuid) (errorKind : String) (now : Instant)
  | timerTick (now : Instant)
  | reconnected (now : Instant)
  | operatorAbort (reason : AbortReason) (now : Instant)

/-- The result of the adjudication table for one competency. -/
structure Adjudication where
  verdict : Verdict
  basis : AdjudicationBasis
  gapMarker : Option GapMarker := none
  deriving DecidableEq

/-- The whole output of one transition. -/
structure TransitionResult where
  newState : SessionState
  commands : List Command := []

/-- What a transition can raise: a state the machine cannot reach by its own
    transitions, or a time budget that the language's clock types cannot hold. -/
inductive OrchestratorError where
  | stateError (message : String)
  | overflowError
  deriving DecidableEq

end TechScreen
