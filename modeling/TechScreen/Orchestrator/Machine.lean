import TechScreen.Orchestrator.Adjudicate
import TechScreen.Lib.Run

/-!
# The Transition Function

The deterministic interview orchestrator: a function of a state, an event and
the routing thresholds that returns the next state and the commands the shell
must execute, in order. It reads no clock (every timestamp arrives on an
event) and draws no randomness (turn identifiers are version 5 UUIDs over a
structural counter).

The definitions follow the source handler by handler. What can be raised is
kept: a state without a plan where one is needed, and a time budget that does
not fit the language's clock types.

## Main definitions

* `deriveTurnId`: The identifier of a counter path.
* `initialState`: The pre-start state.
* `issueInterviewer`: Issuing a new interviewer move.
* `abort`, `enterClose`, `complete`, `enterQa`: The phase changes.
* `onTechCandidateTurn`: Scheduling the assessor and picking the next move.
* `transition`: Applying one event.
* `step`: The transition as a machine step.
-/

namespace TechScreen

open Lib

/-- Derive a deterministic command `turn_id` from a counter path. -/
def deriveTurnId (sessionId : Uuid) (path : String) : Uuid := uuid5 sessionId path

/-- Structural-counter path for the `turnSeq`-th outbound turn. -/
def turnPath (turnSeq : Int) : String := "turn/" ++ toString turnSeq

/-- The validated plan, or a loud failure. -/
def requirePlan (s : SessionState) : Except OrchestratorError PlanSnapshot :=
  match s.plan with
  | some plan => .ok plan
  | none => .error (.stateError ("phase " ++ s.phase.value ++ " reached without a validated plan"))

/-- The competency the technical phase is on. -/
def currentCompetency (s : SessionState) : Except OrchestratorError PlannedCompetency := do
  let plan ← requirePlan s
  match plan.competency s.tech.competencyIndex with
  | some c => .ok c
  | none =>
      .error (.stateError ("competency_index " ++ toString s.tech.competencyIndex
        ++ " is outside the plan"))

/-- No tabulated edge matches: the event is a no-op. -/
def ignore (s : SessionState) : TransitionResult := { newState := s, commands := [] }

/-- Whether an agent reply belongs to the outstanding command. -/
def answersPendingCommand (s : SessionState) (turnId : Uuid) : Bool :=
  match s.pendingCommand with
  | some c => c.turnId = turnId
  | none => false

/-- Context for the one bare `ask_seed` of the session. -/
def firstSeedContext (c : PlannedCompetency) : Dict String Json :=
  .ofList [("competency_node_id", .str c.nodeId), ("seed_index", .int 0),
    ("seed_question_uk", .str c.firstSeed)]

/-- Context for moving to the next seed inside the same competency. -/
def nextSeedContext (c : PlannedCompetency) (seedIndex : Int) (seed : String) :
    Dict String Json :=
  .ofList [("competency_node_id", .str c.nodeId), ("seed_index", .int seedIndex),
    ("next_seed_question_uk", .str seed)]

/-- Context for a `depth_probe`; the branch may be absent. -/
def probeContext (c : PlannedCompetency) (probeIndex : Int) : Dict String Json :=
  .ofList [("competency_node_id", .str c.nodeId), ("probe_index", .int probeIndex),
    ("probe_branch_uk", match c.probeBranch probeIndex with
      | some branch => .str branch
      | none => .null)]

/-- Context for a one-call competency advance. -/
def advanceContext (closing : Option PlannedCompetency) (following : PlannedCompetency) :
    Dict String Json :=
  .ofList [("closing_competency_node_id", match closing with
      | some c => .str c.nodeId
      | none => .null),
    ("competency_node_id", .str following.nodeId),
    ("next_competency_node_id", .str following.nodeId),
    ("next_competency_label_uk", .str following.labelUk), ("seed_index", .int 0),
    ("next_seed_question_uk", .str following.firstSeed)]

/-- Context for the transition into Q&A. -/
def qaContext (plan : PlanSnapshot) : Dict String Json :=
  .ofList [("phase", .str "qa"), ("qa_minutes", .int plan.qaMinutes)]

/-- The pre-start state the shell persists at session creation. -/
def initialState (sessionId : Uuid) (planInput : Dict String Json) (cfg : OrchestratorConfig) :
    SessionState :=
  { stateSchemaVersion := cfg.stateSchemaVersion, sessionId := sessionId, planInput := planInput }

/-- The command that a new interviewer move emits. -/
def interviewerCommand (s : SessionState) (move : InterviewerMove)
    (competencyNodeId : Option String) (moveContext : Dict String Json) : RunInterviewer :=
  { turnId := deriveTurnId s.sessionId (turnPath s.turnSeq), move := move,
    competencyNodeId := competencyNodeId, moveContext := moveContext }

/-- Issue a new interviewer move: bump the counter, record it as pending. -/
def issueInterviewer (s : SessionState) (move : InterviewerMove)
    (competencyNodeId : Option String) (moveContext : Dict String Json) :
    SessionState × RunInterviewer :=
  let command := interviewerCommand s move competencyNodeId moveContext
  ({ s with
      turnSeq := s.turnSeq + 1
      awaiting := some .interviewer
      lastIssuedMove := some move
      interviewerFailureStreak := 0
      pendingCommand := some (.runInterviewer command) }, command)

/-- Enter `ABORTED` with the reason the tabulated edge names. -/
def abort (s : SessionState) (reason : AbortReason) (decision : DecisionReason)
    (persist : Bool) : TransitionResult :=
  { newState := { s with
      phase := .aborted, abortReason := some reason, awaiting := none, pendingCommand := none }
    commands := .recordDecision ⟨decision⟩ :: (if persist then [.persistState] else []) }

/-- Edge 16: enter CLOSE and emit the scripted closing. -/
def enterClose (s : SessionState) : TransitionResult :=
  let closing : EmitScriptedClosing :=
    { turnId := deriveTurnId s.sessionId (turnPath s.turnSeq) }
  { newState := { s with
      phase := .close
      awaiting := some .interviewer
      lastIssuedMove := none
      turnSeq := s.turnSeq + 1
      pendingCommand := some (.emitScriptedClosing closing) }
    commands := [.emitScriptedClosing closing, .persistState] }

/-- Edge 17: CLOSE to COMPLETED. -/
def complete (s : SessionState) : TransitionResult :=
  { newState := { s with phase := .completed, awaiting := none, pendingCommand := none }
    commands := [.endSession, .recordDecision ⟨.completed⟩] }

/-- Edges 13/14: leave TECH for Q&A with one `acknowledge_and_transition`. -/
def enterQa (s : SessionState) (now : Instant) :
    Except OrchestratorError (SessionState × RunInterviewer) := do
  let plan ← requirePlan s
  .ok (issueInterviewer { s with phase := .qa, qaStartedAt := some now }
    .acknowledgeAndTransition none (qaContext plan))

/-- Silence longer than `candidate_timeout_minutes`. -/
def candidateTimedOut (s : SessionState) (now : Instant) (cfg : OrchestratorConfig) :
    Except OrchestratorError Bool :=
  match s.lastCandidateActivity with
  | none => .ok false
  | some t => do
      let limit ← timedeltaMinutes cfg.timing.candidateTimeoutMinutes
      .ok (now - t > limit)

/-- The session has reached `plan.session_max_minutes`. -/
def sessionBudgetExhausted (s : SessionState) (now : Instant) : Except OrchestratorError Bool :=
  match s.sessionStartedAt, s.plan with
  | some t, some plan => do
      let limit ← timedeltaMinutes plan.sessionMaxMinutes
      .ok (now - t ≥ limit)
  | _, _ => .ok false

/-- The Q&A budget from the plan has been reached. -/
def qaBudgetExhausted (s : SessionState) (now : Instant) : Except OrchestratorError Bool :=
  match s.qaStartedAt, s.plan with
  | some t, some plan => do
      let limit ← timedeltaMinutes plan.qaMinutes
      .ok (now - t ≥ limit)
  | _, _ => .ok true

/-- Edges 1/2: validate the plan, then open with the scripted opening. -/
def onSessionStarted [Scalars] (s : SessionState) (now : Instant) : TransitionResult :=
  match PlanSnapshot.validatePlan (.obj s.planInput.entries) with
  | .error _ => abort s .operatorAbort .planInvalid false
  | .ok plan =>
      let opening : EmitScriptedOpening :=
        { turnId := deriveTurnId s.sessionId (turnPath s.turnSeq) }
      { newState := { s with
          phase := .intro
          awaiting := some .interviewer
          plan := some plan
          sessionStartedAt := some now
          lastCandidateActivity := some now
          turnSeq := s.turnSeq + 1
          pendingCommand := some (.emitScriptedOpening opening) }
        commands := [.emitScriptedOpening opening, .persistState] }

/-- Edge 3: readiness confirmed, ask the first seed. -/
def onIntroCandidateTurn (s : SessionState) (now : Instant) :
    Except OrchestratorError TransitionResult := do
  let plan ← requirePlan s
  let c := plan.firstCompetency
  let entered := { s with
    phase := .tech
    lastCandidateActivity := some now
    tech := { s.tech with
      competencyIndex := 0, seedIndex := 0, probesUsed := 0, competencyStartedAt := some now } }
  let (s', command) := issueInterviewer entered .askSeed (some c.nodeId) (firstSeedContext c)
  .ok { newState := s', commands := [.runInterviewer command, .persistState] }

/-- Step 1 of edge 7: schedule the assessor for the turn. -/
def scheduleAssessment (tech : TechState) (turnId : Uuid) (c : PlannedCompetency) : TechState :=
  { tech with
    pendingAssessments := tech.pendingAssessments ++ [turnId]
    assessmentFocus := tech.assessmentFocus.set turnId c.nodeId }

/-- Edge 12: the exhausted budget is marked on the cell. -/
def markGap (tech : TechState) (c : PlannedCompetency) (marker : Option GapMarker) : TechState :=
  if marker = some .gapBudgetExhausted then
    let cell := (tech.coverage.get? c.nodeId).getD {}
    { tech with coverage := tech.coverage.set c.nodeId { cell with gapBudgetExhausted := true } }
  else tech

/-- Leave the competency: on to the next one, or to Q&A after the last. -/
def leaveCompetency (s : SessionState) (plan : PlanSnapshot) (c : PlannedCompetency)
    (tech : TechState) (now : Instant) (advanceMove : InterviewerMove) (assessor : RunAssessor)
    (tail : List Command) : Except OrchestratorError TransitionResult := do
  let (s', interviewer) ← match plan.competency (tech.competencyIndex + 1) with
    | none => enterQa { s with lastCandidateActivity := some now, tech := tech } now
    | some following =>
        .ok (issueInterviewer
          { s with
            lastCandidateActivity := some now
            tech := { tech with
              competencyIndex := tech.competencyIndex + 1, seedIndex := 0, probesUsed := 0,
              competencyStartedAt := some now } }
          advanceMove (some following.nodeId) (advanceContext (some c) following))
  .ok { newState := s'
        commands := .runAssessor assessor :: .runInterviewer interviewer
          :: (tail ++ [.persistState]) }

/-- Edge 11: probe the planned branch inside the same competency. -/
def probeCompetency (s : SessionState) (c : PlannedCompetency) (tech : TechState) (now : Instant)
    (assessor : RunAssessor) : TransitionResult :=
  let (s', interviewer) := issueInterviewer
    { s with
      lastCandidateActivity := some now
      tech := { tech with probesUsed := tech.probesUsed + 1 } }
    .depthProbe (some c.nodeId) (probeContext c tech.probesUsed)
  { newState := s'
    commands := [.runAssessor assessor, .runInterviewer interviewer, .persistState] }

/-- The multi-seed rule: stay on the competency, advance the seed. -/
def advanceSeed (s : SessionState) (c : PlannedCompetency) (tech : TechState) (now : Instant)
    (seed : String) (assessor : RunAssessor) : TransitionResult :=
  let (s', interviewer) := issueInterviewer
    { s with
      lastCandidateActivity := some now
      tech := { tech with seedIndex := tech.seedIndex + 1 } }
    .acknowledgeAndTransition (some c.nodeId) (nextSeedContext c (tech.seedIndex + 1) seed)
  { newState := s'
    commands := [.runAssessor assessor, .runInterviewer interviewer, .persistState] }

/-- Edge 7 (with 10 to 13): schedule the assessor, then pick the next move. -/
def onTechCandidateTurn (s : SessionState) (turnId : Uuid) (now : Instant)
    (cfg : OrchestratorConfig) : Except OrchestratorError TransitionResult := do
  let plan ← requirePlan s
  let c ← currentCompetency s
  let assessor : RunAssessor := ⟨turnId, c.nodeId⟩
  let tech := scheduleAssessment s.tech turnId c
  let remaining ← secondsRemaining c tech.competencyStartedAt now
  let verdict := adjudicate (tech.coverage.get? c.nodeId) c.targetLevel tech.probesUsed remaining
    cfg
  match verdict.verdict with
  | .clarify => .ok (probeCompetency s c tech now assessor)
  | .none =>
      leaveCompetency s plan c (markGap tech c verdict.gapMarker) now .closeCompetency assessor
        [.recordGap ⟨c.nodeId, verdict.gapMarker.getD .gapBudgetExhausted⟩]
  | .answered =>
      match c.seedQuestion (tech.seedIndex + 1) with
      | some seed =>
          if remaining > 0 then .ok (advanceSeed s c tech now seed assessor)
          else leaveCompetency s plan c tech now .acknowledgeAndTransition assessor []
      | none => leaveCompetency s plan c tech now .acknowledgeAndTransition assessor []

/-- Edges 15/16: answer the candidate's question, or close when time is up. -/
def onQaCandidateTurn (s : SessionState) (now : Instant) :
    Except OrchestratorError TransitionResult := do
  let heard := { s with lastCandidateActivity := some now }
  let exhausted ← qaBudgetExhausted s now
  if exhausted then .ok (enterClose heard)
  else do
    let plan ← requirePlan s
    let (s', interviewer) := issueInterviewer heard .acknowledgeAndTransition none (qaContext plan)
    .ok { newState := s', commands := [.runInterviewer interviewer] }

/-- Route a candidate turn by phase. -/
def onCandidateTurn (s : SessionState) (turnId : Uuid) (now : Instant)
    (cfg : OrchestratorConfig) : Except OrchestratorError TransitionResult :=
  match s.phase with
  | .intro => onIntroCandidateTurn s now
  | .tech =>
      -- No answer is expected while a move is in flight.
      if s.awaiting ≠ some .candidate then .ok (ignore s)
      else onTechCandidateTurn s turnId now cfg
  | .qa => onQaCandidateTurn s now
  | _ => .ok (ignore s)

/-- The drift accounting of a delivered reply: the issued move stays
    authoritative. -/
def noteDrift (s : SessionState) (executed : InterviewerMove) (cfg : OrchestratorConfig) :
    TechState × Bool :=
  if s.lastIssuedMove.isSome ∧ s.lastIssuedMove ≠ some executed then
    let tech := { s.tech with driftCount := s.tech.driftCount + 1 }
    (tech, s.flaggedForReview || tech.driftCount ≥ cfg.flags.driftToReview)
  else (s.tech, s.flaggedForReview)

/-- Edge 4 (and 17 in CLOSE): deliver the utterance, note any drift. -/
def onInterviewerReply (s : SessionState) (turnId : Uuid) (output : InterviewerOutput)
    (cfg : OrchestratorConfig) : TransitionResult :=
  if !answersPendingCommand s turnId then ignore s
  else if s.phase = .close then complete s
  else if (s.phase ≠ .tech ∧ s.phase ≠ .qa) ∨ s.awaiting ≠ some .interviewer then ignore s
  else
    let (tech, flagged) := noteDrift s output.internalMoveExecuted cfg
    let delivery : DeliverUtterance := ⟨turnId, output.utterance⟩
    { newState := { s with
        awaiting := some .candidate
        interviewerFailureStreak := 0
        tech := tech
        flaggedForReview := flagged
        pendingCommand := some (.deliverUtterance delivery) }
      commands := [.deliverUtterance delivery, .persistState] }

/-- Edges 5/6: repeat the move once, abort on a second consecutive miss. -/
def onInterviewerFailed (s : SessionState) (turnId : Uuid) (errorKind : String) :
    TransitionResult :=
  if !answersPendingCommand s turnId then ignore s
  else if (s.phase ≠ .tech ∧ s.phase ≠ .qa) ∨ s.awaiting ≠ some .interviewer then ignore s
  else
    match s.pendingCommand with
    | some (.runInterviewer pending) =>
        if s.interviewerFailureStreak ≥ 1 then abort s .fatalAgentError .agentFailure true
        else
          let retry := { pending with retry := true }
          { newState := { s with
              interviewerFailureStreak := s.interviewerFailureStreak + 1
              pendingCommand := some (.runInterviewer retry) }
            commands := [.runInterviewer retry, .flagTurnDegraded ⟨turnId, errorKind⟩,
              .persistState] }
    | _ => ignore s

/-- The `LIKELY_CHEATING` flags of an output. -/
def cheatFlags (output : AssessorOutput) : Nat :=
  output.redFlags.countP (fun flag => flag.type = cheatRedFlag)

/-- Edge 8: fold a completed assessment into coverage, in any live phase. -/
def onAssessmentCompleted (s : SessionState) (forTurnId : Uuid) (output : AssessorOutput)
    (cfg : OrchestratorConfig) : TransitionResult :=
  if forTurnId ∉ s.tech.pendingAssessments then ignore s
  else
    let coverage := recordReviewSignals (recordLevels s.tech.coverage output) output
    let cheatTotal := s.cheatFlagCount + cheatFlags output
    { newState := { s with
        tech := { dropPending s.tech forTurnId with coverage := coverage }
        cheatFlagCount := cheatTotal
        needsManualReview := s.needsManualReview || output.needsManualReview
        flaggedForReview :=
          s.flaggedForReview || cheatTotal ≥ cfg.flags.cheatFlagsToReview }
      commands := [.persistState] }

/-- Edge 9: mark the cell failed. Never aborts. -/
def onAssessmentFailed (s : SessionState) (forTurnId : Uuid) : TransitionResult :=
  if forTurnId ∉ s.tech.pendingAssessments then ignore s
  else
    let tech := dropPending s.tech forTurnId
    let marked := match s.tech.assessmentFocus.get? forTurnId with
      | some nodeId =>
          let cell := (tech.coverage.get? nodeId).getD {}
          { tech with coverage := tech.coverage.set nodeId { cell with assessmentFailed := true } }
      | none => tech
    { newState := { s with tech := marked }, commands := [.persistState] }

/-- Edges 14/16/17/18 with their priority order applied on one tick. -/
def onTimerTick (s : SessionState) (now : Instant) (cfg : OrchestratorConfig) :
    Except OrchestratorError TransitionResult := do
  -- Candidate silence beats every budget.
  let timedOut ← candidateTimedOut s now cfg
  if timedOut then .ok (abort s .candidateTimeout .timeout true)
  else
    match s.phase with
    | .tech => do
        let exhausted ← sessionBudgetExhausted s now
        if exhausted then do
          let (s', interviewer) ← enterQa s now
          .ok { newState := s', commands := [.runInterviewer interviewer] }
        else .ok (ignore s)
    | .qa => do
        let exhausted ← sessionBudgetExhausted s now
        if exhausted then .ok (enterClose s)
        else do
          let qaExhausted ← qaBudgetExhausted s now
          if qaExhausted then .ok (enterClose s) else .ok (ignore s)
    | .close => .ok (complete s)
    | _ => .ok (ignore s)

/-- Edge 21: re-issue the outstanding command. -/
def onReconnected (s : SessionState) : TransitionResult :=
  match s.pendingCommand with
  | none => { newState := s, commands := [.persistState] }
  | some command =>
      { newState := s, commands := [.reissuePendingCommand command, .persistState] }

/-- Apply one event to the session state. -/
def transition [Scalars] (s : SessionState) (e : Event) (cfg : OrchestratorConfig) :
    Except OrchestratorError TransitionResult :=
  if s.phase ∈ terminalPhases then .ok (ignore s)
  else
    match e with
    | .assessmentCompleted forTurnId output _ =>
        .ok (onAssessmentCompleted s forTurnId output cfg)
    | .assessmentFailed forTurnId _ _ => .ok (onAssessmentFailed s forTurnId)
    | .operatorAbort reason _ => .ok (abort s reason .operator true)
    | .reconnected _ => .ok (onReconnected s)
    | .timerTick now => onTimerTick s now cfg
    | .sessionStarted now =>
        -- Starting is the only way out of `created`, and nowhere else an edge.
        if s.phase = .created then .ok (onSessionStarted s now) else .ok (ignore s)
    | .candidateTurnReceived turnId _ now =>
        if s.phase = .created then .ok (ignore s) else onCandidateTurn s turnId now cfg
    | .interviewerReplyReady turnId output _ =>
        if s.phase = .created then .ok (ignore s)
        else .ok (onInterviewerReply s turnId output cfg)
    | .interviewerFailed turnId errorKind _ =>
        if s.phase = .created then .ok (ignore s)
        else .ok (onInterviewerFailed s turnId errorKind)

/-- The transition as a machine step. -/
def step [Scalars] (cfg : OrchestratorConfig) :
    Step SessionState Event Command OrchestratorError :=
  fun s e => (transition s e cfg).map (fun r => (r.newState, r.commands))

theorem step_eq_ok_iff [Scalars] (cfg : OrchestratorConfig) (s s' : SessionState) (e : Event)
    (out : List Command) :
    step cfg s e = .ok (s', out) ↔ transition s e cfg = .ok ⟨s', out⟩ := by
  unfold step
  cases h : transition s e cfg with
  | error x => simp only [Except.map, reduceCtorEq]
  | ok r =>
      rcases r with ⟨t, cmds⟩
      simp only [Except.map, Except.ok.injEq, Prod.mk.injEq, TransitionResult.mk.injEq]

end TechScreen
