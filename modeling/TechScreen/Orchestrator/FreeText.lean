import TechScreen.Orchestrator.Invariant

/-!
# Routing Ignores Free Text

No routing decision reads what a model or a candidate wrote. What the machine
may route on is kept by `routing`, which blanks everything else: the texts on
events and commands, the move an interviewer claims to have executed, the red
flags and review requests of an assessor, and the counts and flags of the
session that these feed. Two inputs, two states or two commands that agree
except in such fields are exactly those with equal routing parts.

The argument is an unwinding. Running the machine on the routing part of a
state and an event gives the routing part of what it gives on the whole of
them, handler by handler. Most handlers even commute with blanking; the two
that update the blanked counts do so up to blanking. Hence equal routing parts
in give equal routing parts out, and `feed_agree` carries this along a run.

## Main definitions

* `CoverageCell.routing`, `TechState.routing`, `SessionState.routing`: What the
  machine may route on.
* `Event.routing`, `Command.routing`: The same, of inputs and outputs.

## Theorems

* `adjudicate_routing`: The verdict reads the routing part of a cell only.
* `transition_routing`: A transition commutes with blanking, up to blanking.
* `routing_ignores_free_text`: Two runs whose events agree in routing agree in
  routing after every prefix.
-/

namespace TechScreen

open Lib

def CoverageCell.routing (c : CoverageCell) : CoverageCell :=
  { c with needsManualReview := false, redFlags := [] }

def AssessmentItem.routing (item : AssessmentItem) : AssessmentItem :=
  { item with rationaleEn := "", evidenceSpans := [] }

def AssessorOutput.routing (output : AssessorOutput) : AssessorOutput :=
  { output with
    assessments := output.assessments.map AssessmentItem.routing
    redFlags := []
    needsManualReview := false
    manualReviewReasonEn := none }

/-- Nothing of what an interviewer returns is routed on, so every output is
    blanked to the same one. -/
def InterviewerOutput.routing (_ : InterviewerOutput) : InterviewerOutput := ⟨"", .askSeed⟩

def Event.routing : Event → Event
  | .candidateTurnReceived turnId _ now => .candidateTurnReceived turnId "" now
  | .interviewerReplyReady turnId output now => .interviewerReplyReady turnId output.routing now
  | .interviewerFailed turnId _ now => .interviewerFailed turnId "" now
  | .assessmentCompleted forTurnId output now =>
      .assessmentCompleted forTurnId output.routing now
  | .assessmentFailed forTurnId _ now => .assessmentFailed forTurnId "" now
  | e => e

def PendingCommand.routing : PendingCommand → PendingCommand
  | .deliverUtterance c => .deliverUtterance { c with utterance := "" }
  | c => c

def Command.routing : Command → Command
  | .deliverUtterance c => .deliverUtterance { c with utterance := "" }
  | .flagTurnDegraded c => .flagTurnDegraded { c with errorKind := "" }
  | .reissuePendingCommand c => .reissuePendingCommand c.routing
  | c => c

def TechState.routing (t : TechState) : TechState :=
  { t with driftCount := 0, coverage := t.coverage.mapValues CoverageCell.routing }

/-- What the machine may route on. -/
def SessionState.routing (s : SessionState) : SessionState :=
  { s with
    tech := s.tech.routing
    flaggedForReview := false
    needsManualReview := false
    cheatFlagCount := 0
    pendingCommand := s.pendingCommand.map PendingCommand.routing }

def TransitionResult.routing (r : TransitionResult) : TransitionResult :=
  ⟨r.newState.routing, r.commands.map Command.routing⟩

section Idempotence

theorem PendingCommand.routing_routing (c : PendingCommand) : c.routing.routing = c.routing := by
  cases c with
  | runInterviewer c => rfl
  | deliverUtterance c => rfl
  | emitScriptedOpening c => rfl
  | emitScriptedClosing c => rfl

theorem Command.routing_routing (c : Command) : c.routing.routing = c.routing := by
  cases c with
  | reissuePendingCommand c =>
      simp only [Command.routing, PendingCommand.routing_routing]
  | _ => rfl

theorem TechState.routing_routing (t : TechState) : t.routing.routing = t.routing := by
  simp only [TechState.routing, Dict.mapValues_mapValues CoverageCell.routing (fun _ => rfl)]

theorem SessionState.routing_routing (s : SessionState) : s.routing.routing = s.routing := by
  have hpending : (s.pendingCommand.map PendingCommand.routing).map PendingCommand.routing
      = s.pendingCommand.map PendingCommand.routing := by
    rw [Option.map_map]
    exact congrArg (fun f => s.pendingCommand.map f)
      (funext (fun c => PendingCommand.routing_routing c))
  simp only [SessionState.routing, TechState.routing_routing, hpending]

theorem TransitionResult.routing_routing (r : TransitionResult) :
    r.routing.routing = r.routing := by
  have hcommands : (r.commands.map Command.routing).map Command.routing
      = r.commands.map Command.routing := by
    rw [List.map_map]
    exact List.map_congr_left (fun c _ => Command.routing_routing c)
  simp only [TransitionResult.routing, SessionState.routing_routing, hcommands]

end Idempotence

section Coverage

/-- Reading a cell of blanked coverage. -/
theorem getD_routing (coverage : Dict String CoverageCell) (node : String) :
    ((coverage.mapValues CoverageCell.routing).get? node).getD {}
      = ((coverage.get? node).getD {}).routing := by
  rw [Dict.get?_mapValues]
  cases coverage.get? node with
  | none => rfl
  | some c => rfl

/-- The verdict reads the routing part of a cell only. -/
theorem adjudicate_routing (cell : Option CoverageCell) (target probes : Int) (remaining : ℚ)
    (cfg : OrchestratorConfig) :
    adjudicate (cell.map CoverageCell.routing) target probes remaining cfg
      = adjudicate cell target probes remaining cfg := by
  cases cell with
  | none => rfl
  | some c =>
      have hanswered : isAnswered (some c.routing) target cfg = isAnswered (some c) target cfg := by
        rcases c with ⟨level, confidence, _⟩
        cases level with
        | none => rfl
        | some l =>
            cases confidence with
            | none => rfl
            | some q => rfl
      have hbasis : basis (some c.routing) = basis (some c) := rfl
      have hzero : isLevelZero (some c.routing) = isLevelZero (some c) := rfl
      have hgap : isNotAssessable (some c.routing) = isNotAssessable (some c) := rfl
      simp only [Option.map_some, adjudicate, hanswered, hbasis, hzero, hgap]

theorem recordItem_routing (coverage : Dict String CoverageCell) (item : AssessmentItem) :
    recordItem (coverage.mapValues CoverageCell.routing) item.routing
      = (recordItem coverage item).mapValues CoverageCell.routing := by
  simp only [recordItem, AssessmentItem.routing, getD_routing, Dict.mapValues_set]
  rfl

theorem recordLevels_routing (coverage : Dict String CoverageCell) (output : AssessorOutput) :
    recordLevels (coverage.mapValues CoverageCell.routing) output.routing
      = (recordLevels coverage output).mapValues CoverageCell.routing := by
  have hfold : ∀ (items : List AssessmentItem) (cov : Dict String CoverageCell),
      (items.map AssessmentItem.routing).foldl recordItem (cov.mapValues CoverageCell.routing)
        = (items.foldl recordItem cov).mapValues CoverageCell.routing := by
    intro items
    induction items with
    | nil => intro cov; rfl
    | cons item rest ih =>
        intro cov
        rw [List.map_cons, List.foldl_cons, List.foldl_cons, recordItem_routing, ih]
  unfold recordLevels
  simp only [AssessorOutput.routing, List.map_eq_nil_iff]
  by_cases hempty : output.assessments = []
  · rw [if_pos hempty, if_pos hempty, getD_routing, Dict.mapValues_set]
    rfl
  · rw [if_neg hempty, if_neg hempty, hfold]

/-- Review signals only reach what is blanked; all that is left of them is that
    the focus has a cell. -/
theorem recordReviewSignals_routing (coverage : Dict String CoverageCell)
    (output : AssessorOutput) :
    (recordReviewSignals (coverage.mapValues CoverageCell.routing) output.routing).mapValues
        CoverageCell.routing
      = (recordReviewSignals coverage output).mapValues CoverageCell.routing := by
  simp only [recordReviewSignals, AssessorOutput.routing, Dict.mapValues_set, getD_routing,
    Dict.mapValues_mapValues CoverageCell.routing (fun _ => rfl)]
  rfl

theorem markGap_routing (tech : TechState) (c : PlannedCompetency) (marker : Option GapMarker) :
    markGap tech.routing c marker = (markGap tech c marker).routing := by
  unfold markGap
  by_cases hm : marker = some .gapBudgetExhausted
  · rw [if_pos hm, if_pos hm]
    simp only [TechState.routing, getD_routing, Dict.mapValues_set]
    rfl
  · rw [if_neg hm, if_neg hm]

end Coverage

section Handlers
variable {cfg : OrchestratorConfig} (s : SessionState)

theorem enterQa_routing (now : Instant) :
    enterQa s.routing now = (enterQa s now).map (fun r => (r.1.routing, r.2)) := by
  have hr : requirePlan s.routing = requirePlan s := rfl
  unfold enterQa
  rw [hr]
  cases requirePlan s with
  | error x => rfl
  | ok plan => rfl

theorem abort_routing (reason : AbortReason) (decision : DecisionReason) (persist : Bool) :
    abort s.routing reason decision persist = (abort s reason decision persist).routing := by
  cases persist with
  | true => rfl
  | false => rfl

theorem leaveCompetency_routing (plan : PlanSnapshot) (c : PlannedCompetency) (tech : TechState)
    (now : Instant) (move : InterviewerMove) (assessor : RunAssessor) (tail : List Command)
    (htail : tail.map Command.routing = tail) :
    leaveCompetency s.routing plan c tech.routing now move assessor tail
      = (leaveCompetency s plan c tech now move assessor tail).map TransitionResult.routing := by
  have hindex : tech.routing.competencyIndex = tech.competencyIndex := rfl
  unfold leaveCompetency
  rw [hindex]
  cases plan.competency (tech.competencyIndex + 1) with
  | none =>
      have hqa := enterQa_routing { s with lastCandidateActivity := some now, tech := tech } now
      simp only
      change ((enterQa (SessionState.routing { s with
        lastCandidateActivity := some now, tech := tech }) now).bind _) = _
      rw [hqa]
      cases enterQa { s with lastCandidateActivity := some now, tech := tech } now with
      | error x => rfl
      | ok r =>
          simp only [Except.map, Except.bind, bind, TransitionResult.routing, List.map_cons,
            List.map_append, htail]
          rfl
  | some following =>
      simp only [Except.map, Except.bind, bind, TransitionResult.routing, List.map_cons,
        List.map_append, htail]
      rfl

theorem onTechCandidateTurn_routing (turnId : Uuid) (now : Instant) :
    onTechCandidateTurn s.routing turnId now cfg
      = (onTechCandidateTurn s turnId now cfg).map TransitionResult.routing := by
  have hr : requirePlan s.routing = requirePlan s := rfl
  have hc : currentCompetency s.routing = currentCompetency s := rfl
  unfold onTechCandidateTurn
  rw [hr, hc]
  cases requirePlan s with
  | error x => rfl
  | ok plan =>
  cases currentCompetency s with
  | error x => rfl
  | ok c =>
  -- What routes is untouched by the blanking, field by field.
  have htech : scheduleAssessment s.routing.tech turnId c
      = (scheduleAssessment s.tech turnId c).routing := rfl
  have hstarted : (scheduleAssessment s.tech turnId c).routing.competencyStartedAt
      = (scheduleAssessment s.tech turnId c).competencyStartedAt := rfl
  have hcell : (scheduleAssessment s.tech turnId c).routing.coverage.get? c.nodeId
      = ((scheduleAssessment s.tech turnId c).coverage.get? c.nodeId).map CoverageCell.routing :=
    Dict.get?_mapValues _ _ _
  have hprobes : (scheduleAssessment s.tech turnId c).routing.probesUsed
      = (scheduleAssessment s.tech turnId c).probesUsed := rfl
  have hseed : (scheduleAssessment s.tech turnId c).routing.seedIndex
      = (scheduleAssessment s.tech turnId c).seedIndex := rfl
  simp only [bind, Except.bind, htech, hstarted, hcell, hprobes, hseed, adjudicate_routing]
  cases secondsRemaining c (scheduleAssessment s.tech turnId c).competencyStartedAt now with
  | error x => rfl
  | ok remaining =>
  simp only
  -- The three exits of the handler, and the two ways to leave.
  split
  · rfl
  · rw [markGap_routing]
    exact leaveCompetency_routing s _ _ _ _ _ _ _ rfl
  · cases c.seedQuestion ((scheduleAssessment s.tech turnId c).seedIndex + 1) with
    | none => exact leaveCompetency_routing s _ _ _ _ _ _ _ rfl
    | some seed =>
        simp only
        by_cases hremaining : remaining > 0
        · rw [if_pos hremaining, if_pos hremaining]
          rfl
        · rw [if_neg hremaining, if_neg hremaining]
          exact leaveCompetency_routing s _ _ _ _ _ _ _ rfl

theorem onCandidateTurn_routing (turnId : Uuid) (now : Instant) :
    onCandidateTurn s.routing turnId now cfg
      = (onCandidateTurn s turnId now cfg).map TransitionResult.routing := by
  have hp : s.routing.phase = s.phase := rfl
  have ha : s.routing.awaiting = s.awaiting := rfl
  have hr : requirePlan s.routing = requirePlan s := rfl
  have hq : qaBudgetExhausted s.routing now = qaBudgetExhausted s now := rfl
  unfold onCandidateTurn
  rw [hp, ha]
  cases s.phase with
  | intro =>
      simp only [onIntroCandidateTurn]
      rw [hr]
      cases requirePlan s with
      | error x => rfl
      | ok plan => rfl
  | tech =>
      by_cases hc : s.awaiting ≠ some .candidate
      · simp only [if_pos hc]
        rfl
      · simp only [if_neg hc]
        exact onTechCandidateTurn_routing s turnId now
  | qa =>
      simp only [onQaCandidateTurn]
      rw [hq]
      cases qaBudgetExhausted s now with
      | error x => rfl
      | ok exhausted =>
          cases exhausted with
          | true => rfl
          | false =>
              simp only [bind, Except.bind]
              rw [hr]
              cases requirePlan s with
              | error x => rfl
              | ok plan => rfl
  | created | close | completed | aborted => rfl

theorem onTimerTick_routing (now : Instant) :
    onTimerTick s.routing now cfg = (onTimerTick s now cfg).map TransitionResult.routing := by
  have hp : s.routing.phase = s.phase := rfl
  have ht : candidateTimedOut s.routing now cfg = candidateTimedOut s now cfg := rfl
  have hb : sessionBudgetExhausted s.routing now = sessionBudgetExhausted s now := rfl
  have hq : qaBudgetExhausted s.routing now = qaBudgetExhausted s now := rfl
  unfold onTimerTick
  rw [hp, ht, hb, hq]
  -- The clocks are what they were, so the branches are the same.
  cases candidateTimedOut s now cfg with
  | error x => rfl
  | ok timedOut =>
  cases timedOut with
  | true => rfl
  | false =>
  cases s.phase with
  | tech =>
      simp only [bind, Except.bind]
      cases sessionBudgetExhausted s now with
      | error x => rfl
      | ok exhausted =>
          cases exhausted with
          | false => rfl
          | true =>
              simp only
              rw [enterQa_routing]
              cases enterQa s now with
              | error x => rfl
              | ok r => rfl
  | qa =>
      simp only [bind, Except.bind]
      cases sessionBudgetExhausted s now with
      | error x => rfl
      | ok exhausted =>
          cases exhausted with
          | true => rfl
          | false =>
              cases qaBudgetExhausted s now with
              | error x => rfl
              | ok qaExhausted =>
                  cases qaExhausted with
                  | true => rfl
                  | false => rfl
  | created | intro | close | completed | aborted => rfl

theorem onReconnected_routing : onReconnected s.routing = (onReconnected s).routing := by
  have hp : s.routing.pendingCommand = s.pendingCommand.map PendingCommand.routing := rfl
  unfold onReconnected
  rw [hp]
  cases s.pendingCommand with
  | none => rfl
  | some c => rfl

theorem onAssessmentFailed_routing (forTurnId : Uuid) :
    onAssessmentFailed s.routing forTurnId = (onAssessmentFailed s forTurnId).routing := by
  have hp : s.routing.tech.pendingAssessments = s.tech.pendingAssessments := rfl
  have hf : s.routing.tech.assessmentFocus = s.tech.assessmentFocus := rfl
  have hd : dropPending s.routing.tech forTurnId = (dropPending s.tech forTurnId).routing := rfl
  unfold onAssessmentFailed
  rw [hp, hf, hd]
  by_cases hmem : forTurnId ∉ s.tech.pendingAssessments
  · rw [if_pos hmem, if_pos hmem]
    rfl
  · rw [if_neg hmem, if_neg hmem]
    cases s.tech.assessmentFocus.get? forTurnId with
    | none => rfl
    | some node =>
        simp only [TransitionResult.routing, SessionState.routing, TechState.routing,
          getD_routing, Dict.mapValues_set]
        rfl

theorem answersPendingCommand_routing (turnId : Uuid) :
    answersPendingCommand s.routing turnId = answersPendingCommand s turnId := by
  have hp : s.routing.pendingCommand = s.pendingCommand.map PendingCommand.routing := rfl
  unfold answersPendingCommand
  rw [hp]
  cases s.pendingCommand with
  | none => rfl
  | some c =>
      cases c with
      | runInterviewer c => rfl
      | deliverUtterance c => rfl
      | emitScriptedOpening c => rfl
      | emitScriptedClosing c => rfl

theorem onInterviewerFailed_routing (turnId : Uuid) (errorKind : String) :
    (onInterviewerFailed s.routing turnId "").routing
      = (onInterviewerFailed s turnId errorKind).routing := by
  have hphase : s.routing.phase = s.phase := rfl
  have hawaiting : s.routing.awaiting = s.awaiting := rfl
  have hpending : s.routing.pendingCommand = s.pendingCommand.map PendingCommand.routing := rfl
  have hstreak : s.routing.interviewerFailureStreak = s.interviewerFailureStreak := rfl
  have hignore : (ignore s.routing).routing = (ignore s).routing := by
    simp only [ignore, TransitionResult.routing, SessionState.routing_routing]
  unfold onInterviewerFailed
  rw [answersPendingCommand_routing, hphase, hawaiting, hpending, hstreak]
  by_cases hid : (!answersPendingCommand s turnId) = true
  · rw [if_pos hid, if_pos hid, hignore]
  rw [if_neg hid, if_neg hid]
  by_cases hidle : (s.phase ≠ .tech ∧ s.phase ≠ .qa) ∨ s.awaiting ≠ some .interviewer
  · rw [if_pos hidle, if_pos hidle, hignore]
  rw [if_neg hidle, if_neg hidle]
  -- The text of the error stays out of the commands but for the flag.
  cases s.pendingCommand with
  | none => exact hignore
  | some c =>
      cases c with
      | runInterviewer pending =>
          simp only [Option.map_some, PendingCommand.routing]
          by_cases hs : s.interviewerFailureStreak ≥ 1
          · rw [if_pos hs, if_pos hs, abort_routing, TransitionResult.routing_routing]
          · rw [if_neg hs, if_neg hs]
            simp only [TransitionResult.routing, SessionState.routing,
              TechState.routing_routing]
            rfl
      | deliverUtterance c => exact hignore
      | emitScriptedOpening c => exact hignore
      | emitScriptedClosing c => exact hignore

/-- What a reply says only reaches the delivered text and the drift count. -/
theorem onInterviewerReply_routing (turnId : Uuid) (output : InterviewerOutput) :
    (onInterviewerReply s.routing turnId output.routing cfg).routing
      = (onInterviewerReply s turnId output cfg).routing := by
  have hphase : s.routing.phase = s.phase := rfl
  have hawaiting : s.routing.awaiting = s.awaiting := rfl
  have hignore : (ignore s.routing).routing = (ignore s).routing := by
    simp only [ignore, TransitionResult.routing, SessionState.routing_routing]
  unfold onInterviewerReply
  rw [answersPendingCommand_routing, hphase, hawaiting]
  by_cases hid : (!answersPendingCommand s turnId) = true
  · rw [if_pos hid, if_pos hid, hignore]
  rw [if_neg hid, if_neg hid]
  by_cases hclose : s.phase = .close
  · rw [if_pos hclose, if_pos hclose]
    simp only [complete, TransitionResult.routing, SessionState.routing,
      TechState.routing_routing, Option.map_none]
  rw [if_neg hclose, if_neg hclose]
  by_cases hidle : (s.phase ≠ .tech ∧ s.phase ≠ .qa) ∨ s.awaiting ≠ some .interviewer
  · rw [if_pos hidle, if_pos hidle, hignore]
  rw [if_neg hidle, if_neg hidle]
  -- Drift is counted in a field that the blanking clears.
  have htech : (noteDrift s.routing output.routing.internalMoveExecuted cfg).1.routing
      = (noteDrift s output.internalMoveExecuted cfg).1.routing := by
    rcases noteDrift_fst s.routing output.routing.internalMoveExecuted cfg with ⟨d, hd⟩
    rcases noteDrift_fst s output.internalMoveExecuted cfg with ⟨d', hd'⟩
    rw [hd, hd']
    exact TechState.routing_routing s.tech
  generalize noteDrift s.routing output.routing.internalMoveExecuted cfg = p at htech ⊢
  generalize noteDrift s output.internalMoveExecuted cfg = q at htech ⊢
  simp only [TransitionResult.routing, SessionState.routing, htech]
  rfl

/-- What an assessor flags only reaches the blanked counts and flags. -/
theorem onAssessmentCompleted_routing (forTurnId : Uuid) (output : AssessorOutput) :
    (onAssessmentCompleted s.routing forTurnId output.routing cfg).routing
      = (onAssessmentCompleted s forTurnId output cfg).routing := by
  have hp : s.routing.tech.pendingAssessments = s.tech.pendingAssessments := rfl
  have hc : s.routing.tech.coverage = s.tech.coverage.mapValues CoverageCell.routing := rfl
  unfold onAssessmentCompleted
  rw [hp, hc]
  by_cases hmem : forTurnId ∉ s.tech.pendingAssessments
  · rw [if_pos hmem, if_pos hmem]
    simp only [ignore, TransitionResult.routing, SessionState.routing_routing]
  · rw [if_neg hmem, if_neg hmem, recordLevels_routing]
    simp only [TransitionResult.routing, SessionState.routing, TechState.routing,
      recordReviewSignals_routing]
    have hpending : (s.pendingCommand.map PendingCommand.routing).map PendingCommand.routing
        = s.pendingCommand.map PendingCommand.routing := by
      rw [Option.map_map]
      exact congrArg (fun f => s.pendingCommand.map f)
        (funext (fun c => PendingCommand.routing_routing c))
    rw [hpending]
    rfl

theorem onSessionStarted_routing [Scalars] (now : Instant) :
    onSessionStarted s.routing now = (onSessionStarted s now).routing := by
  have hi : s.routing.planInput = s.planInput := rfl
  unfold onSessionStarted
  rw [hi]
  cases PlanSnapshot.validatePlan (.obj s.planInput.entries) with
  | error x => rfl
  | ok plan => rfl

/-- A transition commutes with blanking, up to blanking. -/
theorem transition_routing [Scalars] (e : Event) :
    (transition s.routing e.routing cfg).map TransitionResult.routing
      = (transition s e cfg).map TransitionResult.routing := by
  have hphase : s.routing.phase = s.phase := rfl
  have hignore : (ignore s.routing).routing = (ignore s).routing := by
    simp only [ignore, TransitionResult.routing, SessionState.routing_routing]
  -- A handler that commutes with blanking commutes up to blanking.
  have hexact : ∀ x : Except OrchestratorError TransitionResult,
      (x.map TransitionResult.routing).map TransitionResult.routing
        = x.map TransitionResult.routing := by
    intro x
    cases x with
    | error err => rfl
    | ok r => simp only [Except.map, TransitionResult.routing_routing]
  unfold transition
  rw [hphase]
  by_cases hterminal : s.phase ∈ terminalPhases
  · rw [if_pos hterminal, if_pos hterminal]
    simp only [Except.map, hignore]
  rw [if_neg hterminal, if_neg hterminal]
  cases e with
  | sessionStarted now =>
      simp only [Event.routing]
      by_cases hc : s.phase = .created
      · simp only [if_pos hc, onSessionStarted_routing, Except.map,
          TransitionResult.routing_routing]
      · simp only [if_neg hc, Except.map, hignore]
  | candidateTurnReceived turnId text now =>
      simp only [Event.routing]
      by_cases hc : s.phase = .created
      · simp only [if_pos hc, Except.map, hignore]
      · rw [if_neg hc, if_neg hc, onCandidateTurn_routing, hexact]
  | interviewerReplyReady turnId output now =>
      simp only [Event.routing]
      by_cases hc : s.phase = .created
      · simp only [if_pos hc, Except.map, hignore]
      · simp only [if_neg hc, Except.map, onInterviewerReply_routing]
  | interviewerFailed turnId errorKind now =>
      simp only [Event.routing]
      by_cases hc : s.phase = .created
      · simp only [if_pos hc, Except.map, hignore]
      · simp only [if_neg hc, Except.map, onInterviewerFailed_routing s turnId errorKind]
  | assessmentCompleted forTurnId output now =>
      simp only [Event.routing, Except.map, onAssessmentCompleted_routing]
  | assessmentFailed forTurnId errorKind now =>
      simp only [Event.routing, Except.map, onAssessmentFailed_routing,
        TransitionResult.routing_routing]
  | timerTick now => simp only [Event.routing, onTimerTick_routing, hexact]
  | reconnected now =>
      simp only [Event.routing, Except.map, onReconnected_routing,
        TransitionResult.routing_routing]
  | operatorAbort reason now =>
      simp only [Event.routing, Except.map, abort_routing, TransitionResult.routing_routing]

end Handlers

/-- What may be routed on of a result of the machine. -/
abbrev routed (x : Except OrchestratorError (SessionState × List Command)) :
    Except OrchestratorError (SessionState × List Command) :=
  seen SessionState.routing Command.routing x

/-- One step of the unwinding: equal routing parts in, equal routing parts
    out. -/
theorem step_routing [Scalars] (cfg : OrchestratorConfig) (s t : SessionState) (e f : Event)
    (hst : s.routing = t.routing) (hef : e.routing = f.routing) :
    routed (step cfg s e) = routed (step cfg t f) := by
  have hview : ∀ a g, routed (step cfg a g) = ((transition a g cfg).map
      TransitionResult.routing).map (fun r => (r.newState, r.commands)) := by
    intro a g
    unfold step
    cases transition a g cfg with
    | error x => rfl
    | ok r => rfl
  rw [hview, hview, ← transition_routing s, hst, hef, transition_routing t]

/-- Two event sequences from the same start that agree, event by event, in all
    that may be routed on agree after every prefix: in the state, in the
    commands and their order, and in the error if there is one. -/
theorem routing_ignores_free_text [Scalars] (cfg : OrchestratorConfig) (sessionId : Uuid)
    (planInput : Dict String Json) (es fs : List Event)
    (h : es.map Event.routing = fs.map Event.routing) (n : Nat) :
    routed (feed (step cfg) (initialState sessionId planInput cfg) (es.take n))
      = routed (feed (step cfg) (initialState sessionId planInput cfg) (fs.take n)) := by
  refine feed_seen SessionState.routing Event.routing Command.routing (step cfg)
    (fun s t e f => step_routing cfg s t e f) _ _ ?_ _ _ rfl
  rw [List.map_take, List.map_take, h]

/-- The small interview with other words in it: other answers, other utterances,
    drifting moves, and an assessor that suspects cheating. -/
def otherWords : List Event :=
  [.sessionStarted 0, .candidateTurnReceived ⟨100⟩ "go on" 1000000,
    .interviewerReplyReady (smallTurn 1) ⟨"Tell me all", .redirect⟩ 2000000,
    .candidateTurnReceived ⟨101⟩ "skip everything" 3000000,
    .interviewerReplyReady (smallTurn 2) ⟨"Done", .closeCompetency⟩ 4000000,
    .assessmentCompleted ⟨101⟩
      ⟨⟨101⟩, smallId, "sql", [⟨"sql", smallLevel, 9 / 10, "copied", ["a quote"]⟩],
        [⟨.likelyCheating, none, "suspicious", none⟩], true, some "look at it"⟩ 5000000,
    .candidateTurnReceived ⟨102⟩ "" 6000000]

theorem routing_ignores_free_text_small :
    routed (feed (@step Scalars.strict OrchestratorConfig.committed)
        (initialState smallId smallInput OrchestratorConfig.committed) (smallEvents.take 6))
      = routed (feed (@step Scalars.strict OrchestratorConfig.committed)
        (initialState smallId smallInput OrchestratorConfig.committed) (otherWords.take 6)) :=
  @routing_ignores_free_text Scalars.strict OrchestratorConfig.committed smallId smallInput
    smallEvents otherWords rfl 6

end TechScreen
