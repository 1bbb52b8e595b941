import TechScreen.Orchestrator.SessionLimit

/-!
# No Absolute Time

The machine has no clock of its own, and it looks at the timestamps that its
events carry through their differences only: how long the session has run, how
long the candidate has been silent, what is left of a competency and of Q&A. So
an interview held at another time of the day is the same interview. Moving
every timestamp of a run by the same amount moves the timestamps in the states
by that amount, and changes nothing else: not a command, not a phase, not an
error.

## Main definitions

* `SessionState.shift`, `Event.shift`: The same at another time.

## Theorems

* `step_shift`: A step at another time.
* `interview_at_any_time`: A whole interview at another time.
-/

namespace TechScreen

open Lib

def TechState.shift (d : Int) (tech : TechState) : TechState :=
  { tech with competencyStartedAt := tech.competencyStartedAt.map (fun t => t + d) }

/-- The state of a session that is held `d` microseconds later. -/
def SessionState.shift (d : Int) (s : SessionState) : SessionState :=
  { s with
    tech := s.tech.shift d
    sessionStartedAt := s.sessionStartedAt.map (fun t => t + d)
    qaStartedAt := s.qaStartedAt.map (fun t => t + d)
    lastCandidateActivity := s.lastCandidateActivity.map (fun t => t + d) }

def TransitionResult.shift (d : Int) (r : TransitionResult) : TransitionResult :=
  { r with newState := r.newState.shift d }

/-- An event that arrives `d` microseconds later. -/
def Event.shift (d : Int) : Event → Event
  | .sessionStarted now => .sessionStarted (now + d)
  | .candidateTurnReceived turnId text now => .candidateTurnReceived turnId text (now + d)
  | .interviewerReplyReady turnId output now => .interviewerReplyReady turnId output (now + d)
  | .interviewerFailed turnId errorKind now => .interviewerFailed turnId errorKind (now + d)
  | .assessmentCompleted forTurnId output now => .assessmentCompleted forTurnId output (now + d)
  | .assessmentFailed forTurnId errorKind now => .assessmentFailed forTurnId errorKind (now + d)
  | .timerTick now => .timerTick (now + d)
  | .reconnected now => .reconnected (now + d)
  | .operatorAbort reason now => .operatorAbort reason (now + d)

section Clock
variable (d : Int) (s : SessionState) (now : Instant) (cfg : OrchestratorConfig)

theorem requirePlan_shift : requirePlan (s.shift d) = requirePlan s := rfl

theorem currentCompetency_shift : currentCompetency (s.shift d) = currentCompetency s := rfl

theorem candidateTimedOut_shift :
    candidateTimedOut (s.shift d) (now + d) cfg = candidateTimedOut s now cfg := by
  unfold candidateTimedOut SessionState.shift
  cases s.lastCandidateActivity with
  | none => rfl
  | some t => simp only [Option.map_some, add_sub_add_right_eq_sub]

theorem sessionBudgetExhausted_shift :
    sessionBudgetExhausted (s.shift d) (now + d) = sessionBudgetExhausted s now := by
  unfold sessionBudgetExhausted SessionState.shift
  cases s.sessionStartedAt with
  | none => rfl
  | some t =>
      cases s.plan with
      | none => rfl
      | some plan => simp only [Option.map_some, add_sub_add_right_eq_sub]

theorem qaBudgetExhausted_shift :
    qaBudgetExhausted (s.shift d) (now + d) = qaBudgetExhausted s now := by
  unfold qaBudgetExhausted SessionState.shift
  cases s.qaStartedAt with
  | none => rfl
  | some t =>
      cases s.plan with
      | none => rfl
      | some plan => simp only [Option.map_some, add_sub_add_right_eq_sub]

theorem secondsRemaining_shift (c : PlannedCompetency) (startedAt : Option Instant) :
    secondsRemaining c (startedAt.map (fun t => t + d)) (now + d)
      = secondsRemaining c startedAt now := by
  unfold secondsRemaining
  cases startedAt with
  | none => rfl
  | some t => simp only [Option.map_some, add_sub_add_right_eq_sub]

theorem enterQa_shift :
    enterQa (s.shift d) (now + d) = (enterQa s now).map (fun r => (r.1.shift d, r.2)) := by
  unfold enterQa
  rw [requirePlan_shift]
  cases requirePlan s with
  | error x => rfl
  | ok plan => rfl

end Clock

section Handlers
variable (d : Int) (s : SessionState) (now : Instant) (cfg : OrchestratorConfig)

theorem leaveCompetency_shift (plan : PlanSnapshot) (c : PlannedCompetency) (tech : TechState)
    (move : InterviewerMove) (assessor : RunAssessor) (tail : List Command) :
    leaveCompetency (s.shift d) plan c (tech.shift d) (now + d) move assessor tail
      = (leaveCompetency s plan c tech now move assessor tail).map (TransitionResult.shift d) := by
  unfold leaveCompetency
  have hindex : (tech.shift d).competencyIndex = tech.competencyIndex := rfl
  rw [hindex]
  cases plan.competency (tech.competencyIndex + 1) with
  | some following => rfl
  | none =>
      have hqa := enterQa_shift d { s with lastCandidateActivity := some now, tech := tech } now
      change (enterQa (SessionState.shift d
        { s with lastCandidateActivity := some now, tech := tech }) (now + d) >>= _) = _
      rw [hqa]
      cases enterQa { s with lastCandidateActivity := some now, tech := tech } now with
      | error x => rfl
      | ok r => rfl

theorem markGap_shift (tech : TechState) (c : PlannedCompetency) (marker : Option GapMarker) :
    markGap (tech.shift d) c marker = (markGap tech c marker).shift d := by
  unfold markGap
  split
  · rfl
  · rfl

/-- An answer is adjudicated on what is left of its competency. -/
theorem onTechCandidateTurn_shift (turnId : Uuid) :
    onTechCandidateTurn (s.shift d) turnId (now + d) cfg
      = (onTechCandidateTurn s turnId now cfg).map (TransitionResult.shift d) := by
  unfold onTechCandidateTurn
  rw [requirePlan_shift, currentCompetency_shift]
  cases requirePlan s with
  | error x => rfl
  | ok plan =>
  cases currentCompetency s with
  | error x => rfl
  | ok c =>
  have hsched : scheduleAssessment (s.shift d).tech turnId c
      = (scheduleAssessment s.tech turnId c).shift d := rfl
  have hclock :
      secondsRemaining c ((scheduleAssessment s.tech turnId c).shift d).competencyStartedAt
          (now + d)
        = secondsRemaining c (scheduleAssessment s.tech turnId c).competencyStartedAt now :=
    secondsRemaining_shift d now c _
  simp only [bind, Except.bind, hsched, hclock]
  cases secondsRemaining c (scheduleAssessment s.tech turnId c).competencyStartedAt now with
  | error x => rfl
  | ok remaining =>
  -- The verdict reads the coverage and the time left, which are the same.
  have hcell : ((scheduleAssessment s.tech turnId c).shift d).coverage
      = (scheduleAssessment s.tech turnId c).coverage := rfl
  have hprobes : ((scheduleAssessment s.tech turnId c).shift d).probesUsed
      = (scheduleAssessment s.tech turnId c).probesUsed := rfl
  have hseed : ((scheduleAssessment s.tech turnId c).shift d).seedIndex
      = (scheduleAssessment s.tech turnId c).seedIndex := rfl
  simp only [hcell, hprobes, hseed, markGap_shift, leaveCompetency_shift]
  split
  · rfl
  · rfl
  · split
    · split
      · rfl
      · rfl
    · rfl

theorem onQaCandidateTurn_shift :
    onQaCandidateTurn (s.shift d) (now + d)
      = (onQaCandidateTurn s now).map (TransitionResult.shift d) := by
  unfold onQaCandidateTurn
  rw [qaBudgetExhausted_shift, requirePlan_shift]
  cases qaBudgetExhausted s now with
  | error x => rfl
  | ok exhausted =>
  cases exhausted with
  | true => rfl
  | false =>
  cases requirePlan s with
  | error x => rfl
  | ok plan => rfl

theorem onCandidateTurn_shift (turnId : Uuid) :
    onCandidateTurn (s.shift d) turnId (now + d) cfg
      = (onCandidateTurn s turnId now cfg).map (TransitionResult.shift d) := by
  have hphase : (s.shift d).phase = s.phase := rfl
  have hawaiting : (s.shift d).awaiting = s.awaiting := rfl
  unfold onCandidateTurn
  rw [hphase, hawaiting]
  cases s.phase with
  | intro =>
      simp only [onIntroCandidateTurn, requirePlan_shift]
      cases requirePlan s with
      | error x => rfl
      | ok plan => rfl
  | tech =>
      simp only
      split
      · rfl
      · exact onTechCandidateTurn_shift d s now cfg turnId
  | qa => exact onQaCandidateTurn_shift d s now
  | created | close | completed | aborted => rfl

theorem noteDrift_shift (executed : InterviewerMove) :
    noteDrift (s.shift d) executed cfg
      = ((noteDrift s executed cfg).1.shift d, (noteDrift s executed cfg).2) := by
  have hissued : (s.shift d).lastIssuedMove = s.lastIssuedMove := rfl
  unfold noteDrift
  rw [hissued]
  split
  · rfl
  · rfl

theorem onInterviewerReply_shift (turnId : Uuid) (output : InterviewerOutput) :
    onInterviewerReply (s.shift d) turnId output cfg
      = (onInterviewerReply s turnId output cfg).shift d := by
  have hanswers : answersPendingCommand (s.shift d) turnId = answersPendingCommand s turnId := rfl
  have hphase : (s.shift d).phase = s.phase := rfl
  have hawaiting : (s.shift d).awaiting = s.awaiting := rfl
  unfold onInterviewerReply
  rw [hanswers, hphase, hawaiting, noteDrift_shift]
  split
  · rfl
  · split
    · rfl
    · split
      · rfl
      · rfl

theorem onInterviewerFailed_shift (turnId : Uuid) (errorKind : String) :
    onInterviewerFailed (s.shift d) turnId errorKind
      = (onInterviewerFailed s turnId errorKind).shift d := by
  have hanswers : answersPendingCommand (s.shift d) turnId = answersPendingCommand s turnId := rfl
  have hphase : (s.shift d).phase = s.phase := rfl
  have hawaiting : (s.shift d).awaiting = s.awaiting := rfl
  have hpending : (s.shift d).pendingCommand = s.pendingCommand := rfl
  have hstreak : (s.shift d).interviewerFailureStreak = s.interviewerFailureStreak := rfl
  unfold onInterviewerFailed
  rw [hanswers, hphase, hawaiting, hpending, hstreak]
  split
  · rfl
  · split
    · rfl
    · split
      · split
        · rfl
        · rfl
      · rfl

theorem onAssessmentCompleted_shift (forTurnId : Uuid) (output : AssessorOutput) :
    onAssessmentCompleted (s.shift d) forTurnId output cfg
      = (onAssessmentCompleted s forTurnId output cfg).shift d := by
  have hpending : (s.shift d).tech.pendingAssessments = s.tech.pendingAssessments := rfl
  unfold onAssessmentCompleted
  rw [hpending]
  split
  · rfl
  · rfl

theorem onAssessmentFailed_shift (forTurnId : Uuid) :
    onAssessmentFailed (s.shift d) forTurnId = (onAssessmentFailed s forTurnId).shift d := by
  have hpending : (s.shift d).tech.pendingAssessments = s.tech.pendingAssessments := rfl
  have hfocus : (s.shift d).tech.assessmentFocus = s.tech.assessmentFocus := rfl
  unfold onAssessmentFailed
  rw [hpending, hfocus]
  split
  · rfl
  · cases s.tech.assessmentFocus.get? forTurnId with
    | none => rfl
    | some node => rfl

/-- A tick finds the same budgets spent. -/
theorem onTimerTick_shift :
    onTimerTick (s.shift d) (now + d) cfg
      = (onTimerTick s now cfg).map (TransitionResult.shift d) := by
  have hphase : (s.shift d).phase = s.phase := rfl
  unfold onTimerTick
  rw [candidateTimedOut_shift, sessionBudgetExhausted_shift, qaBudgetExhausted_shift, hphase,
    enterQa_shift]
  cases candidateTimedOut s now cfg with
  | error x => rfl
  | ok timedOut =>
  cases timedOut with
  | true => rfl
  | false =>
  cases s.phase with
  | tech =>
      cases sessionBudgetExhausted s now with
      | error x => rfl
      | ok exhausted =>
      cases exhausted with
      | false => rfl
      | true =>
      cases enterQa s now with
      | error x => rfl
      | ok r => rfl
  | qa =>
      cases sessionBudgetExhausted s now with
      | error x => rfl
      | ok exhausted =>
      cases exhausted with
      | true => rfl
      | false =>
      cases qaBudgetExhausted s now with
      | error x => rfl
      | ok qaExhausted =>
      cases qaExhausted with
      | true => rfl
      | false => rfl
  | created | intro | close | completed | aborted => rfl

theorem onReconnected_shift : onReconnected (s.shift d) = (onReconnected s).shift d := by
  have hpending : (s.shift d).pendingCommand = s.pendingCommand := rfl
  unfold onReconnected
  rw [hpending]
  cases s.pendingCommand with
  | none => rfl
  | some c => rfl

variable [Scalars]

theorem onSessionStarted_shift :
    onSessionStarted (s.shift d) (now + d) = (onSessionStarted s now).shift d := by
  have hinput : (s.shift d).planInput = s.planInput := rfl
  unfold onSessionStarted
  rw [hinput]
  cases PlanSnapshot.validatePlan (.obj s.planInput.entries) with
  | error x => rfl
  | ok plan => rfl

theorem transition_shift (e : Event) :
    transition (s.shift d) (e.shift d) cfg
      = (transition s e cfg).map (TransitionResult.shift d) := by
  have hphase : (s.shift d).phase = s.phase := rfl
  unfold transition
  rw [hphase]
  by_cases hterminal : s.phase ∈ terminalPhases
  · rw [if_pos hterminal, if_pos hterminal]
    rfl
  rw [if_neg hterminal, if_neg hterminal]
  cases e with
  | sessionStarted now =>
      simp only [Event.shift, onSessionStarted_shift]
      split <;> rfl
  | candidateTurnReceived turnId text now =>
      simp only [Event.shift, onCandidateTurn_shift]
      split <;> rfl
  | interviewerReplyReady turnId output now =>
      simp only [Event.shift, onInterviewerReply_shift]
      split <;> rfl
  | interviewerFailed turnId errorKind now =>
      simp only [Event.shift, onInterviewerFailed_shift]
      split <;> rfl
  | assessmentCompleted forTurnId output now =>
      simp only [Event.shift, onAssessmentCompleted_shift]
      rfl
  | assessmentFailed forTurnId errorKind now =>
      simp only [Event.shift, onAssessmentFailed_shift]
      rfl
  | timerTick now => exact onTimerTick_shift d s now cfg
  | reconnected now =>
      simp only [Event.shift, onReconnected_shift]
      rfl
  | operatorAbort reason now => rfl

/-- A step at another time is the same step. -/
theorem step_shift (e : Event) :
    step cfg (s.shift d) (e.shift d) = (step cfg s e).map (fun r => (r.1.shift d, r.2)) := by
  unfold step
  rw [transition_shift]
  cases transition s e cfg with
  | error x => rfl
  | ok r => rfl

end Handlers

/-- An interview held at another time is the same interview. Moving every
    timestamp by the same amount gives the same commands in the same order, the
    same error if there is one, and the state moved by that amount. -/
theorem interview_at_any_time [Scalars] (cfg : OrchestratorConfig) (sessionId : Uuid)
    (planInput : Dict String Json) (d : Int) (es : List Event) :
    feed (step cfg) (initialState sessionId planInput cfg) (es.map (Event.shift d))
      = (feed (step cfg) (initialState sessionId planInput cfg) es).map
          (fun r => (r.1.shift d, r.2)) :=
  -- Nothing has a timestamp before the start, so the start is its own image.
  feed_map (SessionState.shift d) (Event.shift d) (fun s e => step_shift d s cfg e) es
    (initialState sessionId planInput cfg)

end TechScreen
