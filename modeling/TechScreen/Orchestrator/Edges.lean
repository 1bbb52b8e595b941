import TechScreen.Orchestrator.Machine

/-!
# The Edges of the Machine

Everything a transition can do, said once. `Edge` is the transition table as a
relation, one constructor for each way an event changes a state, with the
guards under which the handlers take it. `edge_of_transition` is the inversion
of the transition function: what the function returned is one of these edges.
The invariants of the machine are case analyses on `Edge` and never unfold the
handlers.

The four ways into `ABORTED`, the two into `CLOSE` and the two into `COMPLETED`
share a constructor each. An event that is ignored is one edge too, and its
guard keeps the one fact that the bounds on the technical phase need: an answer
that the technical phase waits for is never ignored.

## Main definitions

* `awaitsAnswer`: The technical phase waits for this very event.
* `Answer`: What an accepted answer is decided on.
* `Edge`: The transition table.

## Theorems

* `Answer.verdict_cases`: The rows of the adjudication table, for an answer.
* `edge_of_transition`: Every transition takes an edge of the table.
* `edge_of_step`: The same, for the machine step.
-/

namespace TechScreen

open Lib

def Event.isCandidateTurn : Event → Bool
  | .candidateTurnReceived .. => true
  | _ => false

/-- The technical phase waits for this event: it is a candidate turn, and no
    interviewer call is in flight. -/
def awaitsAnswer (s : SessionState) (e : Event) : Bool :=
  s.phase = .tech && s.awaiting = some .candidate && e.isCandidateTurn

theorem awaitsAnswer_iff (s : SessionState) (e : Event) :
    awaitsAnswer s e = true ↔
      (s.phase = .tech ∧ s.awaiting = some .candidate) ∧ e.isCandidateTurn = true := by
  simp only [awaitsAnswer, Bool.and_eq_true, decide_eq_true_eq]

/-- What an accepted answer in TECH is decided on: the validated plan, the
    competency the machine is on and the time that is left for it. -/
structure Answer (s : SessionState) (now : Instant) where
  plan : PlanSnapshot
  competency : PlannedCompetency
  remaining : ℚ
  hplan : s.plan = some plan
  hcompetency : plan.competency s.tech.competencyIndex = some competency
  hremaining : secondsRemaining competency s.tech.competencyStartedAt now = .ok remaining

namespace Answer
variable {s : SessionState} {now : Instant}

/-- The adjudication of the answer, against the coverage before it. -/
def verdict (a : Answer s now) (cfg : OrchestratorConfig) : Adjudication :=
  adjudicate (s.tech.coverage.get? a.competency.nodeId) a.competency.targetLevel
    s.tech.probesUsed a.remaining cfg

/-- The technical sub-state once the answer's assessment is scheduled. -/
def scheduled (a : Answer s now) (turnId : Uuid) : TechState :=
  scheduleAssessment s.tech turnId a.competency

/-- The assessment that the answer schedules. -/
def assessor (a : Answer s now) (turnId : Uuid) : RunAssessor := ⟨turnId, a.competency.nodeId⟩

/-- The answer leaves the competency. -/
def leaves (a : Answer s now) (cfg : OrchestratorConfig) : Prop :=
  (a.verdict cfg).verdict = .none ∨
    ((a.verdict cfg).verdict = .answered ∧
      (a.competency.seedQuestion (s.tech.seedIndex + 1) = none ∨ a.remaining ≤ 0))

/-- The sub-state an answer leaves the competency with. -/
def leaving (a : Answer s now) (cfg : OrchestratorConfig) (turnId : Uuid) : TechState :=
  if (a.verdict cfg).verdict = .none then
    markGap (a.scheduled turnId) a.competency (a.verdict cfg).gapMarker
  else a.scheduled turnId

/-- The gap an answer records when it leaves the competency. -/
def gap (a : Answer s now) (cfg : OrchestratorConfig) : List Command :=
  if (a.verdict cfg).verdict = .none then
    [.recordGap ⟨a.competency.nodeId, (a.verdict cfg).gapMarker.getD .gapBudgetExhausted⟩]
  else []

/-- The move that takes the interview on to the next competency. -/
def advanceMove (a : Answer s now) (cfg : OrchestratorConfig) : InterviewerMove :=
  if (a.verdict cfg).verdict = .none then .closeCompetency else .acknowledgeAndTransition

theorem leaving_competencyIndex (a : Answer s now) (cfg : OrchestratorConfig) (turnId : Uuid) :
    (a.leaving cfg turnId).competencyIndex = s.tech.competencyIndex := by
  unfold leaving markGap
  split
  · split <;> rfl
  · rfl

/-- The rows of the adjudication table, for an answer. -/
theorem verdict_cases (a : Answer s now) (cfg : OrchestratorConfig) :
    (a.verdict cfg).verdict = .answered ∨ (a.verdict cfg).verdict = .none ∨
      ((a.verdict cfg).verdict = .clarify ∧
        s.tech.probesUsed < cfg.adjudication.maxProbesPerCompetency) := by
  rcases adjudicate_cases (s.tech.coverage.get? a.competency.nodeId) a.competency.targetLevel
    s.tech.probesUsed a.remaining cfg with ⟨_, h⟩ | ⟨_, h⟩ | h | ⟨_, h⟩ | ⟨hp, h⟩
  · exact Or.inl (by rw [verdict, h])
  · exact Or.inr (Or.inl (by rw [verdict, h]))
  · exact Or.inr (Or.inl (by rw [verdict, h]))
  · exact Or.inr (Or.inl (by rw [verdict, h]))
  · exact Or.inr (Or.inr ⟨by rw [verdict, h], hp⟩)

end Answer

/-- A session that a timer, an operator or a handler may still act on. -/
def live (s : SessionState) : Prop := s.phase ∉ terminalPhases

instance (s : SessionState) : Decidable (live s) :=
  inferInstanceAs (Decidable (s.phase ∉ terminalPhases))

/-- The state of a session that has just been opened. -/
def opened (s : SessionState) (plan : PlanSnapshot) (now : Instant) : SessionState :=
  { s with
    phase := .intro
    awaiting := some .interviewer
    plan := some plan
    sessionStartedAt := some now
    lastCandidateActivity := some now
    turnSeq := s.turnSeq + 1
    pendingCommand := some (.emitScriptedOpening
      { turnId := deriveTurnId s.sessionId (turnPath s.turnSeq) }) }

/-- The state in which the first seed is issued. -/
def entered (s : SessionState) (now : Instant) : SessionState :=
  { s with
    phase := .tech
    lastCandidateActivity := some now
    tech := { s.tech with
      competencyIndex := 0, seedIndex := 0, probesUsed := 0, competencyStartedAt := some now } }

/-- The state in which the move into the next competency is issued. -/
def advanced (s : SessionState) (tech : TechState) (now : Instant) : SessionState :=
  { s with
    lastCandidateActivity := some now
    tech := { tech with
      competencyIndex := tech.competencyIndex + 1, seedIndex := 0, probesUsed := 0,
      competencyStartedAt := some now } }

/-- The state in which the move into Q&A is issued. -/
def inQa (s : SessionState) (now : Instant) : SessionState :=
  { s with phase := .qa, qaStartedAt := some now }

/-- The state after a reply was delivered. -/
def delivered (s : SessionState) (turnId : Uuid) (output : InterviewerOutput)
    (cfg : OrchestratorConfig) : SessionState :=
  { s with
    awaiting := some .candidate
    interviewerFailureStreak := 0
    tech := (noteDrift s output.internalMoveExecuted cfg).1
    flaggedForReview := (noteDrift s output.internalMoveExecuted cfg).2
    pendingCommand := some (.deliverUtterance ⟨turnId, output.utterance⟩) }

/-- Drift accounting touches only the count of the technical sub-state. -/
theorem noteDrift_fst (s : SessionState) (executed : InterviewerMove) (cfg : OrchestratorConfig) :
    ∃ drift, (noteDrift s executed cfg).1 = { s.tech with driftCount := drift } := by
  unfold noteDrift
  split
  · exact ⟨_, rfl⟩
  · exact ⟨s.tech.driftCount, rfl⟩

/-- The transition table. -/
inductive Edge [Scalars] (cfg : OrchestratorConfig) (s : SessionState) :
    Event → SessionState → List Command → Prop
  | ignored (e : Event) (hidle : awaitsAnswer s e = false) : Edge cfg s e s []
  | opened (now : Instant) (plan : PlanSnapshot) (hphase : s.phase = .created)
      (hplan : PlanSnapshot.validatePlan (.obj s.planInput.entries) = .ok plan) :
      Edge cfg s (.sessionStarted now) (opened s plan now)
        [.emitScriptedOpening { turnId := deriveTurnId s.sessionId (turnPath s.turnSeq) },
          .persistState]
  | entered (turnId : Uuid) (text : String) (now : Instant) (plan : PlanSnapshot)
      (hphase : s.phase = .intro) (hplan : s.plan = some plan) :
      Edge cfg s (.candidateTurnReceived turnId text now)
        (issueInterviewer (entered s now) .askSeed (some plan.firstCompetency.nodeId)
          (firstSeedContext plan.firstCompetency)).1
        [.runInterviewer (interviewerCommand s .askSeed (some plan.firstCompetency.nodeId)
          (firstSeedContext plan.firstCompetency)), .persistState]
  | probed (turnId : Uuid) (text : String) (now : Instant) (a : Answer s now)
      (hphase : s.phase = .tech) (hawaiting : s.awaiting = some .candidate)
      (hclarify : (a.verdict cfg).verdict = .clarify)
      (hprobes : s.tech.probesUsed < cfg.adjudication.maxProbesPerCompetency) :
      Edge cfg s (.candidateTurnReceived turnId text now)
        (probeCompetency s a.competency (a.scheduled turnId) now (a.assessor turnId)).newState
        [.runAssessor (a.assessor turnId),
          .runInterviewer (interviewerCommand s .depthProbe (some a.competency.nodeId)
            (probeContext a.competency s.tech.probesUsed)), .persistState]
  | seeded (turnId : Uuid) (text : String) (now : Instant) (a : Answer s now) (seed : String)
      (hphase : s.phase = .tech) (hawaiting : s.awaiting = some .candidate)
      (hanswered : (a.verdict cfg).verdict = .answered)
      (hseed : a.competency.seedQuestion (s.tech.seedIndex + 1) = some seed) :
      Edge cfg s (.candidateTurnReceived turnId text now)
        (advanceSeed s a.competency (a.scheduled turnId) now seed (a.assessor turnId)).newState
        [.runAssessor (a.assessor turnId),
          .runInterviewer (interviewerCommand s .acknowledgeAndTransition
            (some a.competency.nodeId)
            (nextSeedContext a.competency (s.tech.seedIndex + 1) seed)), .persistState]
  | advanced (turnId : Uuid) (text : String) (now : Instant) (a : Answer s now)
      (following : PlannedCompetency) (hphase : s.phase = .tech)
      (hawaiting : s.awaiting = some .candidate) (hleaves : a.leaves cfg)
      (hnext : a.plan.competency (s.tech.competencyIndex + 1) = some following) :
      Edge cfg s (.candidateTurnReceived turnId text now)
        (issueInterviewer (advanced s (a.leaving cfg turnId) now) (a.advanceMove cfg)
          (some following.nodeId) (advanceContext (some a.competency) following)).1
        (.runAssessor (a.assessor turnId) ::
          .runInterviewer (interviewerCommand s (a.advanceMove cfg) (some following.nodeId)
            (advanceContext (some a.competency) following)) :: (a.gap cfg ++ [.persistState]))
  | finished (turnId : Uuid) (text : String) (now : Instant) (a : Answer s now)
      (hphase : s.phase = .tech) (hawaiting : s.awaiting = some .candidate)
      (hleaves : a.leaves cfg)
      (hlast : a.plan.competency (s.tech.competencyIndex + 1) = none) :
      Edge cfg s (.candidateTurnReceived turnId text now)
        (issueInterviewer
          (inQa { s with lastCandidateActivity := some now, tech := a.leaving cfg turnId } now)
          .acknowledgeAndTransition none (qaContext a.plan)).1
        (.runAssessor (a.assessor turnId) ::
          .runInterviewer (interviewerCommand s .acknowledgeAndTransition none
            (qaContext a.plan)) :: (a.gap cfg ++ [.persistState]))
  | cutShort (now : Instant) (plan : PlanSnapshot) (hphase : s.phase = .tech)
      (hplan : s.plan = some plan) (hover : sessionBudgetExhausted s now = .ok true) :
      Edge cfg s (.timerTick now)
        (issueInterviewer (inQa s now) .acknowledgeAndTransition none (qaContext plan)).1
        [.runInterviewer (interviewerCommand s .acknowledgeAndTransition none (qaContext plan))]
  | asked (turnId : Uuid) (text : String) (now : Instant) (plan : PlanSnapshot)
      (hphase : s.phase = .qa) (hplan : s.plan = some plan) :
      Edge cfg s (.candidateTurnReceived turnId text now)
        (issueInterviewer { s with lastCandidateActivity := some now }
          .acknowledgeAndTransition none (qaContext plan)).1
        [.runInterviewer (interviewerCommand s .acknowledgeAndTransition none (qaContext plan))]
  | closed (e : Event) (activity : Option Instant) (hphase : s.phase = .qa) :
      Edge cfg s e (enterClose { s with lastCandidateActivity := activity }).newState
        [.emitScriptedClosing { turnId := deriveTurnId s.sessionId (turnPath s.turnSeq) },
          .persistState]
  | completed (e : Event) (hphase : s.phase = .close) :
      Edge cfg s e (complete s).newState [.endSession, .recordDecision ⟨.completed⟩]
  | aborted (e : Event) (reason : AbortReason) (decision : DecisionReason) (persist : Bool)
      (hlive : live s) (hturn : e.isCandidateTurn = false) :
      Edge cfg s e (abort s reason decision persist).newState
        (abort s reason decision persist).commands
  | delivered (turnId : Uuid) (output : InterviewerOutput) (now : Instant)
      (hphase : s.phase = .tech ∨ s.phase = .qa) (hawaiting : s.awaiting = some .interviewer)
      (hpending : answersPendingCommand s turnId = true) :
      Edge cfg s (.interviewerReplyReady turnId output now) (delivered s turnId output cfg)
        [.deliverUtterance ⟨turnId, output.utterance⟩, .persistState]
  | retried (turnId : Uuid) (errorKind : String) (now : Instant) (pending : RunInterviewer)
      (hphase : s.phase = .tech ∨ s.phase = .qa) (hawaiting : s.awaiting = some .interviewer)
      (hpending : s.pendingCommand = some (.runInterviewer pending))
      (hid : pending.turnId = turnId) (hstreak : s.interviewerFailureStreak < 1) :
      Edge cfg s (.interviewerFailed turnId errorKind now)
        { s with
          interviewerFailureStreak := s.interviewerFailureStreak + 1
          pendingCommand := some (.runInterviewer { pending with retry := true }) }
        [.runInterviewer { pending with retry := true }, .flagTurnDegraded ⟨turnId, errorKind⟩,
          .persistState]
  | assessed (forTurnId : Uuid) (output : AssessorOutput) (now : Instant) (hlive : live s)
      (hpending : forTurnId ∈ s.tech.pendingAssessments) :
      Edge cfg s (.assessmentCompleted forTurnId output now)
        (onAssessmentCompleted s forTurnId output cfg).newState [.persistState]
  | assessmentFailed (forTurnId : Uuid) (errorKind : String) (now : Instant) (hlive : live s)
      (hpending : forTurnId ∈ s.tech.pendingAssessments) :
      Edge cfg s (.assessmentFailed forTurnId errorKind now)
        (onAssessmentFailed s forTurnId).newState [.persistState]
  | reconnected (now : Instant) (hlive : live s) :
      Edge cfg s (.reconnected now) s (onReconnected s).commands

section Inversion
variable [Scalars] {cfg : OrchestratorConfig} {s : SessionState} {r : TransitionResult}

omit [Scalars] in
/-- An event that is no candidate turn is one TECH does not wait for. -/
theorem awaitsAnswer_eq_false (s : SessionState) (e : Event) (h : e.isCandidateTurn = false) :
    awaitsAnswer s e = false := by
  rw [awaitsAnswer, h, Bool.and_false]

omit [Scalars] in
theorem requirePlan_ok {s : SessionState} {plan : PlanSnapshot} (h : requirePlan s = .ok plan) :
    s.plan = some plan := by
  unfold requirePlan at h
  cases hp : s.plan with
  | none => rw [hp] at h; simp only [reduceCtorEq] at h
  | some q => rw [hp] at h; simp only [Except.ok.injEq] at h; rw [h]

omit [Scalars] in
theorem currentCompetency_ok {s : SessionState} {plan : PlanSnapshot} {c : PlannedCompetency}
    (hplan : s.plan = some plan) (h : currentCompetency s = .ok c) :
    plan.competency s.tech.competencyIndex = some c := by
  have hr : requirePlan s = .ok plan := by rw [requirePlan, hplan]
  unfold currentCompetency at h
  rw [hr] at h
  simp only [bind, Except.bind] at h
  cases hc : plan.competency s.tech.competencyIndex with
  | none => rw [hc] at h; simp only [reduceCtorEq] at h
  | some d => rw [hc] at h; simp only [Except.ok.injEq] at h; rw [h]

omit [Scalars] in
theorem enterQa_of_plan {s : SessionState} {plan : PlanSnapshot} (h : s.plan = some plan)
    (now : Instant) :
    enterQa s now = .ok (issueInterviewer (inQa s now) .acknowledgeAndTransition none
      (qaContext plan)) := by
  have hr : requirePlan s = .ok plan := by rw [requirePlan, h]
  rw [enterQa, hr]
  rfl

/-- Leaving a competency takes the edge to the next one or to Q&A. -/
theorem edge_of_leaveCompetency {turnId : Uuid} {text : String} {now : Instant}
    (a : Answer s now) (hphase : s.phase = .tech) (hawaiting : s.awaiting = some .candidate)
    (hleaves : a.leaves cfg)
    (h : leaveCompetency s a.plan a.competency (a.leaving cfg turnId) now (a.advanceMove cfg)
      (a.assessor turnId) (a.gap cfg) = .ok r) :
    Edge cfg s (.candidateTurnReceived turnId text now) r.newState r.commands := by
  have hindex := a.leaving_competencyIndex cfg turnId
  unfold leaveCompetency at h
  rw [hindex] at h
  cases hn : a.plan.competency (s.tech.competencyIndex + 1) with
  | none =>
      have hqa := enterQa_of_plan
        (s := { s with lastCandidateActivity := some now, tech := a.leaving cfg turnId })
        a.hplan now
      rw [hn] at h
      simp only [hqa, bind, Except.bind, Except.ok.injEq] at h
      rw [← h]
      exact Edge.finished turnId text now a hphase hawaiting hleaves hn
  | some following =>
      rw [hn] at h
      simp only [bind, Except.bind, Except.ok.injEq] at h
      have hedge := Edge.advanced turnId text now a following hphase hawaiting hleaves hn
      rw [TechScreen.advanced, hindex] at hedge
      rw [← h]
      exact hedge

/-- An accepted answer probes, moves on to the next seed, or leaves. -/
theorem edge_of_onTechCandidateTurn {turnId : Uuid} {text : String} {now : Instant}
    (hphase : s.phase = .tech) (hawaiting : s.awaiting = some .candidate)
    (h : onTechCandidateTurn s turnId now cfg = .ok r) :
    Edge cfg s (.candidateTurnReceived turnId text now) r.newState r.commands := by
  unfold onTechCandidateTurn at h
  cases hp : requirePlan s with
  | error x => rw [hp] at h; simp only [bind, Except.bind, reduceCtorEq] at h
  | ok plan =>
  cases hc : currentCompetency s with
  | error x => rw [hp, hc] at h; simp only [bind, Except.bind, reduceCtorEq] at h
  | ok c =>
  cases hs : secondsRemaining c s.tech.competencyStartedAt now with
  | error x =>
      rw [hp, hc] at h
      simp only [bind, Except.bind, scheduleAssessment, hs, reduceCtorEq] at h
  | ok remaining =>
  have hplan := requirePlan_ok hp
  let a : Answer s now := ⟨plan, c, remaining, hplan, currentCompetency_ok hplan hc, hs⟩
  rw [hp, hc] at h
  simp only [bind, Except.bind, scheduleAssessment, hs] at h
  rcases a.verdict_cases cfg with hv | hv | ⟨hv, hprobes⟩
  · -- Answered: the next seed while there is one and time is left.
    have hstay : ∀ t, a.leaving cfg t = a.scheduled t := fun t => by
      rw [Answer.leaving, hv, if_neg (by simp only [reduceCtorEq, not_false_eq_true])]
    have hgap : a.gap cfg = [] := by
      rw [Answer.gap, hv, if_neg (by simp only [reduceCtorEq, not_false_eq_true])]
    have hmove : a.advanceMove cfg = .acknowledgeAndTransition := by
      rw [Answer.advanceMove, hv, if_neg (by simp only [reduceCtorEq, not_false_eq_true])]
    have hverdict := hv
    unfold Answer.verdict at hv
    rw [hv] at h
    simp only at h
    cases hseed : c.seedQuestion (s.tech.seedIndex + 1) with
    | none =>
        rw [hseed] at h
        refine edge_of_leaveCompetency a hphase hawaiting (Or.inr ⟨hverdict, Or.inl hseed⟩) ?_
        rw [hstay, hgap, hmove]
        exact h
    | some seed =>
        rw [hseed] at h
        simp only at h
        by_cases hr : remaining > 0
        · rw [if_pos hr] at h
          simp only [Except.ok.injEq] at h
          rw [← h]
          exact Edge.seeded turnId text now a seed hphase hawaiting hverdict hseed
        · rw [if_neg hr] at h
          refine edge_of_leaveCompetency a hphase hawaiting
            (Or.inr ⟨hverdict, Or.inr (Rat.not_lt.mp hr)⟩) ?_
          rw [hstay, hgap, hmove]
          exact h
  · -- No verdict but a gap: the competency is marked and left.
    have hleaving : ∀ t, a.leaving cfg t
        = markGap (a.scheduled t) a.competency (a.verdict cfg).gapMarker := fun t => by
      rw [Answer.leaving, hv, if_pos rfl]
    have hgap : a.gap cfg = [.recordGap ⟨a.competency.nodeId,
        (a.verdict cfg).gapMarker.getD .gapBudgetExhausted⟩] := by
      rw [Answer.gap, hv, if_pos rfl]
    have hmove : a.advanceMove cfg = .closeCompetency := by
      rw [Answer.advanceMove, hv, if_pos rfl]
    refine edge_of_leaveCompetency a hphase hawaiting (Or.inl hv) ?_
    rw [hleaving, hgap, hmove]
    unfold Answer.verdict at hv
    rw [hv] at h
    exact h
  · -- Clarification: one more probe.
    have hverdict := hv
    unfold Answer.verdict at hv
    rw [hv] at h
    simp only [Except.ok.injEq] at h
    rw [← h]
    exact Edge.probed turnId text now a hphase hawaiting hverdict hprobes

/-- A candidate turn, by phase. -/
theorem edge_of_onCandidateTurn {turnId : Uuid} {text : String} {now : Instant}
    (h : onCandidateTurn s turnId now cfg = .ok r) :
    Edge cfg s (.candidateTurnReceived turnId text now) r.newState r.commands := by
  have hother : s.phase ≠ .tech → awaitsAnswer s (.candidateTurnReceived turnId text now) = false :=
    fun hne => by rw [awaitsAnswer, decide_eq_false hne, Bool.false_and, Bool.false_and]
  unfold onCandidateTurn at h
  cases hphase : s.phase with
  | intro =>
      rw [hphase] at h
      simp only [onIntroCandidateTurn] at h
      cases hp : requirePlan s with
      | error x => rw [hp] at h; simp only [bind, Except.bind, reduceCtorEq] at h
      | ok plan =>
          rw [hp] at h
          simp only [bind, Except.bind, Except.ok.injEq] at h
          rw [← h]
          exact Edge.entered turnId text now plan hphase (requirePlan_ok hp)
  -- TECH takes a turn only when it awaits one.
  | tech =>
      rw [hphase] at h
      simp only at h
      by_cases ha : s.awaiting = some .candidate
      · rw [if_neg (not_not.mpr ha)] at h
        exact edge_of_onTechCandidateTurn hphase ha h
      · rw [if_pos ha] at h
        simp only [Except.ok.injEq] at h
        rw [← h]
        refine Edge.ignored _ ?_
        rw [awaitsAnswer, decide_eq_false ha, Bool.and_false, Bool.false_and]
  -- Q&A takes any turn, and closes when its budget is spent.
  | qa =>
      rw [hphase] at h
      simp only [onQaCandidateTurn] at h
      cases hq : qaBudgetExhausted s now with
      | error x => rw [hq] at h; simp only [bind, Except.bind, reduceCtorEq] at h
      | ok exhausted =>
          rw [hq] at h
          simp only [bind, Except.bind] at h
          cases exhausted with
          | true =>
              rw [if_pos rfl] at h
              simp only [Except.ok.injEq] at h
              rw [← h]
              exact Edge.closed _ (some now) hphase
          | false =>
              rw [if_neg Bool.false_ne_true] at h
              cases hp : requirePlan s with
              | error x => rw [hp] at h; simp only [reduceCtorEq] at h
              | ok plan =>
                  rw [hp] at h
                  simp only [Except.ok.injEq] at h
                  rw [← h]
                  exact Edge.asked turnId text now plan hphase (requirePlan_ok hp)
  | created | close | completed | aborted =>
      rw [hphase] at h
      simp only [Except.ok.injEq] at h
      rw [← h]
      exact Edge.ignored _ (hother (by rw [hphase]; simp only [ne_eq, reduceCtorEq,
        not_false_eq_true]))

/-- A reply is delivered, completes the session, or is ignored. -/
theorem edge_of_onInterviewerReply {turnId : Uuid} {output : InterviewerOutput} {now : Instant}
    (h : onInterviewerReply s turnId output cfg = r) :
    Edge cfg s (.interviewerReplyReady turnId output now) r.newState r.commands := by
  rw [← h]
  unfold onInterviewerReply
  by_cases hid : answersPendingCommand s turnId = true
  · rw [if_neg (by rw [hid]; simp only [Bool.not_true, Bool.false_eq_true, not_false_eq_true])]
    by_cases hclose : s.phase = .close
    · rw [if_pos hclose]
      exact Edge.completed _ hclose
    rw [if_neg hclose]
    by_cases hidle : (s.phase ≠ .tech ∧ s.phase ≠ .qa) ∨ s.awaiting ≠ some .interviewer
    · rw [if_pos hidle]
      exact Edge.ignored _ (awaitsAnswer_eq_false s _ rfl)
    · rw [if_neg hidle]
      rw [not_or, not_and_or, not_not, not_not, not_not] at hidle
      exact Edge.delivered turnId output now hidle.1 hidle.2 hid
  · rw [if_pos (by rw [Bool.not_eq_true] at hid; rw [hid]; rfl)]
    exact Edge.ignored _ (awaitsAnswer_eq_false s _ rfl)

/-- A failure repeats the move once, aborts on the second, or is ignored. -/
theorem edge_of_onInterviewerFailed {turnId : Uuid} {errorKind : String} {now : Instant}
    (h : onInterviewerFailed s turnId errorKind = r) :
    Edge cfg s (.interviewerFailed turnId errorKind now) r.newState r.commands := by
  have hignored : Edge cfg s (.interviewerFailed turnId errorKind now) s [] :=
    Edge.ignored _ (awaitsAnswer_eq_false s _ rfl)
  rw [← h]
  unfold onInterviewerFailed
  by_cases hid : answersPendingCommand s turnId = true
  · rw [if_neg (by rw [hid]; simp only [Bool.not_true, Bool.false_eq_true, not_false_eq_true])]
    by_cases hidle : (s.phase ≠ .tech ∧ s.phase ≠ .qa) ∨ s.awaiting ≠ some .interviewer
    · rw [if_pos hidle]
      exact hignored
    rw [if_neg hidle]
    rw [not_or, not_and_or, not_not, not_not, not_not] at hidle
    cases hp : s.pendingCommand with
    | none => exact hignored
    | some command =>
        cases command with
        | runInterviewer pending =>
            have hturn : pending.turnId = turnId := by
              rw [answersPendingCommand, hp] at hid
              exact of_decide_eq_true hid
            by_cases hstreak : s.interviewerFailureStreak ≥ 1
            · -- The second failure in a row ends the session.
              simp only [if_pos hstreak]
              refine Edge.aborted _ .fatalAgentError .agentFailure true ?_ rfl
              rcases hidle.1 with ht | hq
              · rw [live, ht]; decide
              · rw [live, hq]; decide
            · simp only [if_neg hstreak]
              exact Edge.retried turnId errorKind now pending hidle.1 hidle.2 hp hturn
                (Int.not_le.mp hstreak)
        | deliverUtterance c => exact hignored
        | emitScriptedOpening c => exact hignored
        | emitScriptedClosing c => exact hignored
  · rw [if_pos (by rw [Bool.not_eq_true] at hid; rw [hid]; rfl)]
    exact hignored

/-- A tick aborts, moves on, completes, or is ignored. -/
theorem edge_of_onTimerTick {now : Instant} (hlive : live s)
    (h : onTimerTick s now cfg = .ok r) :
    Edge cfg s (.timerTick now) r.newState r.commands := by
  have hignored : Edge cfg s (.timerTick now) s [] :=
    Edge.ignored _ (awaitsAnswer_eq_false s _ rfl)
  unfold onTimerTick at h
  cases ht : candidateTimedOut s now cfg with
  | error x => rw [ht] at h; simp only [bind, Except.bind, reduceCtorEq] at h
  | ok timedOut =>
  rw [ht] at h
  simp only [bind, Except.bind] at h
  cases timedOut with
  | true =>
      rw [if_pos rfl] at h
      simp only [Except.ok.injEq] at h
      rw [← h]
      exact Edge.aborted _ .candidateTimeout .timeout true hlive rfl
  | false =>
  -- The candidate is in time. What a tick does now depends on the phase.
  rw [if_neg Bool.false_ne_true] at h
  cases hphase : s.phase with
  | tech =>
      rw [hphase] at h
      simp only at h
      cases hb : sessionBudgetExhausted s now with
      | error x => rw [hb] at h; simp only [reduceCtorEq] at h
      | ok exhausted =>
          rw [hb] at h
          simp only at h
          cases exhausted with
          | true =>
              rw [if_pos rfl] at h
              cases hp : s.plan with
              | none =>
                  rw [enterQa, requirePlan, hp] at h
                  simp only [bind, Except.bind, reduceCtorEq] at h
              | some plan =>
                  rw [enterQa_of_plan hp] at h
                  simp only [Except.ok.injEq] at h
                  rw [← h]
                  exact Edge.cutShort now plan hphase hp hb
          | false =>
              rw [if_neg Bool.false_ne_true] at h
              simp only [Except.ok.injEq] at h
              rw [← h]
              exact hignored
  | qa =>
      rw [hphase] at h
      simp only at h
      cases hb : sessionBudgetExhausted s now with
      | error x => rw [hb] at h; simp only [reduceCtorEq] at h
      | ok exhausted =>
      rw [hb] at h
      simp only at h
      cases exhausted with
      | true =>
          rw [if_pos rfl] at h
          simp only [Except.ok.injEq] at h
          rw [← h]
          exact Edge.closed _ s.lastCandidateActivity hphase
      | false =>
      rw [if_neg Bool.false_ne_true] at h
      cases hq : qaBudgetExhausted s now with
      | error x => rw [hq] at h; simp only [reduceCtorEq] at h
      | ok qaExhausted =>
      rw [hq] at h
      simp only at h
      cases qaExhausted with
      | true =>
          rw [if_pos rfl] at h
          simp only [Except.ok.injEq] at h
          rw [← h]
          exact Edge.closed _ s.lastCandidateActivity hphase
      | false =>
          rw [if_neg Bool.false_ne_true] at h
          simp only [Except.ok.injEq] at h
          rw [← h]
          exact hignored
  | close =>
      rw [hphase] at h
      simp only [Except.ok.injEq] at h
      rw [← h]
      exact Edge.completed _ hphase
  | created | intro | completed | aborted =>
      rw [hphase] at h
      simp only [Except.ok.injEq] at h
      rw [← h]
      exact hignored

/-- Every transition takes an edge of the table. -/
theorem edge_of_transition {e : Event} (h : transition s e cfg = .ok r) :
    Edge cfg s e r.newState r.commands := by
  unfold transition at h
  by_cases hterminal : s.phase ∈ terminalPhases
  · rw [if_pos hterminal] at h
    simp only [Except.ok.injEq] at h
    rw [← h]
    refine Edge.ignored e ?_
    have hne : s.phase ≠ .tech := fun ht => absurd (ht ▸ hterminal) (by decide)
    rw [awaitsAnswer, decide_eq_false hne, Bool.false_and, Bool.false_and]
  -- The session is live. Before its start it ignores all that is not about the start.
  rw [if_neg hterminal] at h
  have hcreated : s.phase = .created → awaitsAnswer s e = false := fun hc => by
    rw [awaitsAnswer, hc]; rfl
  cases e with
  | assessmentCompleted forTurnId output now =>
      simp only [Except.ok.injEq] at h
      rw [← h]
      by_cases hp : forTurnId ∈ s.tech.pendingAssessments
      · have hedge := @Edge.assessed _ cfg _ forTurnId output now hterminal hp
        rw [onAssessmentCompleted, if_neg (not_not.mpr hp)] at hedge ⊢
        exact hedge
      · rw [onAssessmentCompleted, if_pos hp]
        exact Edge.ignored _ (awaitsAnswer_eq_false s _ rfl)
  | assessmentFailed forTurnId errorKind now =>
      simp only [Except.ok.injEq] at h
      rw [← h]
      by_cases hp : forTurnId ∈ s.tech.pendingAssessments
      · have hedge := @Edge.assessmentFailed _ cfg _ forTurnId errorKind now hterminal hp
        rw [onAssessmentFailed, if_neg (not_not.mpr hp)] at hedge ⊢
        exact hedge
      · rw [onAssessmentFailed, if_pos hp]
        exact Edge.ignored _ (awaitsAnswer_eq_false s _ rfl)
  | operatorAbort reason now =>
      simp only [Except.ok.injEq] at h
      rw [← h]
      exact Edge.aborted _ reason .operator true hterminal rfl
  | reconnected now =>
      simp only [Except.ok.injEq] at h
      have hstate : r.newState = s := by
        rw [← h, onReconnected]
        cases s.pendingCommand with
        | none => rfl
        | some c => rfl
      have hedge := @Edge.reconnected _ cfg _ now hterminal
      rw [h] at hedge
      rw [hstate]
      exact hedge
  | timerTick now => exact edge_of_onTimerTick hterminal h
  | sessionStarted now =>
      by_cases hc : s.phase = .created
      · simp only [if_pos hc, Except.ok.injEq] at h
        rw [← h, onSessionStarted]
        cases hv : PlanSnapshot.validatePlan (.obj s.planInput.entries) with
        | error x => exact Edge.aborted _ .operatorAbort .planInvalid false hterminal rfl
        | ok plan => exact Edge.opened now plan hc hv
      · simp only [if_neg hc, Except.ok.injEq] at h
        rw [← h]
        exact Edge.ignored _ (awaitsAnswer_eq_false s _ rfl)
  | candidateTurnReceived turnId text now =>
      by_cases hc : s.phase = .created
      · simp only [if_pos hc, Except.ok.injEq] at h
        rw [← h]
        exact Edge.ignored _ (hcreated hc)
      · simp only [if_neg hc] at h
        exact edge_of_onCandidateTurn h
  | interviewerReplyReady turnId output now =>
      by_cases hc : s.phase = .created
      · simp only [if_pos hc, Except.ok.injEq] at h
        rw [← h]
        exact Edge.ignored _ (hcreated hc)
      · simp only [if_neg hc, Except.ok.injEq] at h
        exact edge_of_onInterviewerReply h
  | interviewerFailed turnId errorKind now =>
      by_cases hc : s.phase = .created
      · simp only [if_pos hc, Except.ok.injEq] at h
        rw [← h]
        exact Edge.ignored _ (hcreated hc)
      · simp only [if_neg hc, Except.ok.injEq] at h
        exact edge_of_onInterviewerFailed h

/-- Every step of the machine takes an edge of the table. -/
theorem edge_of_step {s' : SessionState} {e : Event} {out : List Command}
    (h : step cfg s e = .ok (s', out)) : Edge cfg s e s' out :=
  edge_of_transition ((step_eq_ok_iff cfg s s' e out).mp h)

end Inversion

end TechScreen
