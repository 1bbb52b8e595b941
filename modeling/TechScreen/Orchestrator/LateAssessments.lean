import TechScreen.Orchestrator.Evidence

/-!
# Late Assessments

An assessment may come back at any time after its answer, and several may come
back in any order. What it changes is kept apart from what the conversation
reads: a result goes into the coverage, the bookkeeping of what is still out and
the flags for review, and only an answer that TECH waits for reads those back.

`Assessments` is that part of a state, and `SessionState.placed` puts another
value of it under a state. A transition that adjudicates nothing commutes with
`placed`, whatever is put there, which is all that `late_assessment_commutes`
needs. For the order of several results the coverage is read off the history:
results that arrive in another order are the same evidence permuted.

## Main definitions

* `Assessments`: The part of a state that results are written to.
* `SessionState.placed`: A state with other assessments.
* `Event.keepsTalking`: An event that adjudicates nothing.
* `oneThenOther`: Two events in a row.
* `SameButOrder`: What the order of the results leaves alone.

## Theorems

* `transition_placed`: What adjudicates nothing does not read the assessments.
* `late_assessment_commutes`: It commutes with the arrival of a result.
* `arrival_order`: Results may arrive in any order.
-/

namespace TechScreen

open Lib

section Placed

/-- The part of a state that assessor results are written to, apart from the one
    flag that a drifting conversation raises as well. -/
structure Assessments where
  coverage : Dict String CoverageCell
  pendingAssessments : List Uuid
  assessmentFocus : Dict Uuid String
  cheatFlagCount : Int
  needsManualReview : Bool

def SessionState.assessments (s : SessionState) : Assessments :=
  ⟨s.tech.coverage, s.tech.pendingAssessments, s.tech.assessmentFocus, s.cheatFlagCount,
    s.needsManualReview⟩

/-- The state with other assessments, flagged for review if `flag` says so. -/
def SessionState.placed (s : SessionState) (v : Assessments) (flag : Bool) : SessionState :=
  { s with
    tech := { s.tech with
      coverage := v.coverage
      pendingAssessments := v.pendingAssessments
      assessmentFocus := v.assessmentFocus }
    cheatFlagCount := v.cheatFlagCount
    needsManualReview := v.needsManualReview
    flaggedForReview := s.flaggedForReview || flag }

def TransitionResult.placed (r : TransitionResult) (v : Assessments) (flag : Bool) :
    TransitionResult :=
  ⟨r.newState.placed v flag, r.commands⟩

/-- What an event does to the assessments, whether it flags the session, and the
    commands it asks for. -/
def Assessments.absorb (v : Assessments) (cfg : OrchestratorConfig) :
    Event → Assessments × Bool × List Command
  | .assessmentCompleted forTurnId output _ =>
      if forTurnId ∈ v.pendingAssessments then
        ({ coverage := recordReviewSignals (recordLevels v.coverage output) output
           pendingAssessments := v.pendingAssessments.filter (fun t => t ≠ forTurnId)
           assessmentFocus := v.assessmentFocus.erase forTurnId
           cheatFlagCount := v.cheatFlagCount + cheatFlags output
           needsManualReview := v.needsManualReview || output.needsManualReview },
          decide (v.cheatFlagCount + cheatFlags output ≥ cfg.flags.cheatFlagsToReview),
          [.persistState])
      else (v, false, [])
  | .assessmentFailed forTurnId _ _ =>
      if forTurnId ∈ v.pendingAssessments then
        ({ v with
           coverage := match v.assessmentFocus.get? forTurnId with
             | some nodeId => v.coverage.set nodeId
                 { (v.coverage.get? nodeId).getD {} with assessmentFailed := true }
             | none => v.coverage
           pendingAssessments := v.pendingAssessments.filter (fun t => t ≠ forTurnId)
           assessmentFocus := v.assessmentFocus.erase forTurnId }, false, [.persistState])
      else (v, false, [])
  | _ => (v, false, [])

/-- The event adjudicates nothing, and is not a result or an operator's abort. -/
def Event.keepsTalking (s : SessionState) (e : Event) : Bool :=
  match e with
  | .interviewerReplyReady .. | .interviewerFailed .. | .timerTick .. | .reconnected ..
  | .sessionStarted .. => true
  | .candidateTurnReceived .. => !awaitsAnswer s e
  | .assessmentCompleted .. | .assessmentFailed .. | .operatorAbort .. => false

theorem placed_self (s : SessionState) : s.placed s.assessments false = s := by
  simp only [SessionState.placed, SessionState.assessments, Bool.or_false]

variable [Scalars] {cfg : OrchestratorConfig} {s : SessionState}

variable (cfg) in
/-- A result is absorbed into the assessments, in any live phase. -/
theorem transition_of_assessment (hlive : live s) {e : Event} (he : e.isAssessment = true) :
    transition s e cfg = .ok
      ⟨s.placed (s.assessments.absorb cfg e).1 (s.assessments.absorb cfg e).2.1,
        (s.assessments.absorb cfg e).2.2⟩ := by
  cases e with
  | assessmentCompleted forTurnId output now =>
      rw [transition, if_neg hlive]
      by_cases hpending : forTurnId ∈ s.tech.pendingAssessments
      · have hp : forTurnId ∈ s.assessments.pendingAssessments := hpending
        rw [onAssessmentCompleted, if_neg (not_not.mpr hpending), Assessments.absorb, if_pos hp]
        rfl
      · have hp : forTurnId ∉ s.assessments.pendingAssessments := hpending
        rw [onAssessmentCompleted, if_pos hpending, Assessments.absorb, if_neg hp, placed_self]
        rfl
  | assessmentFailed forTurnId errorKind now =>
      rw [transition, if_neg hlive]
      by_cases hpending : forTurnId ∈ s.tech.pendingAssessments
      · have hp : forTurnId ∈ s.assessments.pendingAssessments := hpending
        rw [onAssessmentFailed_eq s forTurnId hpending, Assessments.absorb, if_pos hp]
        dsimp only [SessionState.placed, SessionState.assessments, failedTech]
        cases s.tech.assessmentFocus.get? forTurnId with
        | none => simp only [dropPending, Bool.or_false]
        | some nodeId => simp only [dropPending, Bool.or_false]
      · have hp : forTurnId ∉ s.assessments.pendingAssessments := hpending
        rw [onAssessmentFailed, if_pos hpending, Assessments.absorb, if_neg hp, placed_self]
        rfl
  | sessionStarted | candidateTurnReceived | interviewerReplyReady | interviewerFailed
  | timerTick | reconnected | operatorAbort => exact absurd he Bool.false_ne_true

end Placed

section Handlers
variable (s : SessionState) (v : Assessments) (flag : Bool)

/-- A handler that neither reads the assessments nor writes to them. -/
def Indifferent (f : SessionState → Except OrchestratorError TransitionResult) : Prop :=
  ∀ (s : SessionState) (v : Assessments) (flag : Bool),
    f (s.placed v flag) = (f s).map (fun r => r.placed v flag) ∧
      ∀ r, f s = .ok r → r.newState.assessments = s.assessments

theorem indifferent_ok {g : SessionState → TransitionResult}
    (hplaced : ∀ s v flag, g (s.placed v flag) = (g s).placed v flag)
    (hkept : ∀ s, (g s).newState.assessments = s.assessments) :
    Indifferent (fun s => .ok (g s)) := by
  intro s v flag
  refine ⟨congrArg Except.ok (hplaced s v flag), ?_⟩
  intro r hr
  rw [← Except.ok.inj hr]
  exact hkept s

theorem indifferent_abort (reason : AbortReason) (decision : DecisionReason) (persist : Bool) :
    Indifferent (fun s => .ok (abort s reason decision persist)) :=
  indifferent_ok (fun _ _ _ => rfl) (fun _ => rfl)

theorem indifferent_ignore : Indifferent (fun s => .ok (ignore s)) :=
  indifferent_ok (fun _ _ _ => rfl) (fun _ => rfl)

theorem indifferent_complete : Indifferent (fun s => .ok (complete s)) :=
  indifferent_ok (fun _ _ _ => rfl) (fun _ => rfl)

theorem indifferent_enterClose : Indifferent (fun s => .ok (enterClose s)) :=
  indifferent_ok (fun _ _ _ => rfl) (fun _ => rfl)

/-- The branches of a handler may depend on what no assessment changes. -/
theorem indifferent_ite {p : SessionState → Prop} [DecidablePred p]
    {f g : SessionState → Except OrchestratorError TransitionResult}
    (hp : ∀ s v flag, p (s.placed v flag) ↔ p s) (hf : Indifferent f) (hg : Indifferent g) :
    Indifferent (fun s => if p s then f s else g s) := by
  intro s v flag
  by_cases h : p s
  · simp only [if_pos ((hp s v flag).mpr h), if_pos h]
    exact hf s v flag
  · simp only [if_neg (fun hc => h ((hp s v flag).mp hc)), if_neg h]
    exact hg s v flag

/-- So may its steps. -/
theorem indifferent_bind {α : Type} {x : SessionState → Except OrchestratorError α}
    {f : α → SessionState → Except OrchestratorError TransitionResult}
    (hx : ∀ s v flag, x (s.placed v flag) = x s) (hf : ∀ a, Indifferent (f a)) :
    Indifferent (fun s => x s >>= fun a => f a s) := by
  intro s v flag
  simp only [hx s v flag]
  cases x s with
  | error err => exact ⟨rfl, fun r hr => by cases hr⟩
  | ok a => exact hf a s v flag

theorem indifferent_onSessionStarted [Scalars] (now : Instant) :
    Indifferent (fun s => .ok (onSessionStarted s now)) := by
  refine indifferent_ok ?_ ?_
  · intro s v flag
    have hinput : (s.placed v flag).planInput = s.planInput := rfl
    unfold onSessionStarted
    rw [hinput]
    cases PlanSnapshot.validatePlan (.obj s.planInput.entries) <;> rfl
  · intro s
    unfold onSessionStarted
    cases PlanSnapshot.validatePlan (.obj s.planInput.entries) <;> rfl

theorem indifferent_onIntroCandidateTurn (now : Instant) :
    Indifferent (fun s => onIntroCandidateTurn s now) :=
  indifferent_bind (fun _ _ _ => rfl)
    (fun _ => indifferent_ok (fun _ _ _ => rfl) (fun _ => rfl))

theorem indifferent_onQaCandidateTurn (now : Instant) :
    Indifferent (fun s => onQaCandidateTurn s now) := by
  refine indifferent_bind (x := fun s => qaBudgetExhausted s now) (fun _ _ _ => rfl) ?_
  intro exhausted
  refine indifferent_ite (p := fun _ => exhausted = true) (fun _ _ _ => Iff.rfl) ?_ ?_
  · exact indifferent_ok (fun _ _ _ => rfl) (fun _ => rfl)
  · exact indifferent_bind (x := requirePlan) (fun _ _ _ => rfl)
      (fun plan => indifferent_ok (fun _ _ _ => rfl) (fun _ => rfl))

/-- Drift is counted apart from the assessments, and raises a flag that they may
    raise as well. -/
theorem delivered_placed (turnId : Uuid) (output : InterviewerOutput)
    (cfg : OrchestratorConfig) :
    delivered (s.placed v flag) turnId output cfg
      = (delivered s turnId output cfg).placed v flag := by
  have hissued : (s.placed v flag).lastIssuedMove = s.lastIssuedMove := rfl
  unfold delivered noteDrift
  rw [hissued]
  by_cases hdrift : s.lastIssuedMove.isSome ∧ s.lastIssuedMove ≠ some output.internalMoveExecuted
  · rw [if_pos hdrift, if_pos hdrift]
    dsimp only [SessionState.placed]
    rw [Bool.or_right_comm]
  · rw [if_neg hdrift, if_neg hdrift]
    rfl

theorem assessments_delivered (turnId : Uuid) (output : InterviewerOutput)
    (cfg : OrchestratorConfig) : (delivered s turnId output cfg).assessments = s.assessments := by
  obtain ⟨drift, hdrift⟩ := noteDrift_fst s output.internalMoveExecuted cfg
  simp only [delivered, SessionState.assessments, hdrift]

theorem indifferent_onInterviewerReply (turnId : Uuid) (output : InterviewerOutput)
    (cfg : OrchestratorConfig) :
    Indifferent (fun s => .ok (onInterviewerReply s turnId output cfg)) := by
  -- The handler, with each of its branches as a handler of its own.
  have hbranches : (fun s => Except.ok (onInterviewerReply s turnId output cfg))
      = fun s => if (!answersPendingCommand s turnId) = true then .ok (ignore s)
        else if s.phase = .close then .ok (complete s)
        else if (s.phase ≠ .tech ∧ s.phase ≠ .qa) ∨ s.awaiting ≠ some .interviewer then
          .ok (ignore s)
        else (.ok ⟨delivered s turnId output cfg,
          [.deliverUtterance ⟨turnId, output.utterance⟩, .persistState]⟩ :
            Except OrchestratorError TransitionResult) := by
    funext s
    unfold onInterviewerReply
    split_ifs <;> rfl
  rw [hbranches]
  refine indifferent_ite (fun _ _ _ => Iff.rfl) indifferent_ignore ?_
  refine indifferent_ite (fun _ _ _ => Iff.rfl) indifferent_complete ?_
  refine indifferent_ite (fun _ _ _ => Iff.rfl) indifferent_ignore ?_
  refine indifferent_ok ?_ ?_
  · intro s v flag
    rw [delivered_placed]
    rfl
  · exact fun s => assessments_delivered s turnId output cfg

theorem indifferent_onInterviewerFailed (turnId : Uuid) (errorKind : String) :
    Indifferent (fun s => .ok (onInterviewerFailed s turnId errorKind)) := by
  refine indifferent_ok ?_ ?_
  · intro s v flag
    have hanswers : answersPendingCommand (s.placed v flag) turnId
        = answersPendingCommand s turnId := rfl
    have hphase : (s.placed v flag).phase = s.phase := rfl
    have hawaiting : (s.placed v flag).awaiting = s.awaiting := rfl
    have hpending : (s.placed v flag).pendingCommand = s.pendingCommand := rfl
    have hstreak : (s.placed v flag).interviewerFailureStreak = s.interviewerFailureStreak := rfl
    unfold onInterviewerFailed
    rw [hanswers, hphase, hawaiting, hpending, hstreak]
    by_cases hstale : (!answersPendingCommand s turnId) = true
    · rw [if_pos hstale, if_pos hstale]
      rfl
    · rw [if_neg hstale, if_neg hstale]
      by_cases hclosed : (s.phase ≠ .tech ∧ s.phase ≠ .qa) ∨ s.awaiting ≠ some .interviewer
      · rw [if_pos hclosed, if_pos hclosed]
        rfl
      · rw [if_neg hclosed, if_neg hclosed]
        split
        · by_cases hmissed : s.interviewerFailureStreak ≥ 1
          · rw [if_pos hmissed, if_pos hmissed]
            rfl
          · rw [if_neg hmissed, if_neg hmissed]
            rfl
        · rfl
  · intro s
    unfold onInterviewerFailed
    split
    · rfl
    · split
      · rfl
      · split
        · split_ifs <;> rfl
        · rfl

/-- A timer moves the session by its clocks and its plan. -/
theorem indifferent_onTimerTick (now : Instant) (cfg : OrchestratorConfig) :
    Indifferent (fun s => onTimerTick s now cfg) := by
  -- In each phase the handler is one of these.
  have htech : Indifferent (fun s => sessionBudgetExhausted s now >>= fun exhausted =>
      if exhausted = true then enterQa s now >>= fun p =>
        .ok { newState := p.1, commands := [.runInterviewer p.2] }
      else .ok (ignore s)) := by
    refine indifferent_bind (fun _ _ _ => rfl) ?_
    intro exhausted
    refine indifferent_ite (p := fun _ => exhausted = true) (fun _ _ _ => Iff.rfl) ?_
      indifferent_ignore
    have henter : (fun s => enterQa s now >>= fun p =>
        Except.ok { newState := p.1, commands := [Command.runInterviewer p.2] })
        = fun s => requirePlan s >>= fun plan => (.ok
          { newState := (issueInterviewer (inQa s now) .acknowledgeAndTransition none
              (qaContext plan)).1
            commands := [.runInterviewer (issueInterviewer (inQa s now) .acknowledgeAndTransition
              none (qaContext plan)).2] } : Except OrchestratorError TransitionResult) := by
      funext s
      unfold enterQa
      cases requirePlan s <;> rfl
    rw [henter]
    exact indifferent_bind (fun _ _ _ => rfl)
      (fun plan => indifferent_ok (fun _ _ _ => rfl) (fun _ => rfl))
  have hqa : Indifferent (fun s => sessionBudgetExhausted s now >>= fun exhausted =>
      if exhausted = true then .ok (enterClose s)
      else qaBudgetExhausted s now >>= fun qaExhausted =>
        if qaExhausted = true then .ok (enterClose s) else .ok (ignore s)) := by
    refine indifferent_bind (fun _ _ _ => rfl) ?_
    intro exhausted
    refine indifferent_ite (p := fun _ => exhausted = true) (fun _ _ _ => Iff.rfl)
      indifferent_enterClose ?_
    refine indifferent_bind (fun _ _ _ => rfl) ?_
    intro qaExhausted
    exact indifferent_ite (p := fun _ => qaExhausted = true) (fun _ _ _ => Iff.rfl)
      indifferent_enterClose indifferent_ignore
  refine indifferent_bind (x := fun s => candidateTimedOut s now cfg) (fun _ _ _ => rfl) ?_
  intro timedOut
  refine indifferent_ite (p := fun _ => timedOut = true) (fun _ _ _ => Iff.rfl)
    (indifferent_abort _ _ _) ?_
  intro s v flag
  have hphase : (s.placed v flag).phase = s.phase := rfl
  dsimp only
  rw [hphase]
  cases s.phase with
  | tech => exact htech s v flag
  | qa => exact hqa s v flag
  | close => exact indifferent_complete s v flag
  | created | intro | completed | aborted => exact indifferent_ignore s v flag

theorem indifferent_onReconnected : Indifferent (fun s => .ok (onReconnected s)) := by
  refine indifferent_ok ?_ ?_
  · intro s v flag
    have hpending : (s.placed v flag).pendingCommand = s.pendingCommand := rfl
    unfold onReconnected
    rw [hpending]
    cases s.pendingCommand <;> rfl
  · intro s
    unfold onReconnected
    cases s.pendingCommand <;> rfl

/-- A candidate turn that TECH does not wait for adjudicates nothing. -/
theorem onCandidateTurn_placed (turnId : Uuid) (text : String) (now : Instant)
    (cfg : OrchestratorConfig)
    (hidle : awaitsAnswer s (.candidateTurnReceived turnId text now) = false) :
    onCandidateTurn (s.placed v flag) turnId now cfg
        = (onCandidateTurn s turnId now cfg).map (fun r => r.placed v flag) ∧
      ∀ r, onCandidateTurn s turnId now cfg = .ok r → r.newState.assessments = s.assessments := by
  have hphase : (s.placed v flag).phase = s.phase := rfl
  have hawaiting : (s.placed v flag).awaiting = s.awaiting := rfl
  unfold onCandidateTurn
  rw [hphase, hawaiting]
  cases hp : s.phase with
  | intro => exact indifferent_onIntroCandidateTurn now s v flag
  | tech =>
      have hne : s.awaiting ≠ some .candidate := by
        intro hc
        simp only [awaitsAnswer, hp, hc, Event.isCandidateTurn, decide_true, Bool.and_self,
          Bool.true_eq_false] at hidle
      dsimp only
      rw [if_pos hne, if_pos hne]
      exact indifferent_ignore s v flag
  | qa => exact indifferent_onQaCandidateTurn now s v flag
  | created | close | completed | aborted => exact indifferent_ignore s v flag

/-- An event that adjudicates nothing does not read the assessments, and leaves
    them as they are. -/
theorem transition_placed [Scalars] (cfg : OrchestratorConfig) {e : Event}
    (he : e.keepsTalking s = true) :
    transition (s.placed v flag) e cfg = (transition s e cfg).map (fun r => r.placed v flag) ∧
      ∀ r, transition s e cfg = .ok r → r.newState.assessments = s.assessments := by
  have hphase : (s.placed v flag).phase = s.phase := rfl
  unfold transition
  rw [hphase]
  by_cases hterminal : s.phase ∈ terminalPhases
  · rw [if_pos hterminal, if_pos hterminal]
    exact indifferent_ignore s v flag
  rw [if_neg hterminal, if_neg hterminal]
  cases e with
  | sessionStarted now =>
      exact indifferent_ite (p := fun s => s.phase = .created) (fun _ _ _ => Iff.rfl)
        (indifferent_onSessionStarted now) indifferent_ignore s v flag
  | candidateTurnReceived turnId text now =>
      have hidle : awaitsAnswer s (.candidateTurnReceived turnId text now) = false := by
        simpa only [Event.keepsTalking, Bool.not_eq_true'] using he
      by_cases hcreated : s.phase = .created
      · simp only [if_pos hcreated]
        exact indifferent_ignore s v flag
      · simp only [if_neg hcreated]
        exact onCandidateTurn_placed s v flag turnId text now cfg hidle
  | interviewerReplyReady turnId output now =>
      exact indifferent_ite (p := fun s => s.phase = .created) (fun _ _ _ => Iff.rfl)
        indifferent_ignore (indifferent_onInterviewerReply turnId output cfg) s v flag
  | interviewerFailed turnId errorKind now =>
      exact indifferent_ite (p := fun s => s.phase = .created) (fun _ _ _ => Iff.rfl)
        indifferent_ignore (indifferent_onInterviewerFailed turnId errorKind) s v flag
  | timerTick now => exact indifferent_onTimerTick now cfg s v flag
  | reconnected now => exact indifferent_onReconnected s v flag
  | assessmentCompleted | assessmentFailed | operatorAbort =>
      exact absurd he Bool.false_ne_true

end Handlers

section Commuting

/-- Two events in a row, with what each of them asks for. -/
def oneThenOther [Scalars] (cfg : OrchestratorConfig) (s : SessionState) (e f : Event) :
    Except OrchestratorError (SessionState × List Command × List Command) := do
  let r ← transition s e cfg
  let r' ← transition r.newState f cfg
  .ok (r'.newState, r.commands, r'.commands)

theorem transition_of_not_live [Scalars] {cfg : OrchestratorConfig} {s : SessionState}
    (h : ¬ live s) (e : Event) : transition s e cfg = .ok (ignore s) := by
  unfold transition
  rw [if_pos (not_not.mp h)]

/-- A late assessment and an event that adjudicates nothing may come in either
    order, unless the event ends the session: the state they lead to, the commands
    that each of them asks for and the error, if there is one, are the same. -/
theorem late_assessment_commutes [Scalars] (cfg : OrchestratorConfig) (s : SessionState)
    (a e : Event) (ha : a.isAssessment = true) (he : e.keepsTalking s = true)
    (hlive : ∀ r, transition s e cfg = .ok r → live s → live r.newState) :
    oneThenOther cfg s a e = (oneThenOther cfg s e a).map (fun p => (p.1, p.2.2, p.2.1)) := by
  by_cases hs : live s
  · have habsorb := transition_of_assessment cfg hs ha
    have hplaced := transition_placed s (s.assessments.absorb cfg a).1
      (s.assessments.absorb cfg a).2.1 cfg he
    cases he : transition s e cfg with
    | error x =>
        rw [he] at hplaced
        simp only [oneThenOther, habsorb, he, hplaced.1, bind, Except.bind, Except.map]
    | ok r =>
        -- The event leaves the session live and its assessments as they were.
        have hkept := hplaced.2 r he
        have hafter := transition_of_assessment cfg (hlive r he hs) ha
        rw [hkept] at hafter
        rw [he] at hplaced
        simp only [oneThenOther, habsorb, he, hplaced.1, hafter, bind, Except.bind, Except.map,
          TransitionResult.placed]
  · simp only [oneThenOther, transition_of_not_live hs, ignore, bind, Except.bind, Except.map]

/-- A reply that probes where a seed was due, and the assessment of the answer
    before it. -/
def driftedReply : Event := .interviewerReplyReady (smallTurn 2) ⟨"Why?", .redirect⟩ 4000000

def lateResult : Event :=
  .assessmentCompleted ⟨101⟩
    ⟨⟨101⟩, smallId, "sql", [⟨"sql", smallLevel, 9 / 10, "", []⟩],
      [⟨.likelyCheating, none, "", none⟩], false, none⟩ 5000000

theorem late_assessment_commutes_small : ∃ ts s, SmallRun ts s ∧
    s.tech.pendingAssessments = [⟨101⟩] ∧
    @oneThenOther Scalars.strict OrchestratorConfig.committed s lateResult driftedReply
      = (@oneThenOther Scalars.strict OrchestratorConfig.committed s driftedReply lateResult).map
          (fun p => (p.1, p.2.2, p.2.1)) := by
  have hrec : (smallRecord (smallEvents.take 4)).map (fun r => (r.2.tech.pendingAssessments,
      (@transition Scalars.strict r.2 driftedReply OrchestratorConfig.committed).map
        (fun q => q.newState.phase))) = .ok ([⟨101⟩], .ok .tech) := by decide +kernel
  rcases exists_run_of_record _ _ _ _ _ hrec with ⟨ts, s, hrun, hproj⟩
  simp only [Prod.mk.injEq] at hproj
  refine ⟨ts, s, hrun, hproj.1, ?_⟩
  refine @late_assessment_commutes Scalars.strict _ s lateResult driftedReply rfl rfl ?_
  intro r hr hlive
  rw [hr] at hproj
  have hphase : r.newState.phase = .tech := Except.ok.inj hproj.2
  rw [live, hphase]
  decide

end Commuting

section Arrivals

/-- The turn that an assessor's result is about. -/
def Event.resolves : Event → Option Uuid
  | .assessmentCompleted forTurnId _ _ | .assessmentFailed forTurnId _ _ => some forTurnId
  | _ => none

/-- Every part of a state that results are written to but the coverage. -/
structure Bookkeeping where
  pendingAssessments : List Uuid
  assessmentFocus : Dict Uuid String
  cheatFlagCount : Int
  needsManualReview : Bool
  flaggedForReview : Bool

def SessionState.bookkeeping (s : SessionState) : Bookkeeping :=
  ⟨s.tech.pendingAssessments, s.tech.assessmentFocus, s.cheatFlagCount, s.needsManualReview,
    s.flaggedForReview⟩

/-- The turn of a result is settled. -/
def Bookkeeping.settle (b : Bookkeeping) (forTurnId : Uuid) : Bookkeeping :=
  { b with
    pendingAssessments := b.pendingAssessments.filter (fun t => t ≠ forTurnId)
    assessmentFocus := b.assessmentFocus.erase forTurnId }

/-- The flags of an output are counted. -/
def Bookkeeping.count (b : Bookkeeping) (cfg : OrchestratorConfig) (output : AssessorOutput) :
    Bookkeeping :=
  { b with
    cheatFlagCount := b.cheatFlagCount + cheatFlags output
    needsManualReview := b.needsManualReview || output.needsManualReview
    flaggedForReview := b.flaggedForReview ||
      decide (b.cheatFlagCount + cheatFlags output ≥ cfg.flags.cheatFlagsToReview) }

/-- What a result that was waited for does to the books. -/
def Bookkeeping.enter (cfg : OrchestratorConfig) (b : Bookkeeping) : Event → Bookkeeping
  | .assessmentCompleted forTurnId output _ => (b.settle forTurnId).count cfg output
  | .assessmentFailed forTurnId _ _ => b.settle forTurnId
  | _ => b

theorem Bookkeeping.settle_comm (b : Bookkeeping) (t u : Uuid) :
    (b.settle t).settle u = (b.settle u).settle t := by
  simp only [Bookkeeping.settle, List.filter_filter, Bool.and_comm, Dict.erase_comm _ t u]

theorem Bookkeeping.settle_count (b : Bookkeeping) (cfg : OrchestratorConfig) (t : Uuid)
    (output : AssessorOutput) : (b.count cfg output).settle t = (b.settle t).count cfg output :=
  rfl

/-- The count of flags only grows, so the last one counted tells whether any of
    the totals reached the threshold. -/
theorem Bookkeeping.count_comm (b : Bookkeeping) (cfg : OrchestratorConfig)
    (o p : AssessorOutput) : (b.count cfg o).count cfg p = (b.count cfg p).count cfg o := by
  have hflag : ∀ m n : Nat,
      ((b.flaggedForReview || decide (b.cheatFlagCount + m ≥ cfg.flags.cheatFlagsToReview)) ||
          decide (b.cheatFlagCount + m + n ≥ cfg.flags.cheatFlagsToReview))
        = (b.flaggedForReview ||
          decide (b.cheatFlagCount + m + n ≥ cfg.flags.cheatFlagsToReview)) := by
    intro m n
    by_cases h : b.cheatFlagCount + m ≥ cfg.flags.cheatFlagsToReview
    · have h' : b.cheatFlagCount + m + n ≥ cfg.flags.cheatFlagsToReview := by omega
      rw [decide_eq_true h, decide_eq_true h', Bool.or_true, Bool.or_true]
    · rw [decide_eq_false h, Bool.or_false]
  have htotal : b.cheatFlagCount + (cheatFlags o : Int) + (cheatFlags p : Int)
      = b.cheatFlagCount + (cheatFlags p : Int) + (cheatFlags o : Int) := by omega
  have hleft := hflag (cheatFlags o) (cheatFlags p)
  have hright := hflag (cheatFlags p) (cheatFlags o)
  unfold Bookkeeping.count
  dsimp only
  rw [hleft, hright, htotal, Bool.or_right_comm b.needsManualReview]

/-- The books do not depend on the order of two entries. -/
theorem Bookkeeping.enter_comm (cfg : OrchestratorConfig) (b : Bookkeeping) (e f : Event) :
    (b.enter cfg e).enter cfg f = (b.enter cfg f).enter cfg e := by
  cases e <;> cases f <;>
    simp only [Bookkeeping.enter, Bookkeeping.settle_count, Bookkeeping.settle_comm,
      Bookkeeping.count_comm]

variable [Scalars] {cfg : OrchestratorConfig} {s : SessionState}

omit [Scalars] in
theorem isAssessment_of_resolves {e : Event} {t : Uuid} (h : e.resolves = some t) :
    e.isAssessment = true := by
  cases e with
  | assessmentCompleted | assessmentFailed => rfl
  | sessionStarted | candidateTurnReceived | interviewerReplyReady | interviewerFailed
  | timerTick | reconnected | operatorAbort => cases h

variable (cfg) in
omit [Scalars] in
/-- A result that is waited for is entered in the books. -/
theorem bookkeeping_of_absorb {e : Event} {t : Uuid} (he : e.resolves = some t)
    (hpending : t ∈ s.tech.pendingAssessments) :
    (s.placed (s.assessments.absorb cfg e).1 (s.assessments.absorb cfg e).2.1).bookkeeping
      = s.bookkeeping.enter cfg e := by
  have hp : t ∈ s.assessments.pendingAssessments := hpending
  cases e with
  | assessmentCompleted forTurnId output now =>
      obtain rfl : forTurnId = t := Option.some.inj he
      rw [Assessments.absorb, if_pos hp]
      rfl
  | assessmentFailed forTurnId errorKind now =>
      obtain rfl : forTurnId = t := Option.some.inj he
      rw [Assessments.absorb, if_pos hp]
      simp only [SessionState.bookkeeping, SessionState.placed, SessionState.assessments,
        Bookkeeping.enter, Bookkeeping.settle, Bool.or_false]
  | sessionStarted | candidateTurnReceived | interviewerReplyReady | interviewerFailed
  | timerTick | reconnected | operatorAbort => cases he

variable (cfg) in
omit [Scalars] in
/-- Another turn is waited for as before, under the same competency. -/
theorem pending_enter_of_ne {b : Bookkeeping} {e : Event} {t u : Uuid}
    (he : e.resolves = some t) (hne : u ≠ t) :
    (u ∈ (b.enter cfg e).pendingAssessments ↔ u ∈ b.pendingAssessments) ∧
      (b.enter cfg e).assessmentFocus.get? u = b.assessmentFocus.get? u := by
  have hsettle : (u ∈ (b.settle t).pendingAssessments ↔ u ∈ b.pendingAssessments) ∧
      (b.settle t).assessmentFocus.get? u = b.assessmentFocus.get? u := by
    refine ⟨?_, Dict.get?_erase_of_ne _ _ _ hne⟩
    simp only [Bookkeeping.settle, List.mem_filter, hne, ne_eq, not_false_eq_true, decide_true,
      and_true]
  cases e with
  | assessmentCompleted forTurnId output now =>
      obtain rfl : forTurnId = t := Option.some.inj he
      exact hsettle
  | assessmentFailed forTurnId errorKind now =>
      obtain rfl : forTurnId = t := Option.some.inj he
      exact hsettle
  | sessionStarted | candidateTurnReceived | interviewerReplyReady | interviewerFailed
  | timerTick | reconnected | operatorAbort => cases he

omit [Scalars] in
/-- What a result brings depends on the bookkeeping of its own turn. -/
theorem evidenceOf_congr {s t : SessionState} {f : Event} {u : Uuid} (hf : f.resolves = some u)
    (hlive : live s ↔ live t)
    (hpending : u ∈ t.tech.pendingAssessments ↔ u ∈ s.tech.pendingAssessments)
    (hfocus : t.tech.assessmentFocus.get? u = s.tech.assessmentFocus.get? u) :
    evidenceOf cfg t f = evidenceOf cfg s f := by
  cases f with
  | assessmentCompleted forTurnId output now =>
      obtain rfl : forTurnId = u := Option.some.inj hf
      simp only [evidenceOf, hlive, hpending]
  | assessmentFailed forTurnId errorKind now =>
      obtain rfl : forTurnId = u := Option.some.inj hf
      simp only [evidenceOf, hlive, hpending, hfocus]
  | sessionStarted | candidateTurnReceived | interviewerReplyReady | interviewerFailed
  | timerTick | reconnected | operatorAbort => cases hf

variable (cfg) in
/-- Results of distinct turns that are all waited for are accepted one by one:
    the books are entered in turn, and the coverage is read off the history with
    what the results bring at the end. -/
theorem feed_results (es : List Event) (h : List Evidence) (hlive : live s)
    (hcover : ∀ n, s.tech.coverage.get? n = cellOf n h)
    (hpending : ∀ e ∈ es, ∃ t ∈ s.tech.pendingAssessments, e.resolves = some t)
    (hdistinct : (es.filterMap Event.resolves).Nodup) :
    ∃ v flag out, feed (step cfg) s es = .ok (s.placed v flag, out) ∧
      (s.placed v flag).bookkeeping = es.foldl (Bookkeeping.enter cfg) s.bookkeeping ∧
      ∀ n, v.coverage.get? n = cellOf n (h ++ es.flatMap (evidenceOf cfg s)) := by
  induction es generalizing s h with
  | nil =>
      refine ⟨s.assessments, false, [], ?_, ?_, ?_⟩
      · rw [placed_self]
        rfl
      · rw [placed_self]
        rfl
      · intro n
        rw [List.flatMap_nil, List.append_nil]
        exact hcover n
  | cons e es ih =>
      obtain ⟨t, ht, he⟩ := hpending e List.mem_cons_self
      rw [List.filterMap_cons_some he, List.nodup_cons] at hdistinct
      have htransition := transition_of_assessment cfg hlive
        (isAssessment_of_resolves he)
      have hbooks := bookkeeping_of_absorb cfg he ht
      generalize hs₁ : s.placed (s.assessments.absorb cfg e).1 (s.assessments.absorb cfg e).2.1
        = s₁ at htransition hbooks
      have hlive₁ : live s₁ := hs₁ ▸ hlive
      have hstep := (step_eq_ok_iff cfg s s₁ e _).mpr htransition
      -- The turns of the other results are waited for as before.
      have hother : ∀ f ∈ es, ∃ u, f.resolves = some u ∧
          (u ∈ s₁.tech.pendingAssessments ↔ u ∈ s.tech.pendingAssessments) ∧
          s₁.tech.assessmentFocus.get? u = s.tech.assessmentFocus.get? u := by
        intro f hf
        obtain ⟨u, _, hu⟩ := hpending f (List.mem_cons_of_mem _ hf)
        have hne : u ≠ t := by
          intro hc
          exact hdistinct.1 (List.mem_filterMap.mpr ⟨f, hf, hc ▸ hu⟩)
        have hkept := pending_enter_of_ne cfg (b := s.bookkeeping) he hne
        rw [← hbooks] at hkept
        exact ⟨u, hu, hkept⟩
      have hpending₁ : ∀ f ∈ es, ∃ u ∈ s₁.tech.pendingAssessments, f.resolves = some u := by
        intro f hf
        obtain ⟨u, hmem, hu⟩ := hpending f (List.mem_cons_of_mem _ hf)
        obtain ⟨u', hu', hiff, _⟩ := hother f hf
        obtain rfl : u' = u := Option.some.inj (hu'.symm.trans hu)
        exact ⟨u', hiff.mpr hmem, hu⟩
      have hevidence : es.flatMap (evidenceOf cfg s₁) = es.flatMap (evidenceOf cfg s) := by
        refine List.flatMap_congr ?_
        intro f hf
        obtain ⟨u, hu, hiff, hfocus⟩ := hother f hf
        exact evidenceOf_congr hu (iff_of_true hlive hlive₁) hiff hfocus
      obtain ⟨v, flag, out, hfeed, hbooks', hcover'⟩ :=
        ih (h ++ evidenceOf cfg s e) hlive₁ (coverage_step hstep hcover) hpending₁ hdistinct.2
      -- Two placements in a row are one.
      have hplaced : s₁.placed v flag
          = s.placed v ((s.assessments.absorb cfg e).2.1 || flag) := by
        rw [← hs₁]
        simp only [SessionState.placed, Bool.or_assoc]
      rw [hplaced] at hfeed hbooks'
      refine ⟨v, (s.assessments.absorb cfg e).2.1 || flag,
        (s.assessments.absorb cfg e).2.2 ++ out, ?_, ?_, ?_⟩
      · rw [feed_cons_ok _ _ _ _ _ _ hstep, hfeed]
        rfl
      · rw [hbooks', List.foldl_cons, hbooks]
      · intro n
        rw [hcover', hevidence, List.flatMap_cons, List.append_assoc]

/-- Everything in a state but the coverage. -/
def SessionState.withoutCoverage (s : SessionState) : SessionState :=
  { s with tech := { s.tech with coverage := .empty } }

/-- Two cells that the same results have led to in another order: only the latest
    item and the order of the red flags may differ, and the confidence of the best
    item where more than one of the results attains its level. -/
structure CellsAgree (items : List AssessmentItem) (cell cell' : CoverageCell) : Prop where
  bestLevel : cell.bestLevel = cell'.bestLevel
  gapNotAssessable : cell.gapNotAssessable = cell'.gapNotAssessable
  assessmentFailed : cell.assessmentFailed = cell'.assessmentFailed
  gapBudgetExhausted : cell.gapBudgetExhausted = cell'.gapBudgetExhausted
  needsManualReview : cell.needsManualReview = cell'.needsManualReview
  redFlags : cell.redFlags.Perm cell'.redFlags
  bestConfidence : items.countP (fun item => cell.bestLevel = some item.score) ≤ 1 →
    cell.bestConfidence = cell'.bestConfidence

/-- Two states that the same results have led to in another order. The items are
    those that the results bring for each node. -/
structure SameButOrder (items : String → List AssessmentItem) (t t' : SessionState) : Prop where
  outside : t.withoutCoverage = t'.withoutCoverage
  nodes : ∀ n, (t.tech.coverage.get? n).isSome = (t'.tech.coverage.get? n).isSome
  cells : ∀ n cell cell', t.tech.coverage.get? n = some cell →
    t'.tech.coverage.get? n = some cell' → CellsAgree (items n) cell cell'

omit [Scalars] in
theorem withoutCoverage_placed {v v' : Assessments} {flag flag' : Bool}
    (h : (s.placed v flag).bookkeeping = (s.placed v' flag').bookkeeping) :
    (s.placed v flag).withoutCoverage = (s.placed v' flag').withoutCoverage := by
  simp only [SessionState.bookkeeping, SessionState.placed, Bookkeeping.mk.injEq] at h
  obtain ⟨hpending, hfocus, hcheats, hmanual, hflagged⟩ := h
  simp only [SessionState.withoutCoverage, SessionState.placed, hpending, hfocus, hcheats,
    hmanual, hflagged]

omit [Scalars] in
theorem any_perm {α : Type} {l l' : List α} (h : l.Perm l') (p : α → Bool) :
    l.any p = l'.any p := by
  rw [Bool.eq_iff_iff, List.any_eq_true, List.any_eq_true]
  simp only [h.mem_iff]

omit [Scalars] in
/-- The summary of a history whose end is permuted. -/
theorem summary_perm (n : String) (h l l' : List Evidence) (hperm : l.Perm l') :
    CellsAgree (l.flatMap (Evidence.items n)) (summary n (h ++ l)) (summary n (h ++ l')) := by
  have hall : (h ++ l).Perm (h ++ l') := List.Perm.append_left h hperm
  have hitems := hall.flatMap_right (Evidence.items n)
  refine ⟨champion_key_perm _ hitems, any_perm hall _, any_perm hall _, any_perm hall _,
    any_perm hall _, hall.flatMap_right _, ?_⟩
  intro hfew
  have hone : champion AssessmentItem.score ((h ++ l).flatMap (Evidence.items n))
      = champion AssessmentItem.score ((h ++ l').flatMap (Evidence.items n)) := by
    rw [List.flatMap_append, List.flatMap_append]
    refine champion_perm AssessmentItem.score _ _ _ (hperm.flatMap_right _) ?_
    intro best hbest
    -- The items that attain the best level are those that attain the champion's.
    have hlevel : (summary n (h ++ l)).bestLevel = some best.score := by
      rw [summary, CoverageCell.withItems, List.flatMap_append, hbest]
      rfl
    have hsame : ∀ item : AssessmentItem, decide ((summary n (h ++ l)).bestLevel
        = some item.score) = decide (item.score = best.score) := by
      intro item
      rw [hlevel, decide_eq_decide, Option.some.injEq]
      exact eq_comm
    simpa only [hsame] using hfew
  exact congrArg (Option.map AssessmentItem.confidence) hone

omit [Scalars] in
/-- The items that a result brings are evidence, if it is waited for. -/
theorem items_of_evidence (n : String) {e : Event} {t : Uuid} (hlive : live s)
    (he : e.resolves = some t) (hpending : t ∈ s.tech.pendingAssessments) :
    (evidenceOf cfg s e).flatMap (Evidence.items n) = itemsAbout n e := by
  cases e with
  | assessmentCompleted forTurnId output now =>
      obtain rfl : forTurnId = t := Option.some.inj he
      rw [evidenceOf, if_pos ⟨hlive, hpending⟩, List.flatMap_singleton]
      rfl
  | assessmentFailed forTurnId errorKind now =>
      obtain rfl : forTurnId = t := Option.some.inj he
      rw [evidenceOf, if_pos ⟨hlive, hpending⟩]
      cases s.tech.assessmentFocus.get? forTurnId <;> rfl
  | sessionStarted | candidateTurnReceived | interviewerReplyReady | interviewerFailed
  | timerTick | reconnected | operatorAbort => cases he

/-- The results of distinct turns that are waited for may arrive in any order. The
    states agree in everything outside the coverage, and in each cell on the best
    level, on the markers and on the red flags up to their order. They agree on the
    best confidence too where at most one of the results attains the best level. -/
theorem arrival_order (sessionId : Uuid) (planInput : Dict String Json)
    (ts : List (Taken SessionState Event Command))
    (hrun : SessionRun cfg sessionId planInput ts s) (hlive : live s) (es es' : List Event)
    (hpending : ∀ e ∈ es, ∃ t ∈ s.tech.pendingAssessments, e.resolves = some t)
    (hdistinct : (es.filterMap Event.resolves).Nodup) (hperm : es.Perm es') :
    ∃ t t' out out', feed (step cfg) s es = .ok (t, out) ∧ feed (step cfg) s es' = .ok (t', out') ∧
      SameButOrder (fun n => es.flatMap (itemsAbout n)) t t' := by
  have hcover := coverage_of_run hrun
  have hpending' : ∀ e ∈ es', ∃ t ∈ s.tech.pendingAssessments, e.resolves = some t :=
    fun e he => hpending e (hperm.mem_iff.mpr he)
  have hdistinct' : (es'.filterMap Event.resolves).Nodup :=
    (hperm.filterMap Event.resolves).nodup_iff.mp hdistinct
  obtain ⟨v, flag, out, hfeed, hbooks, hcells⟩ :=
    feed_results cfg es _ hlive hcover hpending hdistinct
  obtain ⟨v', flag', out', hfeed', hbooks', hcells'⟩ :=
    feed_results cfg es' _ hlive hcover hpending' hdistinct'
  -- The bookkeeping of the results commutes.
  have hsame : es.foldl (Bookkeeping.enter cfg) s.bookkeeping
      = es'.foldl (Bookkeeping.enter cfg) s.bookkeeping :=
    hperm.foldl_eq' (fun e _ f _ b => Bookkeeping.enter_comm cfg b e f) s.bookkeeping
  have hevidence : (es.flatMap (evidenceOf cfg s)).Perm (es'.flatMap (evidenceOf cfg s)) :=
    hperm.flatMap_right _
  -- What the results say of a competency is what their outputs list.
  have hitems : ∀ n, (es.flatMap (evidenceOf cfg s)).flatMap (Evidence.items n)
      = es.flatMap (itemsAbout n) := by
    intro n
    rw [List.flatMap_assoc]
    refine List.flatMap_congr ?_
    intro e he
    obtain ⟨t, ht, hresolves⟩ := hpending e he
    exact items_of_evidence n hlive hresolves ht
  refine ⟨_, _, out, out', hfeed, hfeed', ?_, ?_, ?_⟩
  · exact withoutCoverage_placed (hbooks.trans (hsame.trans hbooks'.symm))
  · intro n
    have htouched := any_perm (List.Perm.append_left (history cfg ts) hevidence)
      (Evidence.touches n)
    change (v.coverage.get? n).isSome = (v'.coverage.get? n).isSome
    rw [hcells, hcells', cellOf, cellOf, htouched]
    split_ifs <;> rfl
  · intro n cell cell' hcell hcell'
    -- Each cell sums up the same evidence, in another order.
    have hsum := getD_cellOf n (history cfg ts ++ es.flatMap (evidenceOf cfg s))
    have hsum' := getD_cellOf n (history cfg ts ++ es'.flatMap (evidenceOf cfg s))
    rw [← hcells, show v.coverage.get? n = some cell from hcell, Option.getD_some] at hsum
    rw [← hcells', show v'.coverage.get? n = some cell' from hcell', Option.getD_some] at hsum'
    rw [hsum, hsum', ← hitems]
    exact summary_perm n _ _ _ hevidence

/-- Two answers given before either of them has been assessed. -/
def twoAnswers : List Event := smallEvents.take 5 ++ [secondAnswer]

/-- Both results, as the assessor worked through the answers. -/
def bothResults : List Event := [lateResult, .assessmentFailed ⟨102⟩ "timeout" 7000000]

omit [Scalars] in
theorem arrival_order_small : ∃ ts s, SmallRun ts s ∧
    s.tech.pendingAssessments = [⟨101⟩, ⟨102⟩] ∧
    ∃ t t' out out', feed (@step Scalars.strict OrchestratorConfig.committed) s bothResults
        = .ok (t, out) ∧
      feed (@step Scalars.strict OrchestratorConfig.committed) s bothResults.reverse
        = .ok (t', out') ∧
      SameButOrder (fun n => bothResults.flatMap (itemsAbout n)) t t' := by
  have hrec : (smallRecord twoAnswers).map (fun r => (r.2.tech.pendingAssessments, r.2.phase))
      = .ok ([⟨101⟩, ⟨102⟩], .tech) := by decide +kernel
  rcases exists_run_of_record _ _ _ _ _ hrec with ⟨ts, s, hrun, hproj⟩
  simp only [Prod.mk.injEq] at hproj
  obtain ⟨hpending, hphase⟩ := hproj
  refine ⟨ts, s, hrun, hpending, ?_⟩
  refine @arrival_order Scalars.strict _ s _ _ ts hrun ?_ bothResults _ ?_ ?_ ?_
  · rw [live, hphase]
    decide
  · intro e he
    rw [hpending]
    rcases List.mem_cons.mp he with rfl | he
    · exact ⟨⟨101⟩, List.mem_cons_self, rfl⟩
    · obtain rfl := List.mem_singleton.mp he
      exact ⟨⟨102⟩, List.mem_cons_of_mem _ List.mem_cons_self, rfl⟩
  · decide
  · exact (List.reverse_perm _).symm

end Arrivals

end TechScreen
