import TechScreen.Orchestrator.Locality
import TechScreen.Orchestrator.Phases
import TechScreen.Orchestrator.ReviewFlag

/-!
# The Session Limit

A plan bounds the whole session, and the machine looks at that bound when a
timer ticks. A tick that finds the technical phase past the limit takes the
session to Q&A with one move, unless the candidate has been silent for too long,
which beats every budget. What else arrives past the limit is handled as it is
before: results and replies are taken in, a failed call is repeated once, an
operator ends the session.

A new technical question is a call in a competency that is neither the first
seed nor a repeated call. Only an answer that the technical phase waits for
issues one, and it is adjudicated on the clock of its competency.

## Main definitions

* `Event.now`: The timestamp of an event.
* `PastLimit`: The session has used up its time.
* `RunInterviewer.isQuestion`: A new technical question.
* `LimitStep`: What an event past the limit does to the technical phase.

## Theorems

* `onTimerTick_of_pastLimit`: A tick past the limit.
* `awaitsAnswer_of_question`: Only an awaited answer issues a question.
* `session_limit_ticks`: The limit over a run.
-/

namespace TechScreen

open Lib

def Event.now : Event → Instant
  | .sessionStarted now | .candidateTurnReceived _ _ now | .interviewerReplyReady _ _ now
  | .interviewerFailed _ _ now | .assessmentCompleted _ _ now | .assessmentFailed _ _ now
  | .timerTick now | .reconnected now | .operatorAbort _ now => now

/-- At `now` the session has run for as long as its plan allows, in microseconds. -/
def PastLimit (s : SessionState) (now : Instant) : Prop :=
  ∃ plan startedAt, s.plan = some plan ∧ s.sessionStartedAt = some startedAt ∧
    now - startedAt ≥ plan.sessionMaxMinutes * 60000000

/-- A call for a new technical question: a probe, a next seed or a next
    competency. -/
def RunInterviewer.isQuestion (c : RunInterviewer) : Bool :=
  c.competencyNodeId.isSome && c.move ≠ .askSeed && !c.retry

/-- What an event past the limit does to the technical phase, if it is not an
    answer that is waited for. -/
inductive LimitStep (cfg : OrchestratorConfig) (t : Taken SessionState Event Command) : Prop
  | jumps (now : Instant) (hevent : t.event = .timerTick now)
      (hpresent : candidateTimedOut t.before now cfg = .ok false) (hafter : t.after.phase = .qa)
      (hout : ∃ c : RunInterviewer, t.out = [.runInterviewer c] ∧
        c.move = .acknowledgeAndTransition ∧ c.competencyNodeId = none)
  | silent (now : Instant) (hevent : t.event = .timerTick now)
      (hsilent : candidateTimedOut t.before now cfg = .ok true)
      (hafter : t.after.phase = .aborted) (hreason : t.after.abortReason = some .candidateTimeout)
  | stopped (reason : AbortReason) (now : Instant) (hevent : t.event = .operatorAbort reason now)
      (hafter : t.after.phase = .aborted) (hreason : t.after.abortReason = some reason)
  | fails (turnId : Uuid) (errorKind : String) (now : Instant)
      (hevent : t.event = .interviewerFailed turnId errorKind now)
      (hstreak : 1 ≤ t.before.interviewerFailureStreak) (hafter : t.after.phase = .aborted)
      (hreason : t.after.abortReason = some .fatalAgentError)
  | stays (htick : ∀ now, t.event ≠ .timerTick now)
      (hstop : ∀ reason now, t.event ≠ .operatorAbort reason now)
      (hafter : t.after.phase = .tech) (hposition : t.after.tech.position = t.before.tech.position)

section Ticks
variable {cfg : OrchestratorConfig} {s : SessionState} {now : Instant} {r : TransitionResult}

/-- Past the limit, a bound that fits the clock has been reached. -/
theorem sessionBudgetExhausted_of_pastLimit (h : PastLimit s now) :
    sessionBudgetExhausted s now = .ok true ∨
      sessionBudgetExhausted s now = .error .overflowError := by
  obtain ⟨plan, startedAt, hplan, hstarted, hpast⟩ := h
  unfold sessionBudgetExhausted
  rw [hplan, hstarted]
  dsimp only
  unfold timedeltaMinutes
  by_cases hfits : plan.sessionMaxMinutes / 1440 ≤ 999999999
  · left
    rw [if_pos hfits]
    simp only [bind, Except.bind, hpast, decide_true]
  · right
    rw [if_neg hfits]
    rfl

/-- A tick past the limit ends the technical phase: for silence before anything
    else, and otherwise for the limit. -/
theorem onTimerTick_of_pastLimit (hphase : s.phase = .tech) (hpast : PastLimit s now)
    (h : onTimerTick s now cfg = .ok r) :
    (candidateTimedOut s now cfg = .ok true ∧ r = abort s .candidateTimeout .timeout true) ∨
      (candidateTimedOut s now cfg = .ok false ∧ r.newState.phase = .qa ∧
        ∃ c : RunInterviewer, r.commands = [.runInterviewer c] ∧
          c.move = .acknowledgeAndTransition ∧ c.competencyNodeId = none) := by
  obtain ⟨plan, _, hplan, _⟩ := id hpast
  unfold onTimerTick at h
  cases hsilent : candidateTimedOut s now cfg with
  | error x =>
      rw [hsilent] at h
      cases h
  | ok silent =>
      rw [hsilent] at h
      simp only [bind, Except.bind, hphase] at h
      cases silent with
      | true =>
          -- The silence of the candidate is looked at before the budget.
          rw [if_pos rfl, Except.ok.injEq] at h
          exact Or.inl ⟨rfl, h.symm⟩
      | false =>
          rw [if_neg Bool.false_ne_true] at h
          -- Past the limit the budget test cannot answer no.
          rcases sessionBudgetExhausted_of_pastLimit hpast with hover | hover
          · simp only [hover, if_true, enterQa_of_plan hplan, Except.ok.injEq] at h
            rw [← h]
            exact Or.inr ⟨rfl, rfl, _, rfl, rfl, rfl⟩
          · simp only [hover, reduceCtorEq] at h

end Ticks

section Steps
variable [Scalars] {cfg : OrchestratorConfig} {s s' : SessionState} {e : Event}
  {out : List Command}

/-- Only an answer that TECH waits for issues a new technical question. -/
theorem awaitsAnswer_of_question (hedge : Edge cfg s e s' out) {c : RunInterviewer}
    (hmem : .runInterviewer c ∈ out) (hquestion : c.isQuestion = true) :
    awaitsAnswer s e = true := by
  have hwaits : ∀ {turnId : Uuid} {text : String} {now : Instant}, s.phase = .tech →
      s.awaiting = some .candidate →
      awaitsAnswer s (.candidateTurnReceived turnId text now) = true := by
    intro turnId text now hphase hawaiting
    simp only [awaitsAnswer, hphase, hawaiting, Event.isCandidateTurn, decide_true, Bool.and_self]
  cases hedge with
  | probed turnId text now a hphase hawaiting hclarify hprobes => exact hwaits hphase hawaiting
  | seeded turnId text now a seed hphase hawaiting hanswered hseed => exact hwaits hphase hawaiting
  | advanced turnId text now a following hphase hawaiting hleaves hnext =>
      exact hwaits hphase hawaiting
  | finished turnId text now a hphase hawaiting hleaves hlast => exact hwaits hphase hawaiting
  | entered turnId text now plan hphase hplan =>
      -- The first seed is no question after another.
      simp only [List.mem_cons, Command.runInterviewer.injEq, reduceCtorEq, List.not_mem_nil,
        or_false] at hmem
      rw [hmem, RunInterviewer.isQuestion] at hquestion
      exact absurd hquestion (by simp only [interviewerCommand, ne_eq, not_true_eq_false,
        decide_false, Bool.and_false, Bool.false_and, Bool.false_eq_true, not_false_eq_true])
  | cutShort now plan hphase hplan hover =>
      rw [List.mem_singleton, Command.runInterviewer.injEq] at hmem
      rw [hmem] at hquestion
      exact absurd hquestion Bool.false_ne_true
  | asked turnId text now plan hphase hplan =>
      rw [List.mem_singleton, Command.runInterviewer.injEq] at hmem
      rw [hmem] at hquestion
      exact absurd hquestion Bool.false_ne_true
  | retried turnId errorKind now pending hphase hawaiting hpending hid hstreak =>
      simp only [List.mem_cons, Command.runInterviewer.injEq, reduceCtorEq, List.not_mem_nil,
        or_false] at hmem
      rw [hmem, RunInterviewer.isQuestion] at hquestion
      simp only [Bool.not_true, Bool.and_false, Bool.false_eq_true] at hquestion
  | aborted e reason decision persist hlive hturn =>
      cases persist <;>
        simp only [abort, if_true, Bool.false_eq_true, if_false, List.mem_cons, reduceCtorEq,
          List.not_mem_nil, or_self] at hmem
  | reconnected now hlive =>
      unfold onReconnected at hmem
      cases hp : s.pendingCommand with
      | none => simp only [hp, List.mem_singleton, reduceCtorEq] at hmem
      | some pending =>
          simp only [hp, List.mem_cons, reduceCtorEq, List.not_mem_nil, or_self] at hmem
  | ignored | opened | closed | completed | delivered | assessed | assessmentFailed =>
      simp only [List.mem_cons, reduceCtorEq, List.not_mem_nil, or_self] at hmem

/-- Only a tick, an awaited answer and an abort leave the technical phase. -/
theorem phase_of_edge (hedge : Edge cfg s e s' out) (hphase : s.phase = .tech)
    (hawaits : awaitsAnswer s e = false) (htick : ∀ now, e ≠ .timerTick now)
    (hlive : s'.phase ≠ .aborted) : s'.phase = .tech := by
  -- No edge of an awaited answer is open.
  have hwaits : ∀ {turnId : Uuid} {text : String} {now : Instant}, s.awaiting = some .candidate →
      e = .candidateTurnReceived turnId text now → False := by
    rintro turnId text now hawaiting rfl
    rw [awaitsAnswer, hphase, hawaiting] at hawaits
    cases hawaits
  -- No edge of another phase is open.
  have helse : ∀ {p : Phase}, s.phase = p → p ≠ .tech → False := by
    rintro p hp hne
    exact hne (hp.symm.trans hphase)
  cases hedge with
  | opened now plan hp hplan => exact (helse hp (by decide)).elim
  | entered turnId text now plan hp hplan => exact (helse hp (by decide)).elim
  | finished turnId text now a hp hawaiting hleaves hlast => exact (hwaits hawaiting rfl).elim
  | cutShort now plan hp hplan hover => exact absurd rfl (htick now)
  | asked turnId text now plan hp hplan => exact (helse hp (by decide)).elim
  | closed e activity hp => exact (helse hp (by decide)).elim
  | completed e hp => exact (helse hp (by decide)).elim
  | aborted e reason decision persist hsame hturn => exact absurd rfl hlive
  | assessed forTurnId output now hsame hpending =>
      rw [onAssessmentCompleted, if_neg (not_not.mpr hpending)]
      exact hphase
  | assessmentFailed forTurnId errorKind now hsame hpending =>
      rw [onAssessmentFailed, if_neg (not_not.mpr hpending)]
      exact hphase
  | ignored | probed | seeded | advanced | delivered | retried | reconnected => exact hphase

/-- Past the limit, whatever TECH does not wait for obeys the law. -/
theorem limitStep_of_step (hstep : step cfg s e = .ok (s', out)) (hphase : s.phase = .tech)
    (hpast : PastLimit s e.now) (hawaits : awaitsAnswer s e = false) :
    LimitStep cfg ⟨s, e, s', out⟩ := by
  have htransition := (step_eq_ok_iff cfg s s' e out).mp hstep
  have hlive : live s := by
    rw [live, hphase]
    decide
  by_cases htick : ∃ now, e = .timerTick now
  · obtain ⟨now, rfl⟩ := htick
    have htaken : onTimerTick s now cfg = .ok ⟨s', out⟩ := by
      rw [← htransition, transition, if_neg hlive]
    -- The tick is the one event that reads the session clock.
    rcases onTimerTick_of_pastLimit hphase hpast htaken with
      ⟨hsilent, hr⟩ | ⟨hpresent, hafter, hout⟩
    · have hs' : s' = (abort s .candidateTimeout .timeout true).newState := by rw [← hr]
      exact LimitStep.silent now rfl hsilent (by rw [hs']; rfl) (by rw [hs']; rfl)
    · exact LimitStep.jumps now rfl hpresent hafter hout
  rw [not_exists] at htick
  by_cases hdead : s'.phase = .aborted
  · -- A session in TECH is aborted by an operator or by its interviewer.
    have hby := abortedBy_of_transition htransition hlive hdead
    generalize hr : (⟨s', out⟩ : TransitionResult) = r at hby
    cases hby with
    | plan now =>
        rw [transition, if_neg hlive, if_neg (by rw [hphase]; decide), Except.ok.injEq]
          at htransition
        have hs' : s = s' := congrArg TransitionResult.newState htransition
        rw [← hs', hphase] at hdead
        cases hdead
    | silence now => exact absurd rfl (htick now)
    | operator reason now =>
        have hs' : s' = (abort s reason .operator true).newState := by rw [← hr]
        exact LimitStep.stopped reason now rfl (by rw [hs']; rfl) (by rw [hs']; rfl)
    | agent turnId errorKind now hstreak =>
        have hs' : s' = (abort s .fatalAgentError .agentFailure true).newState := by rw [← hr]
        exact LimitStep.fails turnId errorKind now rfl hstreak (by rw [hs']; rfl) (by rw [hs']; rfl)
  · have hedge := edge_of_step hstep
    have hposition := (kept_of_edge hedge hawaits
      (fun hintro => absurd (hphase.symm.trans hintro) (by decide))).1
    -- An operator would have aborted the session.
    refine LimitStep.stays htick ?_ (phase_of_edge hedge hphase hawaits htick hdead) hposition
    rintro reason now rfl
    rw [transition, if_neg hlive, Except.ok.injEq] at htransition
    have hs' : (abort s reason .operator true).newState = s' :=
      congrArg TransitionResult.newState htransition
    exact hdead (by rw [← hs']; rfl)

end Steps

/-- In every run only an answer that TECH waits for issues a new technical
    question. An event past the limit that is no such answer takes TECH to Q&A if
    it is a tick and the candidate is present, aborts it if the tick finds the
    candidate silent, if it is an operator's abort or a second failure of the
    call in flight, and leaves the phase and the position in the plan otherwise. -/
theorem session_limit_ticks [Scalars] (cfg : OrchestratorConfig) (sessionId : Uuid)
    (planInput : Dict String Json) (ts : List (Taken SessionState Event Command))
    (s : SessionState) (h : SessionRun cfg sessionId planInput ts s) :
    ∀ t ∈ ts, (∀ c, .runInterviewer c ∈ t.out → c.isQuestion = true →
        awaitsAnswer t.before t.event = true) ∧
      (t.before.phase = .tech → PastLimit t.before t.event.now →
        awaitsAnswer t.before t.event = false → LimitStep cfg t) := by
  intro t ht
  obtain ⟨us, _, _, hstep⟩ := h.of_mem t ht
  refine ⟨fun c hc hquestion => ?_, fun hphase hpast hawaits => ?_⟩
  · exact awaitsAnswer_of_question (edge_of_step hstep) hc hquestion
  · exact limitStep_of_step hstep hphase hpast hawaits

/-- The limit as it would be honoured on every event: past it no question is
    issued, and TECH is left for Q&A. -/
def HonoursLimit (t : Taken SessionState Event Command) : Prop :=
  PastLimit t.before t.event.now →
    (∀ c, .runInterviewer c ∈ t.out → c.isQuestion = false) ∧
      (t.before.phase = .tech → t.after.phase = .qa)

section SmallInterview

theorem pastLimit_of_eight {s : SessionState} {now : Instant}
    (hplan : s.plan.map PlanSnapshot.sessionMaxMinutes = some 8)
    (hstarted : s.sessionStartedAt = some 0) (hnow : 480000000 ≤ now) : PastLimit s now := by
  obtain ⟨plan, hp, hmax⟩ := Option.map_eq_some_iff.mp hplan
  refine ⟨plan, 0, hp, hstarted, ?_⟩
  rw [hmax, sub_zero]
  exact hnow

/-- The small interview with its first seed asked. -/
def firstSeedAsked : List Event :=
  [.sessionStarted 0, .candidateTurnReceived ⟨100⟩ "ready" 1000000,
    .interviewerReplyReady (smallTurn 1) ⟨"Joins?", .askSeed⟩ 2000000]

/-- An answer at the very end of its eight minutes. -/
def lateAnswer : Event := .candidateTurnReceived ⟨101⟩ "late" 480000000

/-- At the end of its eight minutes an answer takes the small interview on to
    its second competency, and an operator's abort does not take it to Q&A. -/
theorem session_limit_passed : ∃ ts s, SmallRun ts s ∧
    (ts.map (fun t => t.event.now)).Pairwise (· ≤ ·) ∧
    (∀ t ∈ ts, t.event.now ≤ lateAnswer.now) ∧
    (∃ s' out, SmallRun (ts ++ [⟨s, lateAnswer, s', out⟩]) s' ∧
      ¬ HonoursLimit ⟨s, lateAnswer, s', out⟩ ∧
      ∃ c, .runInterviewer c ∈ out ∧ c.isQuestion = true) ∧
    ∃ s' out, SmallRun (ts ++ [⟨s, .operatorAbort .operatorAbort 480000000, s', out⟩]) s' ∧
      ¬ HonoursLimit ⟨s, .operatorAbort .operatorAbort 480000000, s', out⟩ ∧
      s'.phase = .aborted := by
  have hrec : (smallRecord firstSeedAsked).map (fun r =>
      (r.1.map (fun t => t.event.now), decide (r.2.phase = .tech ∧
          r.2.plan.map PlanSnapshot.sessionMaxMinutes = some 8 ∧ r.2.sessionStartedAt = some 0),
        (@step Scalars.strict OrchestratorConfig.committed r.2 lateAnswer).toOption.map (fun q =>
          (q.2.filterMap Command.interviewer?).any RunInterviewer.isQuestion)))
      = .ok ([0, 1000000, 2000000], true, some true) := by decide +kernel
  obtain ⟨ts, s, hrun, hproj⟩ := exists_run_of_record _ _ _ _ _ hrec
  simp only [Prod.mk.injEq, decide_eq_true_eq] at hproj
  obtain ⟨htimes, ⟨hphase, hplan, hstarted⟩, hlate⟩ := hproj
  have hpast : PastLimit s 480000000 := pastLimit_of_eight hplan hstarted (le_refl _)
  refine ⟨ts, s, hrun, ?_, ?_, ?_, ?_⟩
  · rw [htimes]
    decide
  · intro t ht
    have hmem := List.mem_map_of_mem (f := fun t => t.event.now) ht
    rw [htimes] at hmem
    -- The answer is the latest event of the run.
    have hall : ∀ now ∈ ([0, 1000000, 2000000] : List Instant), now ≤ lateAnswer.now := by decide
    exact hall _ hmem
  · cases hstep : @step Scalars.strict OrchestratorConfig.committed s lateAnswer with
    | error x =>
        rw [hstep] at hlate
        cases hlate
    | ok q =>
        obtain ⟨s', out⟩ := q
        rw [hstep] at hlate
        simp only [Except.toOption, Option.map_some, Option.some.injEq, List.any_eq_true] at hlate
        obtain ⟨c, hc, hquestion⟩ := hlate
        have hmem : Command.runInterviewer c ∈ out := by
          obtain ⟨command, hcommand, hcall⟩ := List.mem_filterMap.mp hc
          cases command with
          | runInterviewer c' =>
              rw [← Option.some.inj hcall]
              exact hcommand
          | _ => cases hcall
        refine ⟨s', out, Run.snoc ts s s' _ out hrun hstep, fun hhonours => ?_, c, hmem, hquestion⟩
        -- The call it makes asks a question.
        rw [(hhonours hpast).1 c hmem] at hquestion
        cases hquestion
  · have hstep : @step Scalars.strict OrchestratorConfig.committed s
        (.operatorAbort .operatorAbort 480000000)
        = .ok ((abort s .operatorAbort .operator true).newState,
          (abort s .operatorAbort .operator true).commands) := by
      refine (@step_eq_ok_iff Scalars.strict _ _ _ _ _).mpr ?_
      unfold transition
      rw [if_neg (by rw [hphase]; decide)]
    refine ⟨_, _, Run.snoc ts s _ _ _ hrun hstep, fun hhonours => ?_, rfl⟩
    -- Aborted is not QA.
    cases (hhonours hpast).2 hphase

/-- At the end of its eight minutes a tick takes the small interview to Q&A. -/
theorem session_limit_ticks_small : ∃ ts s, SmallRun ts s ∧ ∃ t ∈ ts,
    t.event.now = 480000000 ∧ PastLimit t.before t.event.now ∧
    LimitStep OrchestratorConfig.committed t ∧ s.phase = .qa := by
  have hrec : (smallRecord (firstSeedAsked ++ [.timerTick 480000000])).map (fun r =>
      (r.2.phase, r.1.getLast?.map (fun t => decide (t.event.now = 480000000 ∧
        t.before.phase = .tech ∧ t.before.plan.map PlanSnapshot.sessionMaxMinutes = some 8 ∧
        t.before.sessionStartedAt = some 0 ∧ awaitsAnswer t.before t.event = false))))
      = .ok (.qa, some true) := by decide +kernel
  obtain ⟨ts, s, hrun, hproj⟩ := exists_run_of_record _ _ _ _ _ hrec
  rw [Prod.mk.injEq, Option.map_eq_some_iff] at hproj
  obtain ⟨hqa, t, hlast, hlook⟩ := hproj
  obtain ⟨hnow, hphase, hplan, hstarted, hawaits⟩ := of_decide_eq_true hlook
  have hpast : PastLimit t.before t.event.now := by
    rw [hnow]
    exact pastLimit_of_eight hplan hstarted (le_refl _)
  have ht : t ∈ ts := List.mem_of_getLast? hlast
  exact ⟨ts, s, hrun, t, ht, hnow, hpast,
    (@session_limit_ticks Scalars.strict _ _ _ ts s hrun t ht).2 hphase hpast hawaits, hqa⟩

end SmallInterview

end TechScreen
