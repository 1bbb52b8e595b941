import TechScreen.Orchestrator.Invariant

/-!
# Phase Progress

A session moves through its phases in one direction, one phase at a time, or
aborts. A phase that ends a session is entered once, and the step that enters
it is the one that records the session's decision.

The count of decisions over a run is a fact about its current phase: it is one
in a terminal phase and zero elsewhere. A step out of a terminal phase emits
nothing, so the count cannot move again.

## Main definitions

* `Phase.next`: The phase after a phase.
* `PhaseStep`: The moves a phase can make.
* `decisions`, `endings`: How many of either command were emitted.
* `PhaseLaw`: What one step does to the phase and what it records.
* `AbortedBy`: The four ways into `ABORTED`.

## Theorems

* `step_of_terminal`: A terminal session is a sink.
* `phaseLaw_of_edge`: Every edge obeys the law.
* `SessionRun.decisions`, `SessionRun.endings`: The counts over a run.
* `abortedBy_of_transition`: Every abort is one of the four.
* `fatal_of_agentFailure`: What an agent's failure leaves behind.
* `phase_progress`: The law over a whole run.
-/

namespace TechScreen

open Lib

/-- The phase after a phase, on the way to `COMPLETED`. -/
def Phase.next : Phase → Option Phase
  | .created => some .intro
  | .intro => some .tech
  | .tech => some .qa
  | .qa => some .close
  | .close => some .completed
  | .completed => none
  | .aborted => none

/-- A phase stays, advances by one position, or aborts while it is live. -/
def PhaseStep (p q : Phase) : Prop :=
  q = p ∨ p.next = some q ∨ (p ∉ terminalPhases ∧ q = .aborted)

def Command.isDecision : Command → Bool
  | .recordDecision _ => true
  | _ => false

def Command.isEnd : Command → Bool
  | .endSession => true
  | _ => false

/-- The decisions among some commands. -/
def decisions (out : List Command) : Nat := out.countP Command.isDecision

/-- The session endings among some commands. -/
def endings (out : List Command) : Nat := out.countP Command.isEnd

theorem decisions_append (a b : List Command) : decisions (a ++ b) = decisions a + decisions b :=
  List.countP_append

theorem endings_append (a b : List Command) : endings (a ++ b) = endings a + endings b :=
  List.countP_append

/-- What one step does to the phase, and what it records about it. -/
structure PhaseLaw (s s' : SessionState) (out : List Command) : Prop where
  phase : PhaseStep s.phase s'.phase
  decided : decisions out = if live s ∧ ¬ live s' then 1 else 0
  ended : endings out = if s.phase ≠ .completed ∧ s'.phase = .completed then 1 else 0

/-- A step inside a phase records nothing. -/
theorem PhaseLaw.within {s s' : SessionState} {out : List Command} (hphase : s'.phase = s.phase)
    (hdecided : decisions out = 0) (hended : endings out = 0) : PhaseLaw s s' out where
  phase := Or.inl hphase
  decided := by
    rw [hdecided, if_neg]
    rintro ⟨hl, hn⟩
    exact hn (by rw [live, hphase]; exact hl)
  ended := by
    rw [hended, if_neg]
    rintro ⟨hne, hc⟩
    exact hne (hphase ▸ hc)

/-- A step into the next live phase records nothing either. -/
theorem PhaseLaw.advance {s s' : SessionState} {out : List Command}
    (hnext : s.phase.next = some s'.phase) (hlive : live s') (hdecided : decisions out = 0)
    (hended : endings out = 0) : PhaseLaw s s' out where
  phase := Or.inr (Or.inl hnext)
  decided := by
    rw [hdecided, if_neg]
    rintro ⟨_, hn⟩
    exact hn hlive
  ended := by
    rw [hended, if_neg]
    rintro ⟨_, hc⟩
    exact hlive (by rw [hc]; decide)

section Law
variable [Scalars] {cfg : OrchestratorConfig} {s s' : SessionState} {e : Event}
  {out : List Command}

omit [Scalars] in
theorem decisions_gap {now : Instant} (a : Answer s now) : decisions (a.gap cfg) = 0 := by
  unfold Answer.gap
  split
  · rfl
  · rfl

omit [Scalars] in
theorem endings_gap {now : Instant} (a : Answer s now) : endings (a.gap cfg) = 0 := by
  unfold Answer.gap
  split
  · rfl
  · rfl

omit [Scalars] in
/-- An answer that leaves a competency records no decision. -/
theorem decisions_leaving {now : Instant} (a : Answer s now) (assessor : RunAssessor)
    (interviewer : RunInterviewer) :
    decisions (.runAssessor assessor :: .runInterviewer interviewer
      :: (a.gap cfg ++ [.persistState])) = 0 := by
  have hgap : decisions (a.gap cfg) = 0 := decisions_gap a
  change decisions ([.runAssessor assessor, .runInterviewer interviewer]
    ++ (a.gap cfg ++ [.persistState])) = 0
  rw [decisions_append, decisions_append, hgap]
  rfl

omit [Scalars] in
theorem endings_leaving {now : Instant} (a : Answer s now) (assessor : RunAssessor)
    (interviewer : RunInterviewer) :
    endings (.runAssessor assessor :: .runInterviewer interviewer
      :: (a.gap cfg ++ [.persistState])) = 0 := by
  have hgap : endings (a.gap cfg) = 0 := endings_gap a
  change endings ([.runAssessor assessor, .runInterviewer interviewer]
    ++ (a.gap cfg ++ [.persistState])) = 0
  rw [endings_append, endings_append, hgap]
  rfl

/-- Every edge obeys the law of phases. -/
theorem phaseLaw_of_edge (hedge : Edge cfg s e s' out) : PhaseLaw s s' out := by
  cases hedge with
  | ignored e hidle => exact PhaseLaw.within rfl rfl rfl
  | opened now plan hphase hplan =>
      exact PhaseLaw.advance (by rw [hphase]; rfl) (by simp only [live, opened]; decide) rfl rfl
  | entered turnId text now plan hphase hplan =>
      exact PhaseLaw.advance (by rw [hphase]; rfl)
        (by simp only [live, issueInterviewer, entered]; decide) rfl rfl
  | probed turnId text now a hphase hawaiting hclarify hprobes =>
      exact PhaseLaw.within rfl rfl rfl
  | seeded turnId text now a seed hphase hawaiting hanswered hseed =>
      exact PhaseLaw.within rfl rfl rfl
  | advanced turnId text now a following hphase hawaiting hleaves hnext =>
      exact PhaseLaw.within rfl (decisions_leaving a _ _) (endings_leaving a _ _)
  | finished turnId text now a hphase hawaiting hleaves hlast =>
      exact PhaseLaw.advance (by rw [hphase]; rfl)
        (by simp only [live, issueInterviewer, inQa]; decide) (decisions_leaving a _ _)
        (endings_leaving a _ _)
  | cutShort now plan hphase hplan hover =>
      exact PhaseLaw.advance (by rw [hphase]; rfl)
        (by simp only [live, issueInterviewer, inQa]; decide) rfl rfl
  | asked turnId text now plan hphase hplan => exact PhaseLaw.within rfl rfl rfl
  | closed e activity hphase =>
      exact PhaseLaw.advance (by rw [hphase]; rfl)
        (by simp only [live, enterClose]; decide) rfl rfl
  -- The two ends: each decides once, and only the first one ends in COMPLETED.
  | completed e hphase =>
      have hlive : live s := by rw [live, hphase]; decide
      have hdone : ¬ live (complete s).newState := by simp only [live, complete]; decide
      exact
        { phase := Or.inr (Or.inl (by rw [hphase]; rfl))
          decided := by rw [if_pos ⟨hlive, hdone⟩]; rfl
          ended := by rw [hphase, if_pos ⟨by decide, rfl⟩]; rfl }
  | aborted e reason decision persist hlive hturn =>
      have hdone : ¬ live (abort s reason decision persist).newState := by
        simp only [live, abort]; decide
      have hne : ¬ (s.phase ≠ .completed ∧
          (abort s reason decision persist).newState.phase = .completed) := by
        simp only [abort, reduceCtorEq, and_false, not_false_eq_true]
      exact
        { phase := Or.inr (Or.inr ⟨hlive, rfl⟩)
          decided := by
            rw [if_pos ⟨hlive, hdone⟩]
            cases persist with
            | true => rfl
            | false => rfl
          ended := by
            rw [if_neg hne]
            cases persist with
            | true => rfl
            | false => rfl }
  | delivered turnId output now hphase hawaiting hpending => exact PhaseLaw.within rfl rfl rfl
  | retried turnId errorKind now pending hphase hawaiting hpending hid hstreak =>
      exact PhaseLaw.within rfl rfl rfl
  -- Results of assessments leave the phase alone.
  | assessed forTurnId output now hlive hpending =>
      refine PhaseLaw.within ?_ rfl rfl
      rw [onAssessmentCompleted, if_neg (not_not.mpr hpending)]
  | assessmentFailed forTurnId errorKind now hlive hpending =>
      refine PhaseLaw.within ?_ rfl rfl
      rw [onAssessmentFailed, if_neg (not_not.mpr hpending)]
  | reconnected now hlive =>
      unfold onReconnected
      cases s.pendingCommand with
      | none => exact PhaseLaw.within rfl rfl rfl
      | some c => exact PhaseLaw.within rfl rfl rfl

theorem phaseLaw_of_step (h : step cfg s e = .ok (s', out)) : PhaseLaw s s' out :=
  phaseLaw_of_edge (edge_of_step h)

variable (cfg) in
/-- A terminal session is a sink for every event. -/
theorem step_of_terminal (h : ¬ live s) (e : Event) : step cfg s e = .ok (s, []) := by
  rw [step_eq_ok_iff]
  unfold transition
  rw [if_pos (not_not.mp h)]
  rfl

end Law

section Runs
variable [Scalars] {cfg : OrchestratorConfig} {sessionId : Uuid} {planInput : Dict String Json}
  {ts : List (Taken SessionState Event Command)} {s : SessionState}

/-- One decision once the session is terminal, and none before. -/
theorem SessionRun.decisions (h : SessionRun cfg sessionId planInput ts s) :
    TechScreen.decisions (outputs ts) = if live s then 0 else 1 := by
  induction h with
  | nil =>
      have hlive : live (initialState sessionId planInput cfg) := by
        simp only [live, initialState]; decide
      rw [if_pos hlive]
      rfl
  | snoc ts a b e out _ hab ih =>
      rw [outputs_snoc, decisions_append, ih, (phaseLaw_of_step hab).decided]
      by_cases ha : live a
      · by_cases hb : live b
        · rw [if_pos ha, if_pos hb, if_neg (fun hc => hc.2 hb)]
        · rw [if_pos ha, if_neg hb, if_pos ⟨ha, hb⟩]
      · have hstep := step_of_terminal cfg ha e
        rw [hab, Except.ok.injEq, Prod.mk.injEq] at hstep
        rw [hstep.1, if_neg ha, if_neg (fun hc => ha hc.1)]

/-- One ending once the session is completed, and none otherwise. -/
theorem SessionRun.endings (h : SessionRun cfg sessionId planInput ts s) :
    TechScreen.endings (outputs ts) = if s.phase = .completed then 1 else 0 := by
  induction h with
  | nil =>
      have hcreated : (initialState sessionId planInput cfg).phase ≠ .completed := by
        simp only [initialState]; decide
      rw [if_neg hcreated]
      rfl
  | snoc ts a b e out _ hab ih =>
      rw [outputs_snoc, endings_append, ih, (phaseLaw_of_step hab).ended]
      by_cases ha : a.phase = .completed
      · have hdone : ¬ live a := by rw [live, ha]; decide
        have hstep := step_of_terminal cfg hdone e
        rw [hab, Except.ok.injEq, Prod.mk.injEq] at hstep
        rw [hstep.1, if_pos ha, if_neg (fun hc => hc.1 ha)]
      · by_cases hb : b.phase = .completed
        · rw [if_neg ha, if_pos hb, if_pos ⟨ha, hb⟩]
        · rw [if_neg ha, if_neg hb, if_neg (fun hc => hb hc.2)]

end Runs

section Aborts
variable [Scalars] {cfg : OrchestratorConfig} {s : SessionState} {e : Event}
  {r : TransitionResult}

/-- The four ways into `ABORTED`, with the reason and the decision of each. -/
inductive AbortedBy (s : SessionState) : Event → TransitionResult → Prop
  | plan (now : Instant) :
      AbortedBy s (.sessionStarted now) (abort s .operatorAbort .planInvalid false)
  | silence (now : Instant) : AbortedBy s (.timerTick now) (abort s .candidateTimeout .timeout true)
  | operator (reason : AbortReason) (now : Instant) :
      AbortedBy s (.operatorAbort reason now) (abort s reason .operator true)
  | agent (turnId : Uuid) (errorKind : String) (now : Instant)
      (hstreak : 1 ≤ s.interviewerFailureStreak) :
      AbortedBy s (.interviewerFailed turnId errorKind now)
        (abort s .fatalAgentError .agentFailure true)

/-- No candidate turn aborts a session. -/
theorem not_candidateTurn_of_aborted {s' : SessionState} {out : List Command}
    (hedge : Edge cfg s e s' out) (hlive : s.phase ≠ .aborted) (hdead : s'.phase = .aborted) :
    e.isCandidateTurn = false := by
  cases hedge with
  | ignored e hidle => exact absurd hdead hlive
  | aborted e reason decision persist hlive hturn => exact hturn
  | opened now plan hphase hplan => rfl
  | cutShort now plan hphase hplan hover => rfl
  | delivered turnId output now hphase hawaiting hpending => rfl
  | retried turnId errorKind now pending hphase hawaiting hpending hid hstreak => rfl
  | assessed forTurnId output now hlive' hpending => rfl
  | assessmentFailed forTurnId errorKind now hlive' hpending => rfl
  | reconnected now hlive' => rfl
  | probed turnId text now a hphase hawaiting hclarify hprobes => exact absurd hdead hlive
  | seeded turnId text now a seed hphase hawaiting hanswered hseed => exact absurd hdead hlive
  | advanced turnId text now a following hphase hawaiting hleaves hnext => exact absurd hdead hlive
  | asked turnId text now plan hphase hplan => exact absurd hdead hlive
  | _ => exact Phase.noConfusion hdead

omit [Scalars] in
/-- A tick aborts for silence only. -/
theorem abortedBy_of_onTimerTick {now : Instant} (hlive : s.phase ≠ .aborted)
    (h : onTimerTick s now cfg = .ok r) (hdead : r.newState.phase = .aborted) :
    AbortedBy s (.timerTick now) r := by
  unfold onTimerTick at h
  cases ht : candidateTimedOut s now cfg with
  | error x => rw [ht] at h; simp only [bind, Except.bind, reduceCtorEq] at h
  | ok timedOut =>
  rw [ht] at h
  simp only [bind, Except.bind] at h
  cases timedOut with
  | true =>
      rw [if_pos rfl, Except.ok.injEq] at h
      rw [← h]
      exact AbortedBy.silence now
  | false =>
  -- Whatever else a tick does, it stays or goes on to the next phase.
  rw [if_neg Bool.false_ne_true] at h
  refine absurd hdead ?_
  cases hphase : s.phase with
  | tech =>
      rw [hphase] at h
      cases hb : sessionBudgetExhausted s now with
      | error x => simp only [hb, reduceCtorEq] at h
      | ok exhausted =>
          cases exhausted with
          | false =>
              simp only [hb, Bool.false_eq_true, if_false, Except.ok.injEq] at h
              rw [← h]
              exact hlive
          | true =>
              cases hp : s.plan with
              | none =>
                  simp only [hb, enterQa, requirePlan, hp, bind, Except.bind, if_true,
                    reduceCtorEq] at h
              | some plan =>
                  simp only [hb, enterQa_of_plan hp, if_true, Except.ok.injEq] at h
                  rw [← h]
                  exact Phase.noConfusion
  | qa =>
      rw [hphase] at h
      cases hb : sessionBudgetExhausted s now with
      | error x => simp only [hb, reduceCtorEq] at h
      | ok exhausted =>
      cases hq : qaBudgetExhausted s now with
      | error x =>
          cases exhausted with
          | true =>
              simp only [hb, if_true, Except.ok.injEq] at h
              rw [← h]
              exact Phase.noConfusion
          | false => simp only [hb, hq, Bool.false_eq_true, if_false, reduceCtorEq] at h
      | ok qaExhausted =>
          simp only [hb, hq] at h
          split at h
          · rw [Except.ok.injEq] at h
            rw [← h]
            exact Phase.noConfusion
          · split at h
            · rw [Except.ok.injEq] at h
              rw [← h]
              exact Phase.noConfusion
            · rw [Except.ok.injEq] at h
              rw [← h]
              exact hlive
  | close =>
      rw [hphase, Except.ok.injEq] at h
      rw [← h]
      exact Phase.noConfusion
  | created | intro | completed | aborted =>
      rw [hphase, Except.ok.injEq] at h
      rw [← h]
      exact hlive

/-- Every transition of a live session into `ABORTED` is one of the four. -/
theorem abortedBy_of_transition (h : transition s e cfg = .ok r) (hlive : live s)
    (hdead : r.newState.phase = .aborted) : AbortedBy s e r := by
  have hphase : s.phase ≠ .aborted := fun hc => hlive (by rw [hc]; decide)
  have hedge := edge_of_transition h
  unfold transition at h
  rw [if_neg hlive] at h
  cases e with
  | timerTick now => exact abortedBy_of_onTimerTick hphase h hdead
  | operatorAbort reason now =>
      rw [Except.ok.injEq] at h
      rw [← h]
      exact AbortedBy.operator reason now
  | sessionStarted now =>
      simp only at h
      split at h
      · rw [Except.ok.injEq] at h
        unfold onSessionStarted at h
        split at h
        · rw [← h]
          exact AbortedBy.plan now
        · rw [← h] at hdead
          exact Phase.noConfusion hdead
      · rw [Except.ok.injEq] at h
        rw [← h] at hdead
        exact absurd hdead hphase
  | interviewerFailed turnId errorKind now =>
      simp only at h
      split at h
      · rw [Except.ok.injEq] at h
        rw [← h] at hdead
        exact absurd hdead hphase
      · rw [Except.ok.injEq] at h
        unfold onInterviewerFailed at h
        split at h
        · rw [← h] at hdead
          exact absurd hdead hphase
        · split at h
          · rw [← h] at hdead
            exact absurd hdead hphase
          · split at h
            · split at h
              · next hstreak =>
                  rw [← h]
                  exact AbortedBy.agent turnId errorKind now hstreak
              · rw [← h] at hdead
                exact absurd hdead hphase
            · rw [← h] at hdead
              exact absurd hdead hphase
  | candidateTurnReceived turnId text now =>
      exact absurd (not_candidateTurn_of_aborted hedge hphase hdead)
        (by simp [Event.isCandidateTurn])
  | interviewerReplyReady turnId output now =>
      -- A reply leaves the phase as it is, or completes the session.
      refine absurd hdead ?_
      simp only at h
      split at h
      · rw [Except.ok.injEq] at h
        rw [← h]
        exact hphase
      · rw [Except.ok.injEq] at h
        unfold onInterviewerReply at h
        split at h
        · rw [← h]
          exact hphase
        · split at h
          · rw [← h]
            exact Phase.noConfusion
          · split at h <;> rw [← h] <;> exact hphase
  | assessmentCompleted forTurnId output now =>
      refine absurd hdead ?_
      rw [Except.ok.injEq] at h
      unfold onAssessmentCompleted at h
      split at h <;> rw [← h] <;> exact hphase
  | assessmentFailed forTurnId errorKind now =>
      refine absurd hdead ?_
      rw [Except.ok.injEq] at h
      unfold onAssessmentFailed at h
      split at h <;> rw [← h] <;> exact hphase
  | reconnected now =>
      refine absurd hdead ?_
      rw [Except.ok.injEq] at h
      unfold onReconnected at h
      split at h <;> rw [← h] <;> exact hphase

/-- A decision is recorded for an abort, or for the end of the interview. -/
theorem aborted_or_completed_of_decision {s' : SessionState} {out : List Command}
    {c : RecordDecision} (hedge : Edge cfg s e s' out) (hc : .recordDecision c ∈ out) :
    s'.phase = .aborted ∨ c.reason = .completed := by
  have hgap : ∀ {now} (a : Answer s now), Command.recordDecision c ∉ a.gap cfg := by
    intro now a hmem
    rw [Answer.gap] at hmem
    split at hmem
    · exact Command.noConfusion (List.mem_singleton.mp hmem)
    · exact absurd hmem List.not_mem_nil
  cases hedge with
  | completed e hphase =>
      simp only [List.mem_cons, Command.recordDecision.injEq, List.not_mem_nil, or_false,
        reduceCtorEq, false_or] at hc
      exact Or.inr (by rw [hc])
  | aborted e reason decision persist hlive hturn => exact Or.inl rfl
  | advanced turnId text now a following hphase hawaiting hleaves hnext =>
      simp only [List.mem_cons, List.mem_append, reduceCtorEq, List.not_mem_nil, or_false,
        false_or] at hc
      exact absurd hc (hgap a)
  | finished turnId text now a hphase hawaiting hleaves hlast =>
      simp only [List.mem_cons, List.mem_append, reduceCtorEq, List.not_mem_nil, or_false,
        false_or] at hc
      exact absurd hc (hgap a)
  | reconnected now hlive =>
      unfold onReconnected at hc
      cases hp : s.pendingCommand with
      | none => simp [hp] at hc
      | some p => simp [hp] at hc
  | _ => simp at hc

/-- The session is aborted as an agent's failure when that is the decision. -/
theorem fatal_of_agentFailure {sessionId : Uuid} {planInput : Dict String Json}
    {ts : List (Taken SessionState Event Command)} (h : SessionRun cfg sessionId planInput ts s)
    (hc : .recordDecision ⟨.agentFailure⟩ ∈ outputs ts) :
    ¬ live s ∧ s.abortReason = some .fatalAgentError := by
  induction h with
  | nil => exact absurd hc List.not_mem_nil
  | snoc ts a b e out _ hab ih =>
      rw [outputs_snoc, List.mem_append] at hc
      rcases hc with hold | hnew
      · -- The session is over, and stays as it is.
        rcases ih hold with ⟨hdead, hfatal⟩
        have hsame := step_of_terminal cfg hdead e
        rw [hab, Except.ok.injEq, Prod.mk.injEq] at hsame
        rw [hsame.1]
        exact ⟨hdead, hfatal⟩
      · have hlive : live a := by
          by_contra hdead
          have hsame := step_of_terminal cfg hdead e
          rw [hab, Except.ok.injEq, Prod.mk.injEq] at hsame
          rw [hsame.2] at hnew
          exact absurd hnew List.not_mem_nil
        have htaken := (step_eq_ok_iff cfg a b e out).mp hab
        rcases aborted_or_completed_of_decision (edge_of_transition htaken) hnew with hdead | hdone
        · have hcause := abortedBy_of_transition htaken hlive hdead
          refine ⟨fun hb => hb (by rw [hdead]; decide), ?_⟩
          generalize hr : (⟨b, out⟩ : TransitionResult) = r at hcause
          cases hcause with
          | agent turnId errorKind now hstreak =>
              exact congrArg (fun r => r.newState.abortReason) hr
          | _ =>
              have hout : out = _ := congrArg TransitionResult.commands hr
              rw [hout] at hnew
              simp [abort] at hnew
        · exact absurd hdone (by decide)

end Aborts

/-- Over a whole session, every step stays, advances by one phase or aborts; a
    terminal state is left unchanged and emits nothing; and the one decision of
    the session, together with its ending where it completed, is emitted by the
    step that enters the terminal phase. -/
theorem phase_progress [Scalars] (cfg : OrchestratorConfig) (sessionId : Uuid)
    (planInput : Dict String Json) (ts : List (Taken SessionState Event Command))
    (s : SessionState) (h : SessionRun cfg sessionId planInput ts s) :
    (∀ t ∈ ts, PhaseStep t.before.phase t.after.phase) ∧
    (∀ t ∈ ts, t.before.phase ∈ terminalPhases → t.after = t.before ∧ t.out = []) ∧
    (s.phase ∈ terminalPhases → ∀ e, transition s e cfg = .ok ⟨s, []⟩) ∧
    decisions (outputs ts) = (if s.phase ∈ terminalPhases then 1 else 0) ∧
    (∀ t ∈ ts, decisions t.out =
      if t.before.phase ∉ terminalPhases ∧ t.after.phase ∈ terminalPhases then 1 else 0) ∧
    endings (outputs ts) = (if s.phase = .completed then 1 else 0) := by
  refine ⟨fun t ht => ?_, fun t ht hterm => ?_, fun hterm e => ?_, ?_, fun t ht => ?_, h.endings⟩
  · rcases h.of_mem t ht with ⟨_, _, _, hstep⟩
    exact (phaseLaw_of_step hstep).phase
  · rcases h.of_mem t ht with ⟨_, _, _, hstep⟩
    have hsink := step_of_terminal cfg (not_not.mpr hterm) t.event
    rw [hstep, Except.ok.injEq, Prod.mk.injEq] at hsink
    exact hsink
  · exact (step_eq_ok_iff cfg s s e []).mp (step_of_terminal cfg (not_not.mpr hterm) e)
  · rw [SessionRun.decisions h]
    by_cases hl : live s
    · rw [if_pos hl, if_neg hl]
    · rw [if_neg hl, if_pos (not_not.mp hl)]
  · rcases h.of_mem t ht with ⟨_, _, _, hstep⟩
    have hlaw := (phaseLaw_of_step hstep).decided
    simp only [live, not_not] at hlaw
    exact hlaw

/-- A completed interview, from the small one: nothing more is said, Q&A runs
    out, and the closing is not waited for. -/
theorem phase_progress_small : ∃ ts s, SmallRun ts s ∧ s.phase = .completed ∧
    decisions (outputs ts) = 1 ∧ endings (outputs ts) = 1 := by
  have hrec : (smallRecord
      [.sessionStarted 0, .candidateTurnReceived ⟨100⟩ "ready" 1000000,
        .timerTick 480000000, .candidateTurnReceived ⟨101⟩ "hello?" 481000000,
        .timerTick 482000000, .timerTick 483000000]).map (fun r => r.2.phase)
      = .ok .completed := by decide +kernel
  rcases exists_run_of_record _ _ _ _ _ hrec with ⟨ts, s, hrun, hproj⟩
  have hall := @phase_progress Scalars.strict _ _ _ ts s hrun
  simp only at hproj
  rw [hproj, if_pos (by decide), if_pos rfl] at hall
  exact ⟨ts, s, hrun, hproj, hall.2.2.2.1, hall.2.2.2.2.2⟩

end TechScreen
