import TechScreen.Orchestrator.Delivery
import TechScreen.Orchestrator.LateAssessments
import TechScreen.Orchestrator.Phases
import Mathlib.Data.List.DropRight

/-!
# The Failure Ladder

An interviewer call that fails is made once more, with everything as it was, and
a second failure ends the session. The machine keeps one counter for this and
compares identifiers to tell a failure of the outstanding call from any other.
Between the two failures the call may be preempted by a tick, repeated by a
resume or superseded by a new move, and the second attempt carries the identifier
of the first.

The law is stated on what a run has emitted: which call is outstanding is read
off the commands, and the failures are counted since its move was issued.
`LadderStep` says what a transition does to the ladder, and the counter is then
the number of those failures.

## Main definitions

* `standing`: The outbound command that is outstanding after some commands.
* `failures`: The failures of a turn since the last move was issued.
* `LadderStep`: What a transition does to the ladder.
* `LadderLaw`: What a step of a run may do.

## Theorems

* `transition_of_failure`: A failure of the call in flight.
* `ladderStep_of_step`: Every transition is one of five steps on the ladder.
* `SessionRun.ladder`: The counter is the number of failures.
* `failure_ladder`: The law holds of every step of every run.
-/

namespace TechScreen

open Lib

/-- What a command makes of the outstanding one. -/
def Command.stand (p : Option PendingCommand) : Command → Option PendingCommand
  | .runInterviewer c => some (.runInterviewer c)
  | .deliverUtterance c => some (.deliverUtterance c)
  | .emitScriptedOpening c => some (.emitScriptedOpening c)
  | .emitScriptedClosing c => some (.emitScriptedClosing c)
  | .recordDecision _ => none
  | _ => p

/-- The outbound command that is outstanding after some commands. -/
def standing (out : List Command) : Option PendingCommand := out.foldl Command.stand none

/-- The turn that an event reports a failure of. -/
def Event.failedTurn : Event → Option Uuid
  | .interviewerFailed turnId _ _ => some turnId
  | _ => none

/-- The first attempt at a move. -/
def Command.isFirstCall : Command → Bool
  | .runInterviewer c => !c.retry
  | _ => false

/-- The step issues a move. -/
def issuesMove (t : Taken SessionState Event Command) : Bool := t.out.any Command.isFirstCall

/-- The failures of a turn since the last move was issued. -/
def failures (ts : List (Taken SessionState Event Command)) (turn : Uuid) : Nat :=
  (ts.rtakeWhile (fun t => !issuesMove t)).countP (fun t => t.event.failedTurn = some turn)

/-- The event reports a failure of the outstanding call. -/
def FailsCall (s : SessionState) (e : Event) : Prop :=
  ∃ r, s.pendingCommand = some (.runInterviewer r) ∧ e.failedTurn = some r.turnId

/-- What a transition does to the ladder: a move is issued, or fails for the first
    time, or for the second; or no call is outstanding after it; or nothing. -/
inductive LadderStep (s : SessionState) (e : Event) (s' : SessionState) (out : List Command) : Prop
  | issues (hfirst : out.any Command.isFirstCall = true) (hstreak : s'.interviewerFailureStreak = 0)
      (hundecided : .recordDecision ⟨.agentFailure⟩ ∉ out) (hother : ¬ FailsCall s e)
  | repeats (r : RunInterviewer) (errorKind : String) (now : Instant)
      (hbefore : s.pendingCommand = some (.runInterviewer r))
      (hevent : e = .interviewerFailed r.turnId errorKind now)
      (hstreak : s.interviewerFailureStreak = 0)
      (hout : out = [.runInterviewer { r with retry := true },
        .flagTurnDegraded ⟨r.turnId, errorKind⟩, .persistState])
      (hafter : s'.interviewerFailureStreak = 1)
  | falls (r : RunInterviewer) (errorKind : String) (now : Instant)
      (hbefore : s.pendingCommand = some (.runInterviewer r))
      (hevent : e = .interviewerFailed r.turnId errorKind now)
      (hstreak : 1 ≤ s.interviewerFailureStreak)
      (hout : out = [.recordDecision ⟨.agentFailure⟩, .persistState])
      (hpending : s'.pendingCommand = none)
  | ends (hfirst : out.any Command.isFirstCall = false)
      (hundecided : .recordDecision ⟨.agentFailure⟩ ∉ out) (hother : e.failedTurn = none)
      (hnone : ∀ r, s'.pendingCommand ≠ some (.runInterviewer r))
  | keeps (hfirst : out.any Command.isFirstCall = false)
      (hundecided : .recordDecision ⟨.agentFailure⟩ ∉ out) (hother : ¬ FailsCall s e)
      (hpending : s'.pendingCommand = s.pendingCommand)
      (hstreak : s'.interviewerFailureStreak = s.interviewerFailureStreak)
      (hsame : e.failedTurn.isSome → s' = s ∧ out = [])

section Steps
variable [Scalars] {cfg : OrchestratorConfig} {s s' : SessionState} {e : Event}
  {out : List Command}

/-- The outstanding command of a state is what its commands leave standing. -/
theorem standing_of_edge (hedge : Edge cfg s e s' out) :
    out.foldl Command.stand s.pendingCommand = s'.pendingCommand := by
  cases hedge with
  | advanced turnId text now a following hphase hawaiting hleaves hnext =>
      unfold Answer.gap
      split <;> rfl
  | finished turnId text now a hphase hawaiting hleaves hlast =>
      unfold Answer.gap
      split <;> rfl
  | aborted e reason decision persist hlive hturn => cases persist <;> rfl
  | assessed forTurnId output now hlive hpending =>
      rw [onAssessmentCompleted, if_neg (not_not.mpr hpending)]
      rfl
  | assessmentFailed forTurnId errorKind now hlive hpending =>
      -- The failure marks a cell, the command in flight stands.
      rw [onAssessmentFailed, if_neg (not_not.mpr hpending)]
      cases s.tech.assessmentFocus.get? forTurnId <;> rfl
  | reconnected now hlive =>
      -- A reissue repeats the command that stands.
      unfold onReconnected
      cases hp : s.pendingCommand with
      | none => rfl
      | some c => rfl
  | _ => rfl

omit [Scalars] in
/-- A call that is outstanding in a reachable state is in flight. -/
theorem StateInv.inFlight_of_pending (h : StateInv cfg s) {r : RunInterviewer}
    (hr : s.pendingCommand = some (.runInterviewer r)) : InFlight s := by
  -- A call is pending in the two conversing phases only.
  have hconv : s.phase = .tech ∨ s.phase = .qa := by
    cases hphase : s.phase with
    | tech => exact Or.inl rfl
    | qa => exact Or.inr rfl
    | created => rw [(h.created hphase).2.1.2] at hr; cases hr
    | intro =>
        obtain ⟨c, hc⟩ := (h.intro hphase).2.2
        rw [hc] at hr
        cases hr
    | close =>
        obtain ⟨c, hc⟩ := (h.close hphase).2.2
        rw [hc] at hr
        cases hr
    | completed =>
        have hp := h.phase
        rw [PhaseInv, hphase] at hp
        rw [hp.2.2] at hr
        cases hr
    | aborted =>
        have hp := h.phase
        rw [PhaseInv, hphase] at hp
        rw [hp.2] at hr
        cases hr
  refine ⟨hconv, ?_⟩
  rcases (h.conversing hconv).2 with hmove | ⟨_, ⟨c, hc⟩, _⟩
  · exact hmove.1
  · -- While the candidate is awaited the pending command is a delivery.
    rw [hc] at hr
    cases hr

/-- A failure of the call in flight: the call is made once more, or the session is
    over. -/
theorem transition_of_failure {r : RunInterviewer} (hflight : InFlight s)
    (hr : s.pendingCommand = some (.runInterviewer r)) (errorKind : String) (now : Instant) :
    transition s (.interviewerFailed r.turnId errorKind now) cfg = .ok
      (if 1 ≤ s.interviewerFailureStreak then abort s .fatalAgentError .agentFailure true
      else ⟨{ s with
          interviewerFailureStreak := s.interviewerFailureStreak + 1
          pendingCommand := some (.runInterviewer { r with retry := true }) },
        [.runInterviewer { r with retry := true }, .flagTurnDegraded ⟨r.turnId, errorKind⟩,
          .persistState]⟩) := by
  have hlive : ¬ s.phase ∈ terminalPhases := by
    rcases hflight.1 with hphase | hphase <;> rw [hphase] <;> decide
  have hcreated : s.phase ≠ .created := by
    rcases hflight.1 with hphase | hphase <;> rw [hphase] <;> decide
  -- The failure names the turn of the outstanding call.
  have hanswers : answersPendingCommand s r.turnId = true := by
    unfold answersPendingCommand
    rw [hr]
    exact decide_eq_true rfl
  -- None of the guards of the handler turns the event away.
  have hopen : ¬ ((s.phase ≠ .tech ∧ s.phase ≠ .qa) ∨ s.awaiting ≠ some .interviewer) := by
    rintro (⟨htech, hqa⟩ | hawaiting)
    · exact hflight.1.elim htech hqa
    · exact hawaiting hflight.2
  unfold transition
  rw [if_neg hlive]
  simp only [if_neg hcreated]
  unfold onInterviewerFailed
  rw [hanswers, if_neg hopen, hr]
  rfl

/-- A failure of anything else is ignored. -/
theorem transition_of_other_failure {turnId : Uuid} {errorKind : String} {now : Instant}
    (h : ¬ FailsCall s (.interviewerFailed turnId errorKind now)) :
    transition s (.interviewerFailed turnId errorKind now) cfg = .ok (ignore s) := by
  have hignored : onInterviewerFailed s turnId errorKind = ignore s := by
    unfold onInterviewerFailed
    split
    · rfl
    · next hanswers =>
        split
        · rfl
        · -- The outstanding command has the turn's identifier, so it is no call.
          split
          · next pending hp =>
              rw [Bool.not_eq_true', Bool.not_eq_false] at hanswers
              have hid := turnId_of_answers hanswers hp
              exact absurd ⟨pending, hp, congrArg some hid.symm⟩ h
          · rfl
  unfold transition
  split
  · rfl
  · simp only [hignored]
    split <;> rfl

/-- An event that reports no failure never decides that the agent failed. -/
theorem undecided_of_step (hevent : e.failedTurn = none) (hstep : step cfg s e = .ok (s', out)) :
    .recordDecision ⟨.agentFailure⟩ ∉ out := by
  intro hmem
  have htaken := (step_eq_ok_iff cfg s s' e out).mp hstep
  rcases aborted_or_completed_of_decision (edge_of_transition htaken) hmem with hdead | hdone
  · have hlive : live s := by
      by_contra hover
      rw [step_of_terminal cfg hover e, Except.ok.injEq, Prod.mk.injEq] at hstep
      rw [← hstep.2] at hmem
      exact absurd hmem List.not_mem_nil
    generalize hr : (⟨s', out⟩ : TransitionResult) = r at htaken
    rw [show s' = r.newState by rw [← hr]] at hdead
    have hout : out = r.commands := by rw [← hr]
    rw [hout] at hmem
    cases abortedBy_of_transition htaken hlive hdead with
    -- The one abort with this decision comes from a failure.
    | agent turnId errorKind now hstreak => cases hevent
    | plan now => simp only [abort, List.mem_cons, Command.recordDecision.injEq,
        RecordDecision.mk.injEq, reduceCtorEq, Bool.false_eq_true, if_false, List.not_mem_nil,
        or_self] at hmem
    | silence now => simp only [abort, List.mem_cons, Command.recordDecision.injEq,
        RecordDecision.mk.injEq, reduceCtorEq, if_true, List.not_mem_nil, or_self] at hmem
    | operator reason now => simp only [abort, List.mem_cons, Command.recordDecision.injEq,
        RecordDecision.mk.injEq, reduceCtorEq, if_true, List.not_mem_nil, or_self] at hmem
  · -- A completed session records another decision.
    exact absurd hdone (by decide)

/-- Every transition is one of five steps on the ladder. -/
theorem ladderStep_of_step (h : StateInv cfg s) (hstep : step cfg s e = .ok (s', out)) :
    LadderStep s e s' out := by
  cases hfailed : e.failedTurn with
  | some turn =>
      -- A failure counts when it is one of the call in flight.
      cases e with
      | interviewerFailed turnId errorKind now =>
          have htaken := (step_eq_ok_iff cfg s s' _ out).mp hstep
          by_cases hcall : FailsCall s (.interviewerFailed turnId errorKind now)
          · obtain ⟨r, hr, hturn⟩ := hcall
            obtain rfl : turnId = r.turnId := Option.some.inj hturn
            have hflight := h.inFlight_of_pending hr
            rw [transition_of_failure hflight hr, Except.ok.injEq] at htaken
            by_cases hstreak : 1 ≤ s.interviewerFailureStreak
            · rw [if_pos hstreak] at htaken
              exact LadderStep.falls r errorKind now hr rfl hstreak
                (congrArg TransitionResult.commands htaken).symm
                (congrArg (fun q => q.newState.pendingCommand) htaken).symm
            · rw [if_neg hstreak] at htaken
              have hzero : s.interviewerFailureStreak = 0 := by
                have hpos := h.streak
                omega
              refine LadderStep.repeats r errorKind now hr rfl hzero
                (congrArg TransitionResult.commands htaken).symm ?_
              rw [← congrArg (fun q => q.newState.interviewerFailureStreak) htaken, hzero]
              rfl
          · rw [transition_of_other_failure hcall, Except.ok.injEq] at htaken
            have hs : s = s' := congrArg TransitionResult.newState htaken
            have hout : [] = out := congrArg TransitionResult.commands htaken
            rw [← hs, ← hout]
            exact LadderStep.keeps rfl List.not_mem_nil hcall rfl rfl (fun _ => ⟨rfl, rfl⟩)
      | _ => cases hfailed
  | none =>
      have hundecided := undecided_of_step hfailed hstep
      have hother : ¬ FailsCall s e := fun hcall => by
        obtain ⟨r, _, hr⟩ := hcall
        rw [hfailed] at hr
        cases hr
      have hissues : out.any Command.isFirstCall = true → s'.interviewerFailureStreak = 0 →
          LadderStep s e s' out :=
        fun hfirst hstreak => LadderStep.issues hfirst hstreak hundecided hother
      have hends : out.any Command.isFirstCall = false →
          (∀ r, s'.pendingCommand ≠ some (.runInterviewer r)) → LadderStep s e s' out :=
        fun hfirst hnone => LadderStep.ends hfirst hundecided hfailed hnone
      have hkeeps : out.any Command.isFirstCall = false → s'.pendingCommand = s.pendingCommand →
          s'.interviewerFailureStreak = s.interviewerFailureStreak → LadderStep s e s' out :=
        fun hfirst hpending hstreak => LadderStep.keeps hfirst hundecided hother hpending hstreak
          (fun hsome => by rw [hfailed] at hsome; cases hsome)
      cases edge_of_step hstep with
      | opened now plan hphase hplan => exact hends rfl (fun r hr => by cases hr)
      | closed e activity hphase => exact hends rfl (fun r hr => by cases hr)
      | completed e hphase => exact hends rfl (fun r hr => by cases hr)
      | aborted e reason decision persist hlive hturn =>
          cases persist <;> exact hends rfl (fun r hr => by cases hr)
      | delivered turnId output now hphase hawaiting hpending =>
          exact hends rfl (fun r hr => by cases hr)
      | retried turnId errorKind now pending hphase hawaiting hpending hid hstreak =>
          cases hfailed
      | assessed forTurnId output now hlive hpending =>
          rw [onAssessmentCompleted, if_neg (not_not.mpr hpending)] at hkeeps ⊢
          exact hkeeps rfl rfl rfl
      | assessmentFailed forTurnId errorKind now hlive hpending =>
          rw [onAssessmentFailed, if_neg (not_not.mpr hpending)] at hkeeps ⊢
          cases hfocus : s.tech.assessmentFocus.get? forTurnId <;>
            rw [hfocus] at hkeeps <;> exact hkeeps rfl rfl rfl
      | reconnected now hlive =>
          refine hkeeps ?_ rfl rfl
          unfold onReconnected
          cases s.pendingCommand <;> rfl
      | ignored e hidle => exact hkeeps rfl rfl rfl
      | entered | probed | seeded | advanced | finished | cutShort | asked =>
          exact hissues rfl rfl

end Steps

section Runs
variable [Scalars] {cfg : OrchestratorConfig} {s : SessionState} {sessionId : Uuid}
  {planInput : Dict String Json} {ts : List (Taken SessionState Event Command)}

/-- The outstanding command is read off what the run has emitted. -/
theorem SessionRun.standing (h : SessionRun cfg sessionId planInput ts s) :
    TechScreen.standing (outputs ts) = s.pendingCommand := by
  induction h with
  | nil => rfl
  | snoc ts a b e out _ hab ih =>
      rw [outputs_snoc, TechScreen.standing, List.foldl_append, ← TechScreen.standing, ih]
      exact standing_of_edge (edge_of_step hab)

omit [Scalars] in
/-- A move that was just issued has not failed. -/
theorem failures_of_issue {t : Taken SessionState Event Command} (h : issuesMove t = true)
    (ts : List (Taken SessionState Event Command)) (turn : Uuid) :
    failures (ts ++ [t]) turn = 0 := by
  rw [failures, List.rtakeWhile_concat_neg _ _ _ (by rw [h]; exact Bool.false_ne_true)]
  rfl

omit [Scalars] in
theorem failures_of_step {t : Taken SessionState Event Command} (h : issuesMove t = false)
    (ts : List (Taken SessionState Event Command)) (turn : Uuid) :
    failures (ts ++ [t]) turn
      = failures ts turn + if t.event.failedTurn = some turn then 1 else 0 := by
  rw [failures, List.rtakeWhile_concat_pos _ _ _ (by rw [h]; rfl), List.countP_append, failures,
    List.countP_singleton]
  simp only [decide_eq_true_eq]

/-- While a call is outstanding, the counter is the number of its failures since
    its move was issued, and there is one at most. -/
theorem SessionRun.ladder (h : SessionRun cfg sessionId planInput ts s) {r : RunInterviewer}
    (hr : s.pendingCommand = some (.runInterviewer r)) :
    s.interviewerFailureStreak = failures ts r.turnId ∧ failures ts r.turnId ≤ 1 := by
  induction h generalizing r with
  | nil => cases hr
  | snoc ts a b e out hrun hab ih =>
      cases ladderStep_of_step (SessionRun.stateInv hrun) hab with
      | issues hfirst hstreak hundecided hother =>
          rw [failures_of_issue (t := ⟨a, e, b, out⟩) hfirst, hstreak]
          exact ⟨rfl, Nat.zero_le 1⟩
      | repeats q errorKind now hbefore hevent hstreak hout hafter =>
          -- The second attempt carries the identifier of the first.
          have hpending := standing_of_edge (edge_of_step hab)
          rw [hout, hr] at hpending
          simp only [List.foldl_cons, List.foldl_nil, Command.stand, Option.some.injEq,
            PendingCommand.runInterviewer.injEq] at hpending
          have hquiet : issuesMove (⟨a, e, b, out⟩ : Taken SessionState Event Command) = false := by
            rw [issuesMove, hout]
            rfl
          have hzero := (ih hbefore).1
          rw [hstreak] at hzero
          rw [failures_of_step hquiet, hafter, ← hpending, hevent]
          simp only [Event.failedTurn, if_true]
          omega
      | falls q errorKind now hbefore hevent hstreak hout hpending =>
          rw [hpending] at hr
          cases hr
      | ends hfirst hundecided hother hnone => exact absurd hr (hnone r)
      | keeps hfirst hundecided hother hpending hstreak hsame =>
          rw [hpending] at hr
          have hno : ¬ e.failedTurn = some r.turnId := fun hc => hother ⟨r, hr, hc⟩
          rw [failures_of_step (t := ⟨a, e, b, out⟩) hfirst, if_neg hno, Nat.add_zero, hstreak]
          exact ih hr

end Runs

section Bystanders
variable [Scalars] {cfg : OrchestratorConfig} {s s' : SessionState} {e : Event}
  {out : List Command}

/-- An event that has no part in the ladder: a result, a resume, or a candidate
    turn that is ignored. -/
def Bystands (e : Event) (out : List Command) : Prop :=
  e.isAssessment = true ∨ (∃ now, e = .reconnected now) ∨ (e.isCandidateTurn = true ∧ out = [])

/-- What asks for nothing changes nothing. -/
theorem eq_of_silent (hedge : Edge cfg s e s' out) (hout : out = []) : s' = s := by
  cases hedge with
  | ignored e hidle => rfl
  | aborted e reason decision persist hlive hturn => cases hout
  | reconnected now hlive => rfl
  | _ => cases hout

theorem bystander_of_step (h : Bystands e out) (hstep : step cfg s e = .ok (s', out)) :
    s'.pendingCommand = s.pendingCommand ∧
      s'.interviewerFailureStreak = s.interviewerFailureStreak ∧
      out.any Command.isFirstCall = false ∧ e.failedTurn = none := by
  have htaken := (step_eq_ok_iff cfg s s' e out).mp hstep
  rcases h with hassessment | ⟨now, rfl⟩ | ⟨hturn, hout⟩
  · have hfailed : e.failedTurn = none := by
      cases e with
      | assessmentCompleted | assessmentFailed => rfl
      | sessionStarted | candidateTurnReceived | interviewerReplyReady | interviewerFailed
      | timerTick | reconnected | operatorAbort => exact absurd hassessment Bool.false_ne_true
    by_cases hlive : live s
    · rw [transition_of_assessment cfg hlive hassessment, Except.ok.injEq,
        TransitionResult.mk.injEq] at htaken
      rw [← htaken.1, ← htaken.2]
      refine ⟨rfl, rfl, ?_, hfailed⟩
      unfold Assessments.absorb
      split
      · split <;> rfl
      · split <;> rfl
      · rfl
    · rw [transition_of_not_live hlive, Except.ok.injEq, ignore, TransitionResult.mk.injEq]
        at htaken
      rw [← htaken.1, ← htaken.2]
      exact ⟨rfl, rfl, rfl, hfailed⟩
  · -- A reconnect repeats the pending command and stores nothing.
    have hedge := edge_of_transition htaken
    unfold transition at htaken
    split at htaken
    · rw [Except.ok.injEq, ignore, TransitionResult.mk.injEq] at htaken
      rw [← htaken.1, ← htaken.2]
      exact ⟨rfl, rfl, rfl, rfl⟩
    · rw [Except.ok.injEq] at htaken
      unfold onReconnected at htaken
      split at htaken
      · rw [TransitionResult.mk.injEq] at htaken
        rw [← htaken.1, ← htaken.2]
        exact ⟨rfl, rfl, rfl, rfl⟩
      · rw [TransitionResult.mk.injEq] at htaken
        rw [← htaken.1, ← htaken.2]
        exact ⟨rfl, rfl, rfl, rfl⟩
  · have hfailed : e.failedTurn = none := by
      cases e with
      | candidateTurnReceived turnId text now => rfl
      | _ => cases hturn
    -- A candidate turn that emits nothing was ignored.
    rw [eq_of_silent (edge_of_step hstep) hout, hout]
    exact ⟨rfl, rfl, rfl, hfailed⟩

end Bystanders

/-- What a step `t` of a run may do after the steps `us`. -/
structure LadderLaw (us : List (Taken SessionState Event Command))
    (t : Taken SessionState Event Command) : Prop where
  /-- The decision is made exactly at the second failure of the outstanding call
      since its move was issued. -/
  decides : .recordDecision ⟨.agentFailure⟩ ∈ t.out ↔
    ∃ r, standing (outputs us) = some (.runInterviewer r) ∧
      t.event.failedTurn = some r.turnId ∧ failures us r.turnId = 1
  /-- The first failure asks for the same call once more. -/
  repeats : ∀ r errorKind now, standing (outputs us) = some (.runInterviewer r) →
    t.event = .interviewerFailed r.turnId errorKind now → failures us r.turnId = 0 →
    t.out = [.runInterviewer { r with retry := true }, .flagTurnDegraded ⟨r.turnId, errorKind⟩,
      .persistState]
  /-- There is no third. -/
  bounded : ∀ r, standing (outputs us) = some (.runInterviewer r) → failures us r.turnId ≤ 1
  /-- A failure of any other turn changes nothing. -/
  ignores : ∀ turn, t.event.failedTurn = some turn →
    (∀ r, standing (outputs us) = some (.runInterviewer r) → r.turnId ≠ turn) →
    t.after = t.before ∧ t.out = []
  /-- A move that is issued has not failed yet. -/
  resets : issuesMove t = true → t.after.interviewerFailureStreak = 0 ∧
    ∀ turn, failures (us ++ [t]) turn = 0
  /-- Results, resumes and ignored candidate turns leave the ladder as it is. -/
  carries : Bystands t.event t.out →
    standing (outputs (us ++ [t])) = standing (outputs us) ∧
      t.after.interviewerFailureStreak = t.before.interviewerFailureStreak ∧
      ∀ turn, failures (us ++ [t]) turn = failures us turn

/-- In every run, whatever ticks, candidate turns, results and resumes come between
    the two failures of a call, every step obeys the law of the ladder. -/
theorem failure_ladder [Scalars] (cfg : OrchestratorConfig) (sessionId : Uuid)
    (planInput : Dict String Json) (ts : List (Taken SessionState Event Command))
    (s : SessionState) (h : SessionRun cfg sessionId planInput ts s)
    (us : List (Taken SessionState Event Command)) (t : Taken SessionState Event Command)
    (vs : List (Taken SessionState Event Command)) (hts : ts = us ++ t :: vs) :
    LadderLaw us t := by
  obtain ⟨hus, hstep⟩ := Run.split h us t vs hts
  have hstanding := SessionRun.standing hus
  have hcount : ∀ r, standing (outputs us) = some (.runInterviewer r) →
      t.before.interviewerFailureStreak = failures us r.turnId ∧ failures us r.turnId ≤ 1 :=
    fun r hr => SessionRun.ladder hus (hstanding ▸ hr)
  have hladder := ladderStep_of_step (SessionRun.stateInv hus) hstep
  refine
    { decides := ⟨fun hmem => ?_, fun hsecond => ?_⟩
      repeats := fun r errorKind now hr hevent hfirst => ?_
      bounded := fun r hr => (hcount r hr).2
      ignores := fun turn hturn hother => ?_
      resets := fun hissue => ⟨?_, failures_of_issue hissue us⟩
      carries := fun hby => ?_ }
  · -- Only a fall makes the decision, and it comes after one failure.
    cases hladder with
    | issues hfirst hstreak hundecided hother => exact absurd hmem hundecided
    | repeats r errorKind now hbefore hevent hstreak hout hafter =>
        rw [hout] at hmem
        simp only [List.mem_cons, reduceCtorEq, List.not_mem_nil, or_self] at hmem
    | falls r errorKind now hbefore hevent hstreak hout hpending =>
        have hr := hstanding.trans hbefore
        have hone := hcount r hr
        refine ⟨r, hr, by rw [hevent]; rfl, ?_⟩
        omega
    | ends hfirst hundecided hother hnone => exact absurd hmem hundecided
    | keeps hfirst hundecided hother hpending hstreak hsame => exact absurd hmem hundecided
  · obtain ⟨r, hr, hturn, hone⟩ := hsecond
    have hbefore : t.before.pendingCommand = some (.runInterviewer r) := hstanding.symm.trans hr
    have hstreak := (hcount r hr).1
    cases hladder with
    | issues hfirst hzero hundecided hother => exact absurd ⟨r, hbefore, hturn⟩ hother
    | repeats q errorKind now hq hevent hzero hout hafter => omega
    | falls q errorKind now hq hevent hpos hout hpending =>
        rw [hout]
        exact List.mem_cons_self
    | ends hfirst hundecided hother hnone => rw [hother] at hturn; cases hturn
    | keeps hfirst hundecided hother hpending hsteady hsame =>
        exact absurd ⟨r, hbefore, hturn⟩ hother
  · have hbefore : t.before.pendingCommand = some (.runInterviewer r) := hstanding.symm.trans hr
    have hcall : FailsCall t.before t.event := ⟨r, hbefore, by rw [hevent]; rfl⟩
    have hzero := (hcount r hr).1
    cases hladder with
    | issues hissued hstreak hundecided hother => exact absurd hcall hother
    | repeats q kind now' hq hevent' hstreak hout hafter =>
        rw [hbefore, Option.some.injEq, PendingCommand.runInterviewer.injEq] at hq
        rw [hevent, Event.interviewerFailed.injEq] at hevent'
        rw [hout, hq, hevent'.2.1]
    | falls q kind now' hq hevent' hpos hout hpending => omega
    | ends hissued hundecided hother hnone =>
        rw [hevent] at hother
        cases hother
    | keeps hissued hundecided hother hpending hsteady hsame => exact absurd hcall hother
  · have hno : ¬ FailsCall t.before t.event := by
      rintro ⟨r, hr, hfails⟩
      rw [hturn, Option.some.injEq] at hfails
      exact hother r (hstanding.trans hr) hfails.symm
    cases hladder with
    | issues hfirst hstreak hundecided hquiet =>
        -- A failure that does not count is ignored, and issues nothing.
        cases hevent : t.event with
        | interviewerFailed turnId errorKind now =>
            rw [hevent] at hno hstep
            have htaken := (step_eq_ok_iff cfg _ _ _ _).mp hstep
            rw [transition_of_other_failure hno, Except.ok.injEq, ignore,
              TransitionResult.mk.injEq] at htaken
            exact ⟨htaken.1.symm, htaken.2.symm⟩
        | _ => rw [hevent] at hturn; cases hturn
    | repeats r errorKind now hbefore hevent hstreak hout hafter =>
        exact absurd ⟨r, hbefore, by rw [hevent]; rfl⟩ hno
    | falls r errorKind now hbefore hevent hstreak hout hpending =>
        exact absurd ⟨r, hbefore, by rw [hevent]; rfl⟩ hno
    | ends hfirst hundecided hquiet hnone =>
        rw [hturn] at hquiet
        cases hquiet
    | keeps hfirst hundecided hquiet hpending hstreak hsame =>
        exact hsame (by rw [hturn]; rfl)
  · cases hladder with
    | issues hfirst hstreak hundecided hother => exact hstreak
    | repeats r errorKind now hbefore hevent hstreak hout hafter =>
        rw [issuesMove, hout] at hissue
        cases hissue
    | falls r errorKind now hbefore hevent hstreak hout hpending =>
        rw [issuesMove, hout] at hissue
        cases hissue
    | ends hfirst hundecided hother hnone =>
        rw [issuesMove, hfirst] at hissue
        cases hissue
    | keeps hfirst hundecided hother hpending hstreak hsame =>
        rw [issuesMove, hfirst] at hissue
        cases hissue
  · obtain ⟨hpending, hstreak, hfirst, hfailed⟩ := bystander_of_step hby hstep
    refine ⟨?_, hstreak, fun turn => ?_⟩
    · have hafter := SessionRun.standing (hus.snoc us t.before t.after t.event t.out hstep)
      rw [hafter, hpending]
      exact hstanding.symm
    · rw [failures_of_step (t := t) hfirst, hfailed]
      rfl

/-- The first question fails, the session is resumed, and it fails again. -/
def smallLadder : List Event :=
  smallEvents.take 2 ++ [.interviewerFailed (smallTurn 1) "timeout" 2000000, .reconnected 3000000,
    .interviewerFailed (smallTurn 1) "timeout" 4000000]

theorem failure_ladder_small : ∃ us t s, SmallRun (us ++ [t]) s ∧ s.phase = .aborted ∧
    failures us (smallTurn 1) = 1 ∧ LadderLaw us t := by
  have hrec : (smallRecord smallLadder).map
      (fun r => (r.2.phase, r.1.isEmpty, failures r.1.dropLast (smallTurn 1)))
      = .ok (.aborted, false, 1) := by decide +kernel
  rcases exists_run_of_record _ _ _ _ _ hrec with ⟨ts, s, hrun, hproj⟩
  simp only [Prod.mk.injEq] at hproj
  rcases List.eq_nil_or_concat ts with rfl | ⟨us, t, rfl⟩
  · exact absurd hproj.2.1 Bool.true_eq_false_eq_False
  · rw [List.concat_eq_append] at hrun hproj
    rw [List.dropLast_concat] at hproj
    exact ⟨us, t, s, hrun, hproj.1, hproj.2.2,
      @failure_ladder Scalars.strict _ _ _ _ s hrun us t [] rfl⟩

end TechScreen
