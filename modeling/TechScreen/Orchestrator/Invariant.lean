import TechScreen.Orchestrator.Edges

/-!
# The Reachable States

What holds in every state that the machine can reach from the pre-start state,
phase by phase, and the consequence that the machine never finds itself in a
state it cannot have reached: no transition of a reachable state raises the
state error.

`PhaseInv` is the invariant that the phases promise. `StateInv` adds what makes
it inductive: the counters are not negative, and the outstanding command was
issued by the last counter value. The handlers that issue a new move all do it
through `issueInterviewer`, so what they share is one lemma about it.

## Main definitions

* `SessionRun`: The runs of a session from its pre-start state.
* `Conversing`: A move is in flight, or a reply was delivered.
* `InPlan`: The technical phase is inside the plan and inside its budget.
* `PhaseInv`: What a phase promises.
* `StateInv`: The inductive invariant.
* `Identity`: What a session keeps from its start.
* `Sound`: A computation that does not raise the state error.
* `smallEvents`: A small interview, on which the theorems are tried.

## Theorems

* `stateInv_of_edge`: Every edge keeps the invariant.
* `SessionRun.stateInv`: It holds in every reachable state.
* `transition_sound`: No transition of such a state raises the state error.
* `reachable_states`: Both together.
-/

namespace TechScreen

open Lib

/-- The runs of a session from its pre-start state. -/
abbrev SessionRun [Scalars] (cfg : OrchestratorConfig) (sessionId : Uuid)
    (planInput : Dict String Json) :
    List (Taken SessionState Event Command) → SessionState → Prop :=
  Run (step cfg) (initialState sessionId planInput cfg)

/-- The plan is there, and the session has a start time. -/
def Planned (s : SessionState) : Prop := s.plan.isSome ∧ s.sessionStartedAt.isSome

/-- The interviewer is awaited: its call is outstanding, for the move issued
    last, and marked a retry exactly after one failure. -/
def MoveInFlight (s : SessionState) : Prop :=
  s.awaiting = some .interviewer ∧ ∃ c, s.pendingCommand = some (.runInterviewer c) ∧
    s.lastIssuedMove = some c.move ∧ (c.retry = true ↔ s.interviewerFailureStreak = 1)

/-- The candidate is awaited: the last utterance was delivered. -/
def ReplyDelivered (s : SessionState) : Prop :=
  s.awaiting = some .candidate ∧ (∃ c, s.pendingCommand = some (.deliverUtterance c)) ∧
    s.interviewerFailureStreak = 0

def Conversing (s : SessionState) : Prop := MoveInFlight s ∨ ReplyDelivered s

/-- The technical phase is on a competency of the plan, on one of its seeds and
    within its probes. -/
def InPlan (cfg : OrchestratorConfig) (s : SessionState) : Prop :=
  ∃ plan c, s.plan = some plan ∧ plan.competency s.tech.competencyIndex = some c ∧
    0 ≤ s.tech.seedIndex ∧ s.tech.seedIndex < c.seedQuestionsUk.length ∧
    0 ≤ s.tech.probesUsed ∧ s.tech.probesUsed ≤ cfg.adjudication.maxProbesPerCompetency ∧
    s.tech.competencyStartedAt.isSome

/-- The competency an answer is decided on is the one the invariant is about. -/
theorem Answer.inPlan {cfg : OrchestratorConfig} {s : SessionState} {now : Instant}
    (a : Answer s now) (h : InPlan cfg s) :
    0 ≤ s.tech.seedIndex ∧ s.tech.seedIndex < a.competency.seedQuestionsUk.length ∧
      0 ≤ s.tech.probesUsed ∧ s.tech.probesUsed ≤ cfg.adjudication.maxProbesPerCompetency := by
  rcases h with ⟨plan, c, hplan, hc, h1, h2, h3, h4, _⟩
  rw [a.hplan, Option.some.injEq] at hplan
  rw [← hplan, a.hcompetency, Option.some.injEq] at hc
  rw [hc]
  exact ⟨h1, h2, h3, h4⟩

/-- Nobody is awaited and nothing is outstanding. -/
def Idle (s : SessionState) : Prop := s.awaiting = none ∧ s.pendingCommand = none

/-- What a phase promises. -/
def PhaseInv (cfg : OrchestratorConfig) (s : SessionState) : Prop :=
  match s.phase with
  | .created => s.plan = none ∧ Idle s ∧ s.turnSeq = 0
  | .intro => Planned s ∧ s.awaiting = some .interviewer ∧
      ∃ c, s.pendingCommand = some (.emitScriptedOpening c)
  | .tech => Planned s ∧ Conversing s ∧ InPlan cfg s
  | .qa => Planned s ∧ Conversing s
  | .close => Planned s ∧ s.awaiting = some .interviewer ∧
      ∃ c, s.pendingCommand = some (.emitScriptedClosing c)
  | .completed => Planned s ∧ Idle s
  | .aborted => Idle s

/-- The outstanding command carries the identifier of the last counter value. -/
def PendingId (s : SessionState) : Prop :=
  ∀ c, s.pendingCommand = some c → c.turnId = deriveTurnId s.sessionId (turnPath (s.turnSeq - 1))

/-- What holds in every reachable state. -/
structure StateInv (cfg : OrchestratorConfig) (s : SessionState) : Prop where
  phase : PhaseInv cfg s
  abortReason : s.abortReason.isSome ↔ s.phase = .aborted
  pendingId : PendingId s
  turnSeq : 0 ≤ s.turnSeq
  streak : 0 ≤ s.interviewerFailureStreak

section Phases
variable {cfg : OrchestratorConfig} {s : SessionState}

theorem StateInv.created (h : StateInv cfg s) (hs : s.phase = .created) :
    s.plan = none ∧ Idle s ∧ s.turnSeq = 0 := by
  have hp := h.phase
  rw [PhaseInv, hs] at hp
  exact hp

theorem StateInv.intro (h : StateInv cfg s) (hs : s.phase = .intro) :
    Planned s ∧ s.awaiting = some .interviewer ∧
      ∃ c, s.pendingCommand = some (.emitScriptedOpening c) := by
  have hp := h.phase
  rw [PhaseInv, hs] at hp
  exact hp

theorem StateInv.tech (h : StateInv cfg s) (hs : s.phase = .tech) :
    Planned s ∧ Conversing s ∧ InPlan cfg s := by
  have hp := h.phase
  rw [PhaseInv, hs] at hp
  exact hp

theorem StateInv.qa (h : StateInv cfg s) (hs : s.phase = .qa) : Planned s ∧ Conversing s := by
  have hp := h.phase
  rw [PhaseInv, hs] at hp
  exact hp

theorem StateInv.close (h : StateInv cfg s) (hs : s.phase = .close) :
    Planned s ∧ s.awaiting = some .interviewer ∧
      ∃ c, s.pendingCommand = some (.emitScriptedClosing c) := by
  have hp := h.phase
  rw [PhaseInv, hs] at hp
  exact hp

theorem StateInv.conversing (h : StateInv cfg s) (hs : s.phase = .tech ∨ s.phase = .qa) :
    Planned s ∧ Conversing s := by
  rcases hs with ht | hq
  · exact ⟨(h.tech ht).1, (h.tech ht).2.1⟩
  · exact h.qa hq

/-- Only an aborted session has a reason for it. -/
theorem StateInv.abortReason_isSome_eq_false (h : StateInv cfg s) (hs : s.phase ≠ .aborted) :
    s.abortReason.isSome = false := by
  cases hr : s.abortReason.isSome with
  | false => rfl
  | true => exact absurd (h.abortReason.mp hr) hs

end Phases

/-- A move that was just issued is in flight. -/
theorem issueInterviewer_moveInFlight (s : SessionState) (move : InterviewerMove)
    (node : Option String) (ctx : Dict String Json) :
    MoveInFlight (issueInterviewer s move node ctx).1 := by
  refine ⟨rfl, interviewerCommand s move node ctx, rfl, rfl, ?_⟩
  simp only [interviewerCommand, issueInterviewer, Bool.false_eq_true, Int.reduceEq]

theorem issueInterviewer_pendingId (s : SessionState) (move : InterviewerMove)
    (node : Option String) (ctx : Dict String Json) :
    PendingId (issueInterviewer s move node ctx).1 := by
  intro c hc
  simp only [issueInterviewer, Option.some.injEq] at hc
  rw [← hc]
  simp only [PendingCommand.turnId, interviewerCommand, issueInterviewer, Int.add_sub_cancel]

/-- Issuing a move in the technical phase keeps the invariant, wherever in the
    plan the move was issued from. -/
theorem issueInterviewer_tech {cfg : OrchestratorConfig} {s : SessionState}
    (move : InterviewerMove) (node : Option String) (ctx : Dict String Json)
    (hphase : s.phase = .tech) (hplanned : Planned s) (hplan : InPlan cfg s)
    (habort : s.abortReason.isSome = false) (hseq : 0 ≤ s.turnSeq) :
    StateInv cfg (issueInterviewer s move node ctx).1 where
  phase := by
    have hp : (issueInterviewer s move node ctx).1.phase = .tech := hphase
    rw [PhaseInv, hp]
    exact ⟨hplanned, Or.inl (issueInterviewer_moveInFlight s move node ctx), hplan⟩
  abortReason := by
    have hp : (issueInterviewer s move node ctx).1.phase = .tech := hphase
    rw [hp]
    simp only [issueInterviewer, habort, Bool.false_eq_true, reduceCtorEq]
  pendingId := issueInterviewer_pendingId s move node ctx
  turnSeq := by simp only [issueInterviewer]; omega
  streak := Int.le_refl 0

theorem issueInterviewer_qa {cfg : OrchestratorConfig} {s : SessionState}
    (move : InterviewerMove) (node : Option String) (ctx : Dict String Json)
    (hphase : s.phase = .qa) (hplanned : Planned s)
    (habort : s.abortReason.isSome = false) (hseq : 0 ≤ s.turnSeq) :
    StateInv cfg (issueInterviewer s move node ctx).1 where
  phase := by
    have hp : (issueInterviewer s move node ctx).1.phase = .qa := hphase
    rw [PhaseInv, hp]
    exact ⟨hplanned, Or.inl (issueInterviewer_moveInFlight s move node ctx)⟩
  abortReason := by
    have hp : (issueInterviewer s move node ctx).1.phase = .qa := hphase
    rw [hp]
    simp only [issueInterviewer, habort, Bool.false_eq_true, reduceCtorEq]
  pendingId := issueInterviewer_pendingId s move node ctx
  turnSeq := by simp only [issueInterviewer]; omega
  streak := Int.le_refl 0

theorem stateInv_initialState (cfg : OrchestratorConfig) (sessionId : Uuid)
    (planInput : Dict String Json) : StateInv cfg (initialState sessionId planInput cfg) where
  phase := ⟨rfl, ⟨rfl, rfl⟩, rfl⟩
  abortReason := by simp only [initialState, Option.isSome_none, Bool.false_eq_true, reduceCtorEq]
  pendingId := fun c hc => by simp only [initialState, reduceCtorEq] at hc
  turnSeq := Int.le_refl 0
  streak := Int.le_refl 0

section Step
variable [Scalars] {cfg : OrchestratorConfig} {s s' : SessionState} {e : Event}
  {out : List Command}

/-- Every edge keeps the invariant. -/
theorem stateInv_of_edge (h : StateInv cfg s) (hedge : Edge cfg s e s' out) :
    StateInv cfg s' := by
  have hseq := h.turnSeq
  cases hedge with
  | ignored e hidle => exact h
  | opened now plan hphase hplan =>
      have habort := h.abortReason_isSome_eq_false (by rw [hphase]; decide)
      exact
        { phase := ⟨⟨rfl, rfl⟩, rfl, _, rfl⟩
          abortReason := by simp only [opened, habort, Bool.false_eq_true, reduceCtorEq]
          pendingId := by
            intro c hc
            simp only [opened, Option.some.injEq] at hc
            rw [← hc]
            simp only [PendingCommand.turnId, opened, Int.add_sub_cancel]
          turnSeq := by simp only [opened]; omega
          streak := h.streak }
  | entered turnId text now plan hphase hplan =>
      -- The first competency of the plan: every index starts at zero.
      have habort := h.abortReason_isSome_eq_false (by rw [hphase]; decide)
      refine issueInterviewer_tech _ _ _ rfl (h.intro hphase).1 ?_ habort hseq
      refine ⟨plan, plan.firstCompetency, hplan, plan.competency_zero, Int.le_refl 0, ?_,
        Int.le_refl 0, cfg.adjudication.maxProbesPerCompetency_ge, rfl⟩
      have hlen := List.length_pos_of_ne_nil plan.firstCompetency.seedQuestionsUk_ne
      simp only [entered]
      omega
  | probed turnId text now a hphase hawaiting hclarify hprobes =>
      -- Only the probe counter moves, and the verdict leaves room for it.
      have habort := h.abortReason_isSome_eq_false (by rw [hphase]; decide)
      rcases h.tech hphase with ⟨hplanned, _, plan, c, hplan, hc, h1, h2, h3, h4, h5⟩
      refine issueInterviewer_tech _ _ _ hphase hplanned ?_ habort hseq
      refine ⟨plan, c, hplan, hc, h1, h2, ?_, ?_, h5⟩
      · simp only [Answer.scheduled, scheduleAssessment]; omega
      · simp only [Answer.scheduled, scheduleAssessment]; omega
  | seeded turnId text now a seed hphase hawaiting hanswered hseed =>
      have habort := h.abortReason_isSome_eq_false (by rw [hphase]; decide)
      rcases h.tech hphase with ⟨hplanned, _, plan, c, hplan, hc, h1, h2, h3, h4, h5⟩
      refine issueInterviewer_tech _ _ _ hphase hplanned ?_ habort hseq
      -- The next seed exists, so its index is in range.
      have hlt := (a.competency.seedQuestion_isSome_iff _).mp (by rw [hseed]; rfl)
      refine ⟨a.plan, a.competency, a.hplan, a.hcompetency, ?_, ?_, h3, h4, h5⟩
      · simp only [Answer.scheduled, scheduleAssessment]; omega
      · simp only [Answer.scheduled, scheduleAssessment]; omega
  | advanced turnId text now a following hphase hawaiting hleaves hnext =>
      have habort := h.abortReason_isSome_eq_false (by rw [hphase]; decide)
      refine issueInterviewer_tech _ _ _ hphase (h.tech hphase).1 ?_ habort hseq
      have hlen := List.length_pos_of_ne_nil following.seedQuestionsUk_ne
      refine ⟨a.plan, following, a.hplan, ?_, Int.le_refl 0, ?_, Int.le_refl 0,
        cfg.adjudication.maxProbesPerCompetency_ge, rfl⟩
      · simp only [advanced, a.leaving_competencyIndex, hnext]
      · simp only [advanced]; omega
  | finished turnId text now a hphase hawaiting hleaves hlast =>
      have habort := h.abortReason_isSome_eq_false (by rw [hphase]; decide)
      exact issueInterviewer_qa _ _ _ rfl (h.tech hphase).1 habort hseq
  | cutShort now plan hphase hplan hover =>
      have habort := h.abortReason_isSome_eq_false (by rw [hphase]; decide)
      exact issueInterviewer_qa _ _ _ rfl (h.tech hphase).1 habort hseq
  | asked turnId text now plan hphase hplan =>
      have habort := h.abortReason_isSome_eq_false (by rw [hphase]; decide)
      exact issueInterviewer_qa _ _ _ hphase (h.qa hphase).1 habort hseq
  | closed e activity hphase =>
      have habort := h.abortReason_isSome_eq_false (by rw [hphase]; decide)
      exact
        { phase := ⟨(h.qa hphase).1, rfl, _, rfl⟩
          abortReason := by simp only [enterClose, habort, Bool.false_eq_true, reduceCtorEq]
          pendingId := by
            intro c hc
            simp only [enterClose, Option.some.injEq] at hc
            rw [← hc]
            simp only [PendingCommand.turnId, enterClose, Int.add_sub_cancel]
          turnSeq := by simp only [enterClose]; omega
          streak := h.streak }
  | completed e hphase =>
      have habort := h.abortReason_isSome_eq_false (by rw [hphase]; decide)
      exact
        { phase := ⟨(h.close hphase).1, rfl, rfl⟩
          abortReason := by simp only [complete, habort, Bool.false_eq_true, reduceCtorEq]
          pendingId := fun c hc => by simp only [complete, reduceCtorEq] at hc
          turnSeq := hseq
          streak := h.streak }
  | aborted e reason decision persist hlive hturn =>
      exact
        { phase := ⟨rfl, rfl⟩
          abortReason := by simp only [abort, Option.isSome_some]
          pendingId := fun c hc => by simp only [abort, reduceCtorEq] at hc
          turnSeq := hseq
          streak := h.streak }
  | delivered turnId output now hphase hawaiting hpending =>
      -- A reply in flight: the move becomes an utterance under the same identifier.
      rcases h.conversing hphase with ⟨hplanned, hmove | hreply⟩
      · rcases hmove with ⟨_, c, hc, _, _⟩
        have hid : c.turnId = turnId := by
          rw [answersPendingCommand, hc] at hpending
          exact of_decide_eq_true hpending
        have hconv : Conversing (delivered s turnId output cfg) :=
          Or.inr ⟨rfl, ⟨_, rfl⟩, rfl⟩
        refine
          { phase := ?_
            abortReason := h.abortReason
            pendingId := ?_
            turnSeq := hseq
            streak := Int.le_refl 0 }
        · rcases hphase with ht | hq
          · have hp : (delivered s turnId output cfg).phase = .tech := ht
            rw [PhaseInv, hp]
            refine ⟨hplanned, hconv, ?_⟩
            rcases (h.tech ht).2.2 with ⟨plan, comp, hplan, hcomp, hrest⟩
            rcases noteDrift_fst s output.internalMoveExecuted cfg with ⟨drift, hdrift⟩
            simp only [InPlan, delivered, hdrift]
            exact ⟨plan, comp, hplan, hcomp, hrest⟩
          · have hp : (delivered s turnId output cfg).phase = .qa := hq
            rw [PhaseInv, hp]
            exact ⟨hplanned, hconv⟩
        · intro d hd
          simp only [delivered, Option.some.injEq] at hd
          rw [← hd]
          simp only [PendingCommand.turnId, delivered]
          rw [← hid]
          exact h.pendingId _ hc
      · rw [hreply.1] at hawaiting
        simp only [Option.some.injEq, reduceCtorEq] at hawaiting
  | retried turnId errorKind now pending hphase hawaiting hpending hid hstreak =>
      -- A failed move is in flight again, as a retry and with its identifier.
      rcases h.conversing hphase with ⟨hplanned, hmove | hreply⟩
      · rcases hmove with ⟨_, c, hc, hmove, _⟩
        have hcp : c = pending := by
          rw [hc] at hpending
          simp only [Option.some.injEq, PendingCommand.runInterviewer.injEq] at hpending
          exact hpending
        have hzero := h.streak
        have hconv : MoveInFlight { s with
            interviewerFailureStreak := s.interviewerFailureStreak + 1
            pendingCommand := some (.runInterviewer { pending with retry := true }) } := by
          refine ⟨hawaiting, _, rfl, ?_, ?_⟩
          · simp only [hmove, hcp]
          · simp only [true_iff]; omega
        refine
          { phase := ?_
            abortReason := h.abortReason
            pendingId := ?_
            turnSeq := hseq
            streak := by simp only; omega }
        · rcases hphase with ht | hq
          · rw [PhaseInv]
            simp only [ht]
            exact ⟨hplanned, Or.inl hconv, (h.tech ht).2.2⟩
          · rw [PhaseInv]
            simp only [hq]
            exact ⟨hplanned, Or.inl hconv⟩
        · intro d hd
          simp only [Option.some.injEq] at hd
          rw [← hd]
          exact h.pendingId (.runInterviewer pending) hpending
      · rw [hreply.1] at hawaiting
        simp only [Option.some.injEq, reduceCtorEq] at hawaiting
  | assessed forTurnId output now hlive hpending =>
      rw [onAssessmentCompleted, if_neg (not_not.mpr hpending)]
      exact ⟨h.phase, h.abortReason, h.pendingId, h.turnSeq, h.streak⟩
  | assessmentFailed forTurnId errorKind now hlive hpending =>
      rw [onAssessmentFailed, if_neg (not_not.mpr hpending)]
      cases s.tech.assessmentFocus.get? forTurnId with
      | none => exact ⟨h.phase, h.abortReason, h.pendingId, h.turnSeq, h.streak⟩
      | some node => exact ⟨h.phase, h.abortReason, h.pendingId, h.turnSeq, h.streak⟩
  | reconnected now hlive => exact h

/-- What a session keeps from its start: its identifier, its raw plan, and that
    its plan is what the raw plan was validated into. -/
structure Identity [Scalars] (sessionId : Uuid) (planInput : Dict String Json)
    (s : SessionState) : Prop where
  id_eq : s.sessionId = sessionId
  input_eq : s.planInput = planInput
  plan_eq : ∀ plan, s.plan = some plan →
    PlanSnapshot.validatePlan (.obj planInput.entries) = .ok plan

/-- Only the opening touches any of it. -/
theorem identity_of_edge {sessionId : Uuid} {planInput : Dict String Json}
    (h : Identity sessionId planInput s) (hedge : Edge cfg s e s' out) :
    Identity sessionId planInput s' := by
  cases hedge with
  | opened now plan hphase hplan =>
      refine ⟨h.id_eq, h.input_eq, fun p hp => ?_⟩
      simp only [opened, Option.some.injEq] at hp
      rw [← hp, ← h.input_eq]
      exact hplan
  | assessed forTurnId output now hlive hpending =>
      rw [onAssessmentCompleted, if_neg (not_not.mpr hpending)]
      exact ⟨h.id_eq, h.input_eq, h.plan_eq⟩
  | assessmentFailed forTurnId errorKind now hlive hpending =>
      rw [onAssessmentFailed, if_neg (not_not.mpr hpending)]
      exact ⟨h.id_eq, h.input_eq, h.plan_eq⟩
  | _ => exact ⟨h.id_eq, h.input_eq, h.plan_eq⟩

theorem SessionRun.identity {sessionId : Uuid} {planInput : Dict String Json}
    {ts : List (Taken SessionState Event Command)}
    (h : SessionRun cfg sessionId planInput ts s) : Identity sessionId planInput s :=
  h.invariant (Identity sessionId planInput)
    ⟨rfl, rfl, fun plan hplan => by simp only [initialState, reduceCtorEq] at hplan⟩
    (fun _ _ _ _ ha hab => identity_of_edge ha (edge_of_step hab))

/-- The invariant holds in every reachable state. -/
theorem SessionRun.stateInv {sessionId : Uuid} {planInput : Dict String Json}
    {ts : List (Taken SessionState Event Command)}
    (h : SessionRun cfg sessionId planInput ts s) : StateInv cfg s :=
  h.invariant (StateInv cfg) (stateInv_initialState cfg sessionId planInput)
    (fun _ _ _ _ ha hab => stateInv_of_edge ha (edge_of_step hab))

end Step

/-- A computation that does not raise the state error, whatever else it does. -/
def Sound {α : Type} (x : Except OrchestratorError α) : Prop :=
  ∀ message, x ≠ .error (.stateError message)

theorem Sound.ok {α : Type} (a : α) : Sound (Except.ok a) :=
  fun _ => by simp only [ne_eq, reduceCtorEq, not_false_eq_true]

theorem Sound.overflow {α : Type} : Sound (Except.error .overflowError : Except _ α) :=
  fun _ => by simp only [ne_eq, Except.error.injEq, reduceCtorEq, not_false_eq_true]

theorem Sound.bind {α β : Type} {x : Except OrchestratorError α}
    {f : α → Except OrchestratorError β} (hx : Sound x) (hf : ∀ a, x = .ok a → Sound (f a)) :
    Sound (x >>= f) := by
  cases x with
  | ok a => exact hf a rfl
  | error err =>
      intro message hc
      simp only [Bind.bind, Except.bind, Except.error.injEq] at hc
      exact hx message (by rw [hc])

theorem timedeltaMinutes_sound (n : Int) : Sound (timedeltaMinutes n) := by
  unfold timedeltaMinutes
  split
  · exact Sound.ok _
  · exact Sound.overflow

theorem secondsRemaining_sound (c : PlannedCompetency) (startedAt : Option Instant)
    (now : Instant) : Sound (secondsRemaining c startedAt now) := by
  unfold secondsRemaining
  refine Sound.bind ?_ (fun minutes _ => ?_)
  · unfold pyFloat
    split
    · exact Sound.ok _
    · exact Sound.overflow
  · cases startedAt with
    | none => exact Sound.ok _
    | some t => exact Sound.ok _

theorem candidateTimedOut_sound (s : SessionState) (now : Instant) (cfg : OrchestratorConfig) :
    Sound (candidateTimedOut s now cfg) := by
  unfold candidateTimedOut
  cases s.lastCandidateActivity with
  | none => exact Sound.ok _
  | some t => exact (timedeltaMinutes_sound _).bind (fun _ _ => Sound.ok _)

theorem sessionBudgetExhausted_sound (s : SessionState) (now : Instant) :
    Sound (sessionBudgetExhausted s now) := by
  unfold sessionBudgetExhausted
  cases s.sessionStartedAt with
  | none => exact Sound.ok _
  | some t =>
      cases s.plan with
      | none => exact Sound.ok _
      | some plan => exact (timedeltaMinutes_sound _).bind (fun _ _ => Sound.ok _)

theorem qaBudgetExhausted_sound (s : SessionState) (now : Instant) :
    Sound (qaBudgetExhausted s now) := by
  unfold qaBudgetExhausted
  cases s.qaStartedAt with
  | none => exact Sound.ok _
  | some t =>
      cases s.plan with
      | none => exact Sound.ok _
      | some plan => exact (timedeltaMinutes_sound _).bind (fun _ _ => Sound.ok _)

section NoStateError
variable [Scalars] {cfg : OrchestratorConfig} {s : SessionState}

omit [Scalars] in
theorem requirePlan_of_planned (h : Planned s) : ∃ plan, requirePlan s = .ok plan := by
  rcases Option.isSome_iff_exists.mp h.1 with ⟨plan, hplan⟩
  exact ⟨plan, by rw [requirePlan, hplan]⟩

omit [Scalars] in
theorem currentCompetency_of_inPlan (h : InPlan cfg s) : ∃ c, currentCompetency s = .ok c := by
  rcases h with ⟨plan, c, hplan, hc, _⟩
  refine ⟨c, ?_⟩
  rw [currentCompetency, requirePlan, hplan]
  simp only [bind, Except.bind, hc]

omit [Scalars] in
theorem requirePlan_sound (h : Planned s) : Sound (requirePlan s) := by
  rcases requirePlan_of_planned h with ⟨plan, hplan⟩
  rw [hplan]
  exact Sound.ok plan

omit [Scalars] in
theorem enterQa_sound (h : Planned s) (now : Instant) : Sound (enterQa s now) :=
  (requirePlan_sound h).bind (fun _ _ => Sound.ok _)

omit [Scalars] in
theorem leaveCompetency_sound (h : Planned s) (plan : PlanSnapshot) (c : PlannedCompetency)
    (tech : TechState) (now : Instant) (move : InterviewerMove) (assessor : RunAssessor)
    (tail : List Command) : Sound (leaveCompetency s plan c tech now move assessor tail) := by
  unfold leaveCompetency
  simp only
  split
  · exact (enterQa_sound (s := { s with lastCandidateActivity := some now, tech := tech })
      h now).bind (fun _ _ => Sound.ok _)
  · exact (Sound.ok _).bind (fun _ _ => Sound.ok _)

omit [Scalars] in
theorem onCandidateTurn_sound (h : StateInv cfg s) (turnId : Uuid) (now : Instant) :
    Sound (onCandidateTurn s turnId now cfg) := by
  unfold onCandidateTurn
  cases hphase : s.phase with
  | intro => exact (requirePlan_sound (h.intro hphase).1).bind (fun _ _ => Sound.ok _)
  | tech =>
      rcases h.tech hphase with ⟨hplanned, _, hin⟩
      rcases currentCompetency_of_inPlan hin with ⟨c, hc⟩
      simp only
      split
      · exact Sound.ok _
      · unfold onTechCandidateTurn
        refine (requirePlan_sound hplanned).bind (fun plan _ => ?_)
        refine Sound.bind (by rw [hc]; exact Sound.ok c) (fun c _ => ?_)
        refine (secondsRemaining_sound _ _ _).bind (fun remaining _ => ?_)
        simp only
        split
        · exact Sound.ok _
        · exact leaveCompetency_sound hplanned _ _ _ _ _ _ _
        · split
          · split
            · exact Sound.ok _
            · exact leaveCompetency_sound hplanned _ _ _ _ _ _ _
          · exact leaveCompetency_sound hplanned _ _ _ _ _ _ _
  | qa =>
      refine (qaBudgetExhausted_sound s now).bind (fun exhausted _ => ?_)
      split
      · exact Sound.ok _
      · exact (requirePlan_sound (h.qa hphase).1).bind (fun _ _ => Sound.ok _)
  | created | close | completed | aborted => exact Sound.ok _

omit [Scalars] in
theorem onTimerTick_sound (h : StateInv cfg s) (now : Instant) :
    Sound (onTimerTick s now cfg) := by
  unfold onTimerTick
  refine (candidateTimedOut_sound s now cfg).bind (fun timedOut _ => ?_)
  split
  · exact Sound.ok _
  · cases hphase : s.phase with
    | tech =>
        refine (sessionBudgetExhausted_sound s now).bind (fun exhausted _ => ?_)
        split
        · exact (enterQa_sound (h.tech hphase).1 now).bind (fun _ _ => Sound.ok _)
        · exact Sound.ok _
    | qa =>
        refine (sessionBudgetExhausted_sound s now).bind (fun exhausted _ => ?_)
        split
        · exact Sound.ok _
        · refine (qaBudgetExhausted_sound s now).bind (fun qaExhausted _ => ?_)
          split
          · exact Sound.ok _
          · exact Sound.ok _
    | created | intro | close | completed | aborted => exact Sound.ok _

/-- No transition of a reachable state raises the state error. -/
theorem transition_sound (h : StateInv cfg s) (e : Event) : Sound (transition s e cfg) := by
  unfold transition
  split
  · exact Sound.ok _
  · cases e with
    | candidateTurnReceived turnId text now =>
        simp only
        split
        · exact Sound.ok _
        · exact onCandidateTurn_sound h turnId now
    | timerTick now => exact onTimerTick_sound h now
    | sessionStarted now => simp only; split <;> exact Sound.ok _
    | interviewerReplyReady turnId output now => simp only; split <;> exact Sound.ok _
    | interviewerFailed turnId errorKind now => simp only; split <;> exact Sound.ok _
    | assessmentCompleted forTurnId output now => exact Sound.ok _
    | assessmentFailed forTurnId errorKind now => exact Sound.ok _
    | operatorAbort reason now => exact Sound.ok _
    | reconnected now => exact Sound.ok _

end NoStateError

/-- Every state that a session reaches keeps what its phase promises, and no
    event that is fed to it next raises the state error. -/
theorem reachable_states [Scalars] (cfg : OrchestratorConfig) (sessionId : Uuid)
    (planInput : Dict String Json) (ts : List (Taken SessionState Event Command))
    (s : SessionState) (h : SessionRun cfg sessionId planInput ts s) :
    StateInv cfg s ∧ ∀ e message, transition s e cfg ≠ .error (.stateError message) :=
  ⟨h.stateInv, fun e => transition_sound h.stateInv e⟩

section SmallInterview

/-- A competency of five minutes with one probe branch. -/
def smallCompetency (node : NonEmptyStr) (seeds : List NonEmptyStr) (h : seeds ≠ []) :
    PlannedCompetency :=
  ⟨node, node, 2, 5, seeds, [⟨"Why?", by decide⟩], by decide, by decide, by decide, h⟩

theorem smallVersion_ge : (1 : Int) ≤ 1 := by decide

/-- A plan of two competencies, the second with two seeds. -/
def smallPlan : PlanSnapshot where
  planVersion := 1
  competencies :=
    [smallCompetency ⟨"sql", by decide⟩ [⟨"Joins?", by decide⟩] (by decide),
      smallCompetency ⟨"api", by decide⟩ [⟨"REST?", by decide⟩, ⟨"Errors?", by decide⟩]
        (by decide)]
  qaMinutes := 5
  sessionMaxMinutes := 8
  planVersion_ge := smallVersion_ge
  competencies_ne := by decide
  qaMinutes_ge := by decide
  sessionMaxMinutes_ge := by decide

/-- The plan as the session row holds it. -/
def smallInput : Dict String Json :=
  ⟨[("plan_version", .int smallPlan.planVersion),
    ("competencies",
      .arr (smallPlan.competencies.map (@PlannedCompetency.dump Scalars.strict))),
    ("qa_minutes", .int smallPlan.qaMinutes),
    ("session_max_minutes", .int smallPlan.sessionMaxMinutes)], by decide⟩

def smallId : Uuid := ⟨1⟩

/-- The identifier of an outbound turn of the small interview. -/
def smallTurn (n : Int) : Uuid := deriveTurnId smallId (turnPath n)

/-- The level an answer is assessed at. -/
theorem smallLevel_lt : 3 < 6 := by decide

def smallLevel : Fin 6 := ⟨3, smallLevel_lt⟩

/-- An interview up to the first answer of its second competency. -/
def smallEvents : List Event :=
  [.sessionStarted 0, .candidateTurnReceived ⟨100⟩ "ready" 1000000,
    .interviewerReplyReady (smallTurn 1) ⟨"Joins?", .askSeed⟩ 2000000,
    .candidateTurnReceived ⟨101⟩ "an answer" 3000000,
    .interviewerReplyReady (smallTurn 2) ⟨"Why?", .depthProbe⟩ 4000000,
    .assessmentCompleted ⟨101⟩
      ⟨⟨101⟩, smallId, "sql", [⟨"sql", smallLevel, 9 / 10, "", []⟩], [], false, none⟩ 5000000,
    .candidateTurnReceived ⟨102⟩ "another" 6000000]

abbrev SmallRun : List (Taken SessionState Event Command) → SessionState → Prop :=
  @SessionRun Scalars.strict OrchestratorConfig.committed smallId smallInput

abbrev smallRecord (es : List Event) :
    Except OrchestratorError (List (Taken SessionState Event Command) × SessionState) :=
  record (@step Scalars.strict OrchestratorConfig.committed)
    (initialState smallId smallInput OrchestratorConfig.committed) es

theorem reachable_states_small : ∃ ts s, SmallRun ts s ∧ s.phase = .tech ∧
    s.tech.competencyIndex = 1 ∧ StateInv OrchestratorConfig.committed s ∧
    ∀ e message, @transition Scalars.strict s e OrchestratorConfig.committed
      ≠ .error (.stateError message) := by
  have hrec : (smallRecord smallEvents).map (fun r => (r.2.phase, r.2.tech.competencyIndex))
      = .ok (.tech, 1) := by decide +kernel
  rcases exists_run_of_record _ _ _ _ _ hrec with ⟨ts, s, hrun, hproj⟩
  simp only [Prod.mk.injEq] at hproj
  exact ⟨ts, s, hrun, hproj.1, hproj.2, @reachable_states Scalars.strict _ _ _ ts s hrun⟩

end SmallInterview

end TechScreen
