import TechScreen.Orchestrator.Invariant

/-!
# The Bound on the Technical Phase

However the models answer, the technical phase takes no more answers than the
plan has seeds and the configuration has probes. A competency that was just
entered can take one answer for each of its seeds and one for each probe it may
be given; a probe uses up one, moving on to the next seed uses up one, and
leaving the competency gives up whatever is left of it.

`answersLeft` is that count, over the current competency and the ones after it.
Each accepted answer lowers it and nothing raises it, so `Run.cost_le` turns it
into the bound. The moves are bounded with the same count: an answer that is
still to come stands for one move and one retry of it.

## Main definitions

* `answersOf`: The answers one competency can take.
* `answerBudget`: The answers a plan can take.
* `answersLeft`: The answers a session can still take.
* `moveCredit`: What the move in flight can still cost.
* `assessors`: The assessments scheduled by some commands.
* `techMoves`: The moves a step issued in the technical phase.
* `BudgetLaw`: What one step does to all of them.

## Theorems

* `budgetLaw_of_edge`: Every edge obeys the law.
* `tech_bounded`: The bounds over a whole session.
-/

namespace TechScreen

open Lib

/-- One answer for each seed and one for each probe. -/
def answersOf (cfg : OrchestratorConfig) (c : PlannedCompetency) : Nat :=
  c.seedQuestionsUk.length + cfg.adjudication.maxProbesPerCompetency.toNat

/-- The answers that a list of competencies can take. -/
def answersIn (cfg : OrchestratorConfig) (cs : List PlannedCompetency) : Nat :=
  (cs.map (answersOf cfg)).sum

/-- The answers that a plan can take. -/
def answerBudget (cfg : OrchestratorConfig) (plan : PlanSnapshot) : Nat :=
  answersIn cfg plan.competencies

/-- The answers left in the technical phase: what is left of the competency it
    is on, and all of the later ones. -/
def answersLeftInTech (cfg : OrchestratorConfig) (plan : PlanSnapshot) (tech : TechState) : Nat :=
  match plan.competency tech.competencyIndex with
  | some c =>
      (c.seedQuestionsUk.length - tech.seedIndex).toNat
        + (cfg.adjudication.maxProbesPerCompetency - tech.probesUsed).toNat
        + answersIn cfg (plan.competencies.drop (tech.competencyIndex.toNat + 1))
  | none => 0

/-- The answers a session can still take. -/
def answersLeft (cfg : OrchestratorConfig) (plan : PlanSnapshot) (s : SessionState) : Nat :=
  match s.phase with
  | .created => answerBudget cfg plan
  | .intro => answerBudget cfg plan
  | .tech => answersLeftInTech cfg plan s.tech
  | .qa => 0
  | .close => 0
  | .completed => 0
  | .aborted => 0

/-- The moves that no further answer has to pay for: the first seed with its
    retry, and the retry of the move in flight. -/
def moveCredit (s : SessionState) : Nat :=
  match s.phase with
  | .created => 2
  | .intro => 2
  | .tech => if s.awaiting = some .interviewer ∧ s.interviewerFailureStreak = 0 then 1 else 0
  | .qa => 0
  | .close => 0
  | .completed => 0
  | .aborted => 0

def Command.isRunAssessor : Command → Bool
  | .runAssessor _ => true
  | _ => false

def Command.isRunInterviewer : Command → Bool
  | .runInterviewer _ => true
  | _ => false

/-- The assessments that some commands schedule. -/
def assessors (out : List Command) : Nat := out.countP Command.isRunAssessor

/-- The moves that some commands issue, retries included. -/
def moves (out : List Command) : Nat := out.countP Command.isRunInterviewer

/-- The moves that a step from or into the technical phase issued. -/
def techMoves (t : Taken SessionState Event Command) : Nat :=
  if t.before.phase = .tech ∨ t.after.phase = .tech then moves t.out else 0

/-- A step takes an answer in the technical phase. -/
def acceptedAnswer (t : Taken SessionState Event Command) : Nat :=
  if awaitsAnswer t.before t.event then 1 else 0

/-- What one step does to the answers that are left and to the moves that are
    paid for. -/
structure BudgetLaw (cfg : OrchestratorConfig) (plan : PlanSnapshot) (s : SessionState)
    (e : Event) (s' : SessionState) (out : List Command) : Prop where
  scheduled : assessors out = acceptedAnswer ⟨s, e, s', out⟩
  answers : answersLeft cfg plan s' + acceptedAnswer ⟨s, e, s', out⟩ ≤ answersLeft cfg plan s
  issued : 2 * answersLeft cfg plan s' + moveCredit s' + techMoves ⟨s, e, s', out⟩
    ≤ 2 * answersLeft cfg plan s + moveCredit s

section Counting
variable {cfg : OrchestratorConfig} {plan : PlanSnapshot} {s s' : SessionState} {e : Event}
  {out : List Command}

/-- The current competency and the later ones. -/
theorem answersIn_drop {index : Int} {c : PlannedCompetency}
    (h : plan.competency index = some c) :
    answersIn cfg (plan.competencies.drop index.toNat)
      = answersOf cfg c + answersIn cfg (plan.competencies.drop (index.toNat + 1)) := by
  rcases (plan.competency_eq_some_iff index c).mp h with ⟨_, hget⟩
  rcases List.getElem?_eq_some_iff.mp hget with ⟨hlt, hc⟩
  rw [List.drop_eq_getElem_cons hlt, hc, answersIn, List.map_cons, List.sum_cons, ← answersIn]

theorem answersLeft_tech (hphase : s.phase = .tech) :
    answersLeft cfg plan s = answersLeftInTech cfg plan s.tech := by
  rw [answersLeft, hphase]

/-- A competency that was just entered has all its answers left. -/
theorem answersLeftInTech_entered {tech : TechState} {c : PlannedCompetency}
    (h : plan.competency tech.competencyIndex = some c) (hseed : tech.seedIndex = 0)
    (hprobes : tech.probesUsed = 0) :
    answersLeftInTech cfg plan tech
      = answersIn cfg (plan.competencies.drop tech.competencyIndex.toNat) := by
  rw [answersIn_drop h]
  simp only [answersLeftInTech, h, answersOf, hseed, hprobes]
  omega

theorem acceptedAnswer_of_awaits (h : awaitsAnswer s e = true) :
    acceptedAnswer ⟨s, e, s', out⟩ = 1 := by
  rw [acceptedAnswer, if_pos h]

theorem acceptedAnswer_of_idle (h : awaitsAnswer s e = false) :
    acceptedAnswer ⟨s, e, s', out⟩ = 0 := by
  rw [acceptedAnswer, h, if_neg Bool.false_ne_true]

theorem awaitsAnswer_of_phase (h : s.phase ≠ .tech) : awaitsAnswer s e = false := by
  rw [awaitsAnswer, decide_eq_false h, Bool.false_and, Bool.false_and]

theorem awaitsAnswer_of_tech {turnId : Uuid} {text : String} {now : Instant}
    (hphase : s.phase = .tech) (hawaiting : s.awaiting = some .candidate) :
    awaitsAnswer s (.candidateTurnReceived turnId text now) = true := by
  rw [awaitsAnswer, decide_eq_true hphase, decide_eq_true hawaiting]
  rfl

theorem techMoves_le (t : Taken SessionState Event Command) : techMoves t ≤ moves t.out := by
  unfold techMoves
  split
  · exact Nat.le_refl _
  · exact Nat.zero_le _

/-- A step that takes no answer and issues no move only has to spend what was
    left. -/
theorem BudgetLaw.quiet (hidle : awaitsAnswer s e = false) (hassessors : assessors out = 0)
    (hmoves : moves out = 0) (hanswers : answersLeft cfg plan s' ≤ answersLeft cfg plan s)
    (hcredit : moveCredit s' ≤ moveCredit s) : BudgetLaw cfg plan s e s' out where
  scheduled := by rw [hassessors, acceptedAnswer_of_idle hidle]
  answers := by rw [acceptedAnswer_of_idle hidle]; omega
  issued := by
    have hzero := techMoves_le ⟨s, e, s', out⟩
    simp only [hmoves] at hzero
    omega

/-- A step that takes no answer and issues one move, which was paid for. -/
theorem BudgetLaw.spend (hidle : awaitsAnswer s e = false) (hassessors : assessors out = 0)
    (hmoves : moves out = 1) (hanswers : answersLeft cfg plan s' ≤ answersLeft cfg plan s)
    (hcredit : 2 * answersLeft cfg plan s' + moveCredit s' + 1
      ≤ 2 * answersLeft cfg plan s + moveCredit s) : BudgetLaw cfg plan s e s' out where
  scheduled := by rw [hassessors, acceptedAnswer_of_idle hidle]
  answers := by rw [acceptedAnswer_of_idle hidle]; omega
  issued := by
    have hone := techMoves_le ⟨s, e, s', out⟩
    simp only [hmoves] at hone
    omega

/-- A step outside the technical phase. -/
theorem BudgetLaw.outside (hbefore : s.phase ≠ .tech) (hafter : s'.phase ≠ .tech)
    (hassessors : assessors out = 0)
    (hanswers : answersLeft cfg plan s' ≤ answersLeft cfg plan s)
    (hcredit : moveCredit s' ≤ moveCredit s) : BudgetLaw cfg plan s e s' out where
  scheduled := by rw [hassessors, acceptedAnswer_of_idle (awaitsAnswer_of_phase hbefore)]
  answers := by rw [acceptedAnswer_of_idle (awaitsAnswer_of_phase hbefore)]; omega
  issued := by
    have hzero : techMoves ⟨s, e, s', out⟩ = 0 := by
      rw [techMoves, if_neg (fun hc => hc.elim hbefore hafter)]
    omega

/-- An answer that is accepted: at least one answer fewer is left, and of the
    two moves it stood for one is issued and one is kept for its retry. -/
theorem BudgetLaw.answered (hawaits : awaitsAnswer s e = true) (hassessors : assessors out = 1)
    (hmoves : moves out = 1) (hanswers : answersLeft cfg plan s' + 1 ≤ answersLeft cfg plan s)
    (hcredit : moveCredit s' ≤ 1) : BudgetLaw cfg plan s e s' out where
  scheduled := by rw [hassessors, acceptedAnswer_of_awaits hawaits]
  answers := by rw [acceptedAnswer_of_awaits hawaits]; exact hanswers
  issued := by
    have hone := techMoves_le ⟨s, e, s', out⟩
    simp only [hmoves] at hone
    omega

theorem moveCredit_tech_le (hphase : s.phase = .tech) : moveCredit s ≤ 1 := by
  rw [moveCredit, hphase]
  simp only
  split
  · exact Nat.le_refl 1
  · exact Nat.zero_le 1

end Counting

section Law
variable {cfg : OrchestratorConfig} {plan : PlanSnapshot} {s : SessionState} {now : Instant}

/-- What is left while an answer is decided. -/
theorem answersLeft_of_answer (a : Answer s now) (hplan : a.plan = plan)
    (hphase : s.phase = .tech) :
    answersLeft cfg plan s = (a.competency.seedQuestionsUk.length - s.tech.seedIndex).toNat
      + (cfg.adjudication.maxProbesPerCompetency - s.tech.probesUsed).toNat
      + answersIn cfg (plan.competencies.drop (s.tech.competencyIndex.toNat + 1)) := by
  have hc := a.hcompetency
  rw [hplan] at hc
  rw [answersLeft_tech hphase]
  simp only [answersLeftInTech, hc]

/-- Leaving a competency issues one assessment and one move, whatever it
    records. -/
theorem assessors_leaving (a : Answer s now) (assessor : RunAssessor)
    (interviewer : RunInterviewer) :
    assessors (.runAssessor assessor :: .runInterviewer interviewer
      :: (a.gap cfg ++ [.persistState])) = 1 := by
  unfold Answer.gap
  split
  · rfl
  · rfl

theorem moves_leaving (a : Answer s now) (assessor : RunAssessor)
    (interviewer : RunInterviewer) :
    moves (.runAssessor assessor :: .runInterviewer interviewer
      :: (a.gap cfg ++ [.persistState])) = 1 := by
  unfold Answer.gap
  split
  · rfl
  · rfl

/-- Every edge obeys the law. -/
theorem budgetLaw_of_edge [Scalars] {s' : SessionState} {e : Event} {out : List Command}
    (h : StateInv cfg s) (hplan : ∀ p, s.plan = some p → p = plan)
    (hedge : Edge cfg s e s' out) : BudgetLaw cfg plan s e s' out := by
  cases hedge with
  | ignored e hidle =>
      exact BudgetLaw.quiet hidle rfl rfl (Nat.le_refl _) (Nat.le_refl _)
  | opened now p hphase hvalid =>
      refine BudgetLaw.outside (by rw [hphase]; decide) (by simp only [opened]; decide) rfl ?_ ?_
      · simp only [answersLeft, opened, hphase, Nat.le_refl]
      · simp only [moveCredit, opened, hphase, Nat.le_refl]
  | entered turnId text now p hphase hp =>
      -- The whole budget of answers is ahead, and the introduction pays for the first move.
      have hidle : awaitsAnswer s (.candidateTurnReceived turnId text now) = false :=
        awaitsAnswer_of_phase (by rw [hphase]; decide)
      have hbefore : answersLeft cfg plan s = answerBudget cfg plan := by
        rw [answersLeft, hphase]
      have hcredit : moveCredit s = 2 := by rw [moveCredit, hphase]
      have hafter : answersLeftInTech cfg plan (entered s now).tech = answerBudget cfg plan :=
        answersLeftInTech_entered plan.competency_zero rfl rfl
      have hleft : answersLeft cfg plan (issueInterviewer (entered s now) .askSeed
          (some p.firstCompetency.nodeId) (firstSeedContext p.firstCompetency)).1
          = answerBudget cfg plan := by
        rw [answersLeft_tech rfl]
        exact hafter
      have hflight := moveCredit_tech_le (s := (issueInterviewer (entered s now) .askSeed
        (some p.firstCompetency.nodeId) (firstSeedContext p.firstCompetency)).1) rfl
      exact BudgetLaw.spend hidle rfl rfl (by omega) (by omega)
  | probed turnId text now a hphase hawaiting hclarify hprobes =>
      have hp := hplan a.plan a.hplan
      have hc := a.hcompetency
      -- A probe uses up one answer of the competency.
      rcases a.inPlan (h.tech hphase).2.2 with ⟨h1, h2, h3, h4⟩
      refine BudgetLaw.answered (awaitsAnswer_of_tech hphase hawaiting) rfl rfl ?_
        (moveCredit_tech_le hphase)
      rw [answersLeft_of_answer a hp hphase]
      rw [hp] at hc
      simp only [answersLeft, answersLeftInTech, probeCompetency, issueInterviewer, hphase,
        Answer.scheduled, scheduleAssessment, hc]
      omega
  | seeded turnId text now a seed hphase hawaiting hanswered hseed =>
      have hp := hplan a.plan a.hplan
      have hc := a.hcompetency
      rcases a.inPlan (h.tech hphase).2.2 with ⟨h1, h2, h3, h4⟩
      refine BudgetLaw.answered (awaitsAnswer_of_tech hphase hawaiting) rfl rfl ?_
        (moveCredit_tech_le hphase)
      rw [answersLeft_of_answer a hp hphase]
      rw [hp] at hc
      simp only [answersLeft, answersLeftInTech, advanceSeed, issueInterviewer, hphase,
        Answer.scheduled, scheduleAssessment, hc]
      omega
  | advanced turnId text now a following hphase hawaiting hleaves hnext =>
      have hp := hplan a.plan a.hplan
      rcases a.inPlan (h.tech hphase).2.2 with ⟨h1, h2, h3, h4⟩
      have hindex := a.leaving_competencyIndex cfg turnId
      have hzero := ((plan.competency_eq_some_iff _ _).mp (hp ▸ a.hcompetency)).1
      refine BudgetLaw.answered (awaitsAnswer_of_tech hphase hawaiting)
        (assessors_leaving a _ _) (moves_leaving a _ _) ?_ (moveCredit_tech_le hphase)
      -- The answers left are those of the competencies that follow.
      have hafter : answersLeftInTech cfg plan (advanced s (a.leaving cfg turnId) now).tech
          = answersIn cfg (plan.competencies.drop (s.tech.competencyIndex + 1).toNat) := by
        rw [hp] at hnext
        rw [← hindex] at hnext ⊢
        exact answersLeftInTech_entered hnext rfl rfl
      rw [answersLeft_of_answer a hp hphase]
      have hnat : (s.tech.competencyIndex + 1).toNat = s.tech.competencyIndex.toNat + 1 := by
        omega
      rw [hnat] at hafter
      have hstill : (advanced s (a.leaving cfg turnId) now).phase = .tech := hphase
      simp only [answersLeft, issueInterviewer, hstill, hafter]
      omega
  | finished turnId text now a hphase hawaiting hleaves hlast =>
      have hp := hplan a.plan a.hplan
      rcases a.inPlan (h.tech hphase).2.2 with ⟨h1, h2, h3, h4⟩
      refine BudgetLaw.answered (awaitsAnswer_of_tech hphase hawaiting)
        (assessors_leaving a _ _) (moves_leaving a _ _) ?_ (Nat.zero_le 1)
      rw [answersLeft_of_answer a hp hphase]
      simp only [answersLeft, issueInterviewer, inQa]
      omega
  | cutShort now p hphase hp hover =>
      -- The competency in progress has an answer left, which pays for the move into Q&A.
      have hleft : 1 ≤ answersLeft cfg plan s := by
        rcases (h.tech hphase).2.2 with ⟨q, c, hq, hc, h1, h2, _⟩
        rw [hplan q hq] at hc
        rw [answersLeft_tech hphase]
        simp only [answersLeftInTech, hc]
        omega
      have hidle := awaitsAnswer_eq_false s (.timerTick now) rfl
      refine BudgetLaw.spend hidle rfl rfl (Nat.zero_le _) ?_
      change 2 * 0 + 0 + 1 ≤ 2 * answersLeft cfg plan s + moveCredit s
      omega
  | asked turnId text now p hphase hp =>
      refine BudgetLaw.outside (by rw [hphase]; decide)
        (by simp only [issueInterviewer, hphase]; decide) rfl ?_ ?_
      · simp only [answersLeft, issueInterviewer, hphase, Nat.le_refl]
      · simp only [moveCredit, issueInterviewer, hphase, Nat.le_refl]
  | closed e activity hphase =>
      exact BudgetLaw.outside (by rw [hphase]; decide) (by simp only [enterClose]; decide) rfl
        (Nat.zero_le _) (Nat.zero_le _)
  | completed e hphase =>
      exact BudgetLaw.outside (by rw [hphase]; decide) (by simp only [complete]; decide) rfl
        (Nat.zero_le _) (Nat.zero_le _)
  | aborted e reason decision persist hlive hturn =>
      refine BudgetLaw.quiet (awaitsAnswer_eq_false s e hturn) ?_ ?_ (Nat.zero_le _)
        (Nat.zero_le _)
      · cases persist with
        | true => rfl
        | false => rfl
      · cases persist with
        | true => rfl
        | false => rfl
  | delivered turnId output now hphase hawaiting hpending =>
      rcases noteDrift_fst s output.internalMoveExecuted cfg with ⟨drift, hdrift⟩
      refine BudgetLaw.quiet (awaitsAnswer_eq_false s _ rfl) rfl rfl ?_ ?_
      · simp only [answersLeft, answersLeftInTech, delivered, hdrift, Nat.le_refl]
      · rcases hphase with ht | hq
        · simp only [moveCredit, delivered, ht, Option.some.injEq, reduceCtorEq, false_and,
            if_false, Nat.zero_le]
        · simp only [moveCredit, delivered, hq, Nat.le_refl]
  | retried turnId errorKind now pending hphase hawaiting hpending hid hstreak =>
      have hidle := awaitsAnswer_eq_false s (.interviewerFailed turnId errorKind now) rfl
      have hzero : s.interviewerFailureStreak = 0 := by
        have hnonneg := h.streak
        omega
      rcases hphase with ht | hq
      · -- In TECH the retry is paid for by the credit of the move in flight.
        have hcredit : moveCredit s = 1 := by
          rw [moveCredit, ht]
          simp only [hawaiting, hzero, and_self, if_true]
        refine BudgetLaw.spend hidle rfl rfl (Nat.le_refl _) ?_
        rw [hcredit]
        simp only [answersLeft, moveCredit, ht, hzero, Int.zero_add, Int.reduceEq, and_false,
          if_false, Nat.add_zero, Nat.le_refl]
      · -- In Q&A moves are not counted.
        refine BudgetLaw.outside (by rw [hq]; decide) (by simp only [hq]; decide) rfl ?_ ?_
        · simp only [answersLeft, hq, Nat.le_refl]
        · simp only [moveCredit, hq, Nat.le_refl]
  | assessed forTurnId output now hlive hpending =>
      refine BudgetLaw.quiet (awaitsAnswer_eq_false s _ rfl) rfl rfl ?_ ?_
      · rw [onAssessmentCompleted, if_neg (not_not.mpr hpending)]
        exact Nat.le_refl _
      · rw [onAssessmentCompleted, if_neg (not_not.mpr hpending)]
        exact Nat.le_refl _
  | assessmentFailed forTurnId errorKind now hlive hpending =>
      rw [onAssessmentFailed, if_neg (not_not.mpr hpending)]
      refine BudgetLaw.quiet (awaitsAnswer_eq_false s _ rfl) rfl rfl ?_ (Nat.le_refl _)
      cases s.tech.assessmentFocus.get? forTurnId with
      | none => exact Nat.le_refl _
      | some node => exact Nat.le_refl _
  | reconnected now hlive =>
      unfold onReconnected
      cases s.pendingCommand with
      | none =>
          exact BudgetLaw.quiet (awaitsAnswer_eq_false s _ rfl) rfl rfl (Nat.le_refl _)
            (Nat.le_refl _)
      | some c =>
          exact BudgetLaw.quiet (awaitsAnswer_eq_false s _ rfl) rfl rfl (Nat.le_refl _)
            (Nat.le_refl _)

theorem budgetLaw_of_step [Scalars] {sessionId : Uuid} {planInput : Dict String Json}
    {s' : SessionState} {e : Event} {out : List Command}
    (hvalid : PlanSnapshot.validatePlan (.obj planInput.entries) = .ok plan)
    (h : StateInv cfg s) (hid : Identity sessionId planInput s)
    (hstep : step cfg s e = .ok (s', out)) : BudgetLaw cfg plan s e s' out := by
  refine budgetLaw_of_edge h (fun p hp => ?_) (edge_of_step hstep)
  have hsame := hid.plan_eq p hp
  rw [hvalid, Except.ok.injEq] at hsame
  exact hsame.symm

end Law

/-- The assessments of a run are the answers it accepted. -/
theorem assessors_outputs [Scalars] {cfg : OrchestratorConfig} {plan : PlanSnapshot}
    {sessionId : Uuid} {planInput : Dict String Json}
    {ts : List (Taken SessionState Event Command)} {s : SessionState}
    (hvalid : PlanSnapshot.validatePlan (.obj planInput.entries) = .ok plan)
    (h : SessionRun cfg sessionId planInput ts s) :
    assessors (outputs ts) = (ts.map acceptedAnswer).sum := by
  induction h with
  | nil => rfl
  | snoc ts a b e out hrun hab ih =>
      have hlaw := budgetLaw_of_step hvalid (SessionRun.stateInv hrun)
        (SessionRun.identity hrun) hab
      rw [outputs_snoc, assessors, List.countP_append, ← assessors, ← assessors, ih,
        hlaw.scheduled, List.map_append, List.sum_append, List.map_singleton, List.sum_singleton]

/-- However the models answer and whatever arrives late, twice or not at all,
    the technical phase accepts at most one answer for each planned seed and
    each allowed probe, schedules one assessment for each of them, and issues
    at most two moves for each and for the first seed. -/
theorem tech_bounded [Scalars] (cfg : OrchestratorConfig) (sessionId : Uuid)
    (planInput : Dict String Json) (plan : PlanSnapshot)
    (hvalid : PlanSnapshot.validatePlan (.obj planInput.entries) = .ok plan)
    (ts : List (Taken SessionState Event Command)) (s : SessionState)
    (h : SessionRun cfg sessionId planInput ts s) :
    (ts.map acceptedAnswer).sum ≤ answerBudget cfg plan ∧
    assessors (outputs ts) ≤ answerBudget cfg plan ∧
    (ts.map techMoves).sum ≤ 2 * (answerBudget cfg plan + 1) := by
  have hstep : ∀ a e b out, StateInv cfg a ∧ Identity sessionId planInput a →
      step cfg a e = .ok (b, out) → StateInv cfg b ∧ Identity sessionId planInput b :=
    fun a e b out ha hab => ⟨stateInv_of_edge ha.1 (edge_of_step hab),
      identity_of_edge ha.2 (edge_of_step hab)⟩
  have hstart : StateInv cfg (initialState sessionId planInput cfg) ∧
      Identity sessionId planInput (initialState sessionId planInput cfg) :=
    ⟨SessionRun.stateInv Run.nil, SessionRun.identity Run.nil⟩
  have hanswers := h.cost_le (fun a => StateInv cfg a ∧ Identity sessionId planInput a)
    (answersLeft cfg plan) acceptedAnswer hstart hstep
    (fun a e b out ha hab => (budgetLaw_of_step hvalid ha.1 ha.2 hab).answers)
  have hmoves := h.cost_le (fun a => StateInv cfg a ∧ Identity sessionId planInput a)
    (fun a => 2 * answersLeft cfg plan a + moveCredit a) techMoves hstart hstep
    (fun a e b out ha hab => (budgetLaw_of_step hvalid ha.1 ha.2 hab).issued)
  have hleft : answersLeft cfg plan (initialState sessionId planInput cfg)
      = answerBudget cfg plan := rfl
  have hcredit : moveCredit (initialState sessionId planInput cfg) = 2 := rfl
  rw [hleft] at hanswers
  simp only [hleft, hcredit] at hmoves
  rw [assessors_outputs hvalid h]
  exact ⟨by omega, by omega, by omega⟩

theorem tech_bounded_small : ∃ ts s, SmallRun ts s ∧ (ts.map acceptedAnswer).sum = 2 ∧
    (ts.map acceptedAnswer).sum ≤ answerBudget OrchestratorConfig.committed smallPlan ∧
    answerBudget OrchestratorConfig.committed smallPlan = 7 ∧
    (ts.map techMoves).sum ≤ 16 := by
  have hrec : (smallRecord smallEvents).map (fun r => (r.1.map acceptedAnswer).sum) = .ok 2 := by
    decide +kernel
  have hvalid : @PlanSnapshot.validatePlan Scalars.strict (.obj smallInput.entries)
      = .ok smallPlan := by decide +kernel
  rcases exists_run_of_record _ _ _ _ _ hrec with ⟨ts, s, hrun, hproj⟩
  have hall := @tech_bounded Scalars.strict _ _ _ smallPlan hvalid ts s hrun
  exact ⟨ts, s, hrun, hproj, hall.1, rfl, hall.2.2⟩

end TechScreen
