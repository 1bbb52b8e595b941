import TechScreen.Orchestrator.Budget
import TechScreen.Orchestrator.Phases

/-!
# Traversing the Plan

The technical phase visits the planned competencies in their order, skipping
none and returning to none. A visit and an exit are read off a step's two
states, so the route of a run is a list that grows by what each step adds; that
the route is always an initial segment of the plan is an induction on the run.

An answer that leaves a competency says so with one move, and it records a gap
exactly when the adjudication came to `NONE`. The marker of the gap is one the
coverage bears out, because the rows of the table are guarded by the very facts
that the markers state, and the one marker that is not there yet is written by
the transition itself.

## Main definitions

* `visit`, `exit`: What a step adds to the route.
* `BorneOut`: A coverage cell bears out a gap marker.
* `CutShort`: The session budget ran out in the technical phase.
* `ExitLaw`: What an answer that leaves a competency emits.
* `Route`: The route of a run, phase by phase.

## Theorems

* `indexStep_of_edge`: What an edge does to the position in the plan.
* `exitLaw_of_answer`: An answer that leaves a competency obeys the law.
* `SessionRun.route`: The route over a run.
* `plan_traversal`: The whole of it.
-/

namespace TechScreen

open Lib

/-- The competency that a step enters. -/
def visit (t : Taken SessionState Event Command) : List Int :=
  if t.after.phase = .tech ∧
      ¬ (t.before.phase = .tech ∧ t.before.tech.competencyIndex = t.after.tech.competencyIndex)
    then [t.after.tech.competencyIndex] else []

/-- The competency that a step leaves. -/
def exit (t : Taken SessionState Event Command) : List Int :=
  if t.before.phase = .tech ∧
      ¬ (t.after.phase = .tech ∧ t.before.tech.competencyIndex = t.after.tech.competencyIndex)
    then [t.before.tech.competencyIndex] else []

/-- The competencies a run entered, in order. -/
def visits (ts : List (Taken SessionState Event Command)) : List Int := ts.flatMap visit

/-- The competencies a run left, in order. -/
def exits (ts : List (Taken SessionState Event Command)) : List Int := ts.flatMap exit

/-- The first `n` positions of a plan. -/
def positions (n : Nat) : List Int := (List.range n).map Int.ofNat

theorem positions_succ (n : Nat) : positions (n + 1) = positions n ++ [(n : Int)] := by
  rw [positions, List.range_succ, List.map_append]
  rfl

theorem positions_nodup (n : Nat) : (positions n).Nodup :=
  List.nodup_range.map (fun _ _ h => Int.ofNat.inj h)

/-- A coverage cell bears out a gap marker. -/
def BorneOut (marker : GapMarker) (cell : Option CoverageCell) : Prop :=
  match marker with
  | .levelZero => ∃ c, cell = some c ∧ c.latestLevel = some 0
  | .gapNotAssessable => ∃ c, cell = some c ∧ c.gapNotAssessable = true
  | .gapBudgetExhausted => ∃ c, cell = some c ∧ c.gapBudgetExhausted = true
  | .assessmentFailed => False

/-- Edge 14: a tick found the session budget exhausted in the technical phase. -/
def CutShort (t : Taken SessionState Event Command) : Prop :=
  t.before.phase = .tech ∧ t.after.phase = .qa ∧
    ∃ now, t.event = .timerTick now ∧ sessionBudgetExhausted t.before now = .ok true

/-- What an answer that leaves a competency emits. -/
def ExitLaw (cfg : OrchestratorConfig) (t : Taken SessionState Event Command) : Prop :=
  ∃ turnId text now, t.event = .candidateTurnReceived turnId text now ∧
    ∃ a : Answer t.before now, moves t.out = 1 ∧
      ((∃ g, .recordGap g ∈ t.out) ↔ (a.verdict cfg).verdict = .none) ∧
      ∀ g, .recordGap g ∈ t.out → g.nodeId = a.competency.nodeId.val ∧
        BorneOut g.marker (t.after.tech.coverage.get? g.nodeId)

/-- What one step does to the position in the plan. -/
inductive IndexStep (plan : PlanSnapshot) (t : Taken SessionState Event Command) : Prop
  | stays (hphase : t.before.phase = .tech) (hafter : t.after.phase = .tech)
      (hindex : t.after.tech.competencyIndex = t.before.tech.competencyIndex)
  | elsewhere (hphase : t.before.phase ≠ .tech) (hafter : t.after.phase ≠ .tech)
  | enters (hphase : t.before.phase = .intro) (hafter : t.after.phase = .tech)
      (hindex : t.after.tech.competencyIndex = 0)
  | advances (hphase : t.before.phase = .tech) (hafter : t.after.phase = .tech)
      (hindex : t.after.tech.competencyIndex = t.before.tech.competencyIndex + 1)
  | finishes (hphase : t.before.phase = .tech) (hafter : t.after.phase = .qa)
      (hturn : t.event.isCandidateTurn = true)
      (hlast : t.before.tech.competencyIndex + 1 = plan.competencies.length)
  | cut (hcut : CutShort t)
  | aborts (hphase : t.before.phase = .tech) (hafter : t.after.phase = .aborted)
      (hidle : t.event.isCandidateTurn = false)

section Steps
variable {cfg : OrchestratorConfig} {plan : PlanSnapshot} {s s' : SessionState} {e : Event}
  {out : List Command}

/-- The position after the last one is the first without a competency. -/
theorem last_of_competency {index : Int} {c : PlannedCompetency}
    (hc : plan.competency index = some c) (hnext : plan.competency (index + 1) = none) :
    index + 1 = plan.competencies.length := by
  rcases (plan.competency_eq_some_iff index c).mp hc with ⟨hzero, hget⟩
  have hlt := (List.getElem?_eq_some_iff.mp hget).1
  have hge : (plan.competencies.length : Int) ≤ index + 1 := by
    by_contra hlt'
    have hnat : (index + 1).toNat < plan.competencies.length := by omega
    have hsome := (plan.competency_eq_some_iff (index + 1) plan.competencies[(index + 1).toNat]).mpr
      ⟨by omega, List.getElem?_eq_getElem hnat⟩
    rw [hnext] at hsome
    simp only [reduceCtorEq] at hsome
  omega

/-- What an edge does to the position in the plan. -/
theorem indexStep_of_edge [Scalars] (hplan : ∀ p, s.plan = some p → p = plan)
    (hedge : Edge cfg s e s' out) : IndexStep plan ⟨s, e, s', out⟩ := by
  -- Most edges keep both the phase and the position.
  have hsame : s'.phase = s.phase → s'.tech.competencyIndex = s.tech.competencyIndex →
      IndexStep plan ⟨s, e, s', out⟩ := by
    intro hp hi
    by_cases ht : s.phase = .tech
    · exact IndexStep.stays ht (hp.trans ht) hi
    · exact IndexStep.elsewhere ht (hp ▸ ht)
  cases hedge with
  | ignored e hidle => exact hsame rfl rfl
  | opened now p hphase hvalid =>
      exact IndexStep.elsewhere (by simp only [hphase]; decide) (by simp only [opened]; decide)
  | entered turnId text now p hphase hp => exact IndexStep.enters hphase rfl rfl
  | probed turnId text now a hphase hawaiting hclarify hprobes => exact hsame rfl rfl
  | seeded turnId text now a seed hphase hawaiting hanswered hseed => exact hsame rfl rfl
  | advanced turnId text now a following hphase hawaiting hleaves hnext =>
      refine IndexStep.advances hphase hphase ?_
      simp only [issueInterviewer, advanced, a.leaving_competencyIndex]
  | finished turnId text now a hphase hawaiting hleaves hlast =>
      have hp := hplan a.plan a.hplan
      refine IndexStep.finishes hphase rfl rfl ?_
      exact last_of_competency (hp ▸ a.hcompetency) (hp ▸ hlast)
  | cutShort now p hphase hp hover => exact IndexStep.cut ⟨hphase, rfl, now, rfl, hover⟩
  | asked turnId text now p hphase hp =>
      exact IndexStep.elsewhere (by simp only [hphase]; decide)
        (by simp only [issueInterviewer, hphase]; decide)
  | closed e activity hphase =>
      exact IndexStep.elsewhere (by simp only [hphase]; decide)
        (by simp only [enterClose]; decide)
  | completed e hphase =>
      exact IndexStep.elsewhere (by simp only [hphase]; decide) (by simp only [complete]; decide)
  | aborted e reason decision persist hlive hturn =>
      by_cases ht : s.phase = .tech
      · exact IndexStep.aborts ht rfl hturn
      · exact IndexStep.elsewhere ht (by simp only [abort]; decide)
  | delivered turnId output now hphase hawaiting hpending =>
      rcases noteDrift_fst s output.internalMoveExecuted cfg with ⟨drift, hdrift⟩
      refine hsame rfl ?_
      simp only [delivered, hdrift]
  | retried turnId errorKind now pending hphase hawaiting hpending hid hstreak =>
      exact hsame rfl rfl
  | assessed forTurnId output now hlive hpending =>
      rw [onAssessmentCompleted, if_neg (not_not.mpr hpending)] at hsame ⊢
      exact hsame rfl rfl
  | assessmentFailed forTurnId errorKind now hlive hpending =>
      rw [onAssessmentFailed, if_neg (not_not.mpr hpending)] at hsame ⊢
      refine hsame rfl ?_
      cases s.tech.assessmentFocus.get? forTurnId with
      | none => rfl
      | some node => rfl
  | reconnected now hlive => exact hsame rfl rfl

/-- The marker of a gap is borne out by the coverage the answer leaves behind. -/
theorem borneOut_of_none {now : Instant} (a : Answer s now) (turnId : Uuid)
    (hnone : (a.verdict cfg).verdict = .none) :
    ∃ marker, (a.verdict cfg).gapMarker = some marker ∧
      BorneOut marker ((a.leaving cfg turnId).coverage.get? a.competency.nodeId) := by
  have hleaving : a.leaving cfg turnId
      = markGap (a.scheduled turnId) a.competency (a.verdict cfg).gapMarker := by
    rw [Answer.leaving, if_pos hnone]
  -- Of the rows of the table three give up on the competency.
  rcases adjudicate_cases (s.tech.coverage.get? a.competency.nodeId) a.competency.targetLevel
    s.tech.probesUsed a.remaining cfg with ⟨_, hv⟩ | ⟨hzero, hv⟩ | hv | ⟨hgap, hv⟩ | ⟨_, hv⟩
  · rw [Answer.verdict, hv] at hnone
    simp only [reduceCtorEq] at hnone
  · have hmarker : (a.verdict cfg).gapMarker = some .levelZero := by rw [Answer.verdict, hv]
    refine ⟨.levelZero, hmarker, ?_⟩
    rw [hleaving, hmarker, markGap, if_neg (by decide)]
    simp only [Answer.scheduled, scheduleAssessment]
    cases hc : s.tech.coverage.get? a.competency.nodeId with
    | none =>
        rw [hc, isLevelZero] at hzero
        simp only [Bool.false_eq_true] at hzero
    | some cell =>
        rw [hc, isLevelZero] at hzero
        exact ⟨cell, rfl, of_decide_eq_true hzero⟩
  · have hmarker : (a.verdict cfg).gapMarker = some .gapBudgetExhausted := by
      rw [Answer.verdict, hv]
    -- This marker is written by the step itself.
    refine ⟨.gapBudgetExhausted, hmarker, ?_⟩
    rw [hleaving, hmarker, markGap, if_pos rfl]
    exact ⟨_, Dict.get?_set_self _ _ _, rfl⟩
  · have hmarker : (a.verdict cfg).gapMarker = some .gapNotAssessable := by
      rw [Answer.verdict, hv]
    refine ⟨.gapNotAssessable, hmarker, ?_⟩
    rw [hleaving, hmarker, markGap, if_neg (by decide)]
    simp only [Answer.scheduled, scheduleAssessment]
    cases hc : s.tech.coverage.get? a.competency.nodeId with
    | none =>
        rw [hc, isNotAssessable] at hgap
        simp only [Bool.false_eq_true] at hgap
    | some cell =>
        rw [hc, isNotAssessable] at hgap
        exact ⟨cell, rfl, hgap⟩
  · rw [Answer.verdict, hv] at hnone
    simp only [reduceCtorEq] at hnone

/-- An answer that leaves a competency obeys the law of exits. -/
theorem exitLaw_of_answer {turnId : Uuid} {text : String} {now : Instant} (a : Answer s now)
    (interviewer : RunInterviewer) (hcoverage : s'.tech.coverage = (a.leaving cfg turnId).coverage)
    (hout : out = .runAssessor (a.assessor turnId) :: .runInterviewer interviewer
      :: (a.gap cfg ++ [.persistState])) :
    ExitLaw cfg ⟨s, .candidateTurnReceived turnId text now, s', out⟩ := by
  refine ⟨turnId, text, now, rfl, a, ?_, ?_⟩
  · simp only [hout, moves_leaving]
  have hmem : ∀ g, Command.recordGap g ∈ out ↔ Command.recordGap g ∈ a.gap cfg := by
    intro g
    rw [hout]
    simp only [List.mem_cons, List.mem_append, List.not_mem_nil, or_false, reduceCtorEq, false_or]
  simp only [hmem]
  by_cases hnone : (a.verdict cfg).verdict = .none
  · rcases borneOut_of_none a turnId hnone with ⟨marker, hmarker, hborne⟩
    have hgap : a.gap cfg = [.recordGap ⟨a.competency.nodeId, marker⟩] := by
      rw [Answer.gap, if_pos hnone, hmarker]
      rfl
    simp only [hgap, List.mem_singleton, Command.recordGap.injEq, exists_eq, hnone, true_and]
    intro g hg
    rw [hg, hcoverage]
    exact ⟨rfl, hborne⟩
  · have hgap : a.gap cfg = [] := by rw [Answer.gap, if_neg hnone]
    simp only [hgap, List.not_mem_nil, exists_false, hnone, true_and, false_implies,
      implies_true]

/-- A candidate turn that leaves a competency obeys the law of exits. -/
theorem exitLaw_of_edge [Scalars] (hedge : Edge cfg s e s' out) (hturn : e.isCandidateTurn = true)
    (hexit : exit ⟨s, e, s', out⟩ ≠ []) : ExitLaw cfg ⟨s, e, s', out⟩ := by
  have hleft : s.phase = .tech ∧
      ¬ (s'.phase = .tech ∧ s.tech.competencyIndex = s'.tech.competencyIndex) := by
    by_contra hc
    exact hexit (if_neg hc)
  cases hedge with
  | advanced turnId text now a following hphase hawaiting hleaves hnext =>
      exact exitLaw_of_answer a _ rfl rfl
  | finished turnId text now a hphase hawaiting hleaves hlast =>
      exact exitLaw_of_answer a _ rfl rfl
  | ignored e hidle => exact absurd ⟨hleft.1, rfl⟩ hleft.2
  | probed turnId text now a hphase hawaiting hclarify hprobes =>
      exact absurd ⟨hphase, rfl⟩ hleft.2
  | seeded turnId text now a seed hphase hawaiting hanswered hseed =>
      exact absurd ⟨hphase, rfl⟩ hleft.2
  | entered turnId text now p hphase hp =>
      rw [hphase] at hleft
      exact absurd hleft.1 (by decide)
  | asked turnId text now p hphase hp =>
      rw [hphase] at hleft
      exact absurd hleft.1 (by decide)
  | closed e activity hphase =>
      rw [hphase] at hleft
      exact absurd hleft.1 (by decide)
  | completed e hphase =>
      rw [hphase] at hleft
      exact absurd hleft.1 (by decide)
  | aborted e reason decision persist hlive hidle =>
      rw [hidle] at hturn
      exact absurd hturn Bool.false_ne_true
  | opened | cutShort | delivered | retried | assessed | assessmentFailed | reconnected =>
      exact absurd hturn Bool.false_ne_true

end Steps

/-- The route of a run, phase by phase: what was visited and what was left is
    the plan up to where the session is. -/
def Route (plan : PlanSnapshot) (ts : List (Taken SessionState Event Command))
    (s : SessionState) : Prop :=
  match s.phase with
  | .created => visits ts = [] ∧ exits ts = []
  | .intro => visits ts = [] ∧ exits ts = []
  | .tech => 0 ≤ s.tech.competencyIndex ∧
      visits ts = positions (s.tech.competencyIndex.toNat + 1) ∧
      exits ts = positions s.tech.competencyIndex.toNat
  | .aborted => ∃ n, visits ts = positions n ∧ exits ts = positions n
  | .qa | .close | .completed =>
      (∃ n, visits ts = positions n ∧ exits ts = positions n) ∧
        (visits ts = positions plan.competencies.length ∨ ∃ t ∈ ts, CutShort t)

/-- Outside of the technical phase, the route up to here was an initial segment
    of the plan. -/
theorem Route.segment {plan : PlanSnapshot} {ts : List (Taken SessionState Event Command)}
    {s : SessionState} (h : Route plan ts s) (hs : s.phase ≠ .tech) :
    ∃ n, visits ts = positions n ∧ exits ts = positions n := by
  unfold Route at h
  cases hp : s.phase with
  | tech => exact absurd hp hs
  | created | intro => rw [hp] at h; exact ⟨0, h.1, h.2⟩
  | aborted => rw [hp] at h; exact h
  | qa | close | completed => rw [hp] at h; exact h.1

theorem visits_snoc (ts : List (Taken SessionState Event Command))
    (t : Taken SessionState Event Command) : visits (ts ++ [t]) = visits ts ++ visit t := by
  simp only [visits, List.flatMap_append, List.flatMap_singleton]

theorem exits_snoc (ts : List (Taken SessionState Event Command))
    (t : Taken SessionState Event Command) : exits (ts ++ [t]) = exits ts ++ exit t := by
  simp only [exits, List.flatMap_append, List.flatMap_singleton]

/-- A step outside of the technical phase adds nothing to the route. -/
theorem Route.elsewhere {plan : PlanSnapshot} {ts : List (Taken SessionState Event Command)}
    {t : Taken SessionState Event Command} (h : Route plan ts t.before)
    (hphase : t.before.phase ≠ .tech) (hafter : t.after.phase ≠ .tech)
    (hstep : PhaseStep t.before.phase t.after.phase) : Route plan (ts ++ [t]) t.after := by
  have hvisits : visits (ts ++ [t]) = visits ts := by
    rw [visits_snoc, visit, if_neg (fun hc => hafter hc.1), List.append_nil]
  have hexits : exits (ts ++ [t]) = exits ts := by
    rw [exits_snoc, exit, if_neg (fun hc => hphase hc.1), List.append_nil]
  have hmore : (∃ u ∈ ts, CutShort u) → ∃ u ∈ ts ++ [t], CutShort u := by
    rintro ⟨u, hu, hc⟩
    exact ⟨u, List.mem_append_left _ hu, hc⟩
  have hsegment := h.segment hphase
  unfold Route at h ⊢
  rw [hvisits, hexits]
  -- A phase is entered from itself, from the one before it, or by an abort.
  cases hq : t.after.phase with
  | tech => exact absurd hq hafter
  | aborted => exact hsegment
  | created | intro | qa | close | completed =>
      rw [hq] at hstep
      cases hp : t.before.phase <;> rw [hp] at hstep h <;>
        simp only [PhaseStep, Phase.next, reduceCtorEq, Option.some.injEq, false_or, or_false,
          and_false] at hstep
      all_goals first
        | exact absurd hp hphase
        | exact h
        | exact ⟨h.1, h.2.imp_right hmore⟩

/-- One step extends the route by what it visits and what it leaves. -/
theorem Route.step {plan : PlanSnapshot} {ts : List (Taken SessionState Event Command)}
    {t : Taken SessionState Event Command} (h : Route plan ts t.before)
    (hindex : IndexStep plan t) (hstep : PhaseStep t.before.phase t.after.phase) :
    Route plan (ts ++ [t]) t.after := by
  have htech : t.before.phase = .tech → 0 ≤ t.before.tech.competencyIndex ∧
      visits ts = positions (t.before.tech.competencyIndex.toNat + 1) ∧
      exits ts = positions t.before.tech.competencyIndex.toNat := by
    intro hp
    rw [Route, hp] at h
    exact h
  -- Leaving the phase leaves the competency it was on.
  have hleaves : t.before.phase = .tech → t.after.phase ≠ .tech →
      visits (ts ++ [t]) = positions (t.before.tech.competencyIndex.toNat + 1) ∧
      exits (ts ++ [t]) = positions (t.before.tech.competencyIndex.toNat + 1) := by
    intro hp hq
    rcases htech hp with ⟨hzero, hv, he⟩
    have hcast : (t.before.tech.competencyIndex.toNat : Int) = t.before.tech.competencyIndex :=
      Int.toNat_of_nonneg hzero
    rw [visits_snoc, visit, if_neg (fun hc => hq hc.1), List.append_nil, exits_snoc, exit,
      if_pos ⟨hp, fun hc => hq hc.1⟩, hv, he, positions_succ, hcast]
    exact ⟨rfl, rfl⟩
  cases hindex with
  | stays hp hq hi =>
      rcases htech hp with ⟨hzero, hv, he⟩
      rw [Route, hq, visits_snoc, visit, if_neg (fun hc => hc.2 ⟨hp, hi.symm⟩), exits_snoc, exit,
        if_neg (fun hc => hc.2 ⟨hq, hi.symm⟩), List.append_nil, List.append_nil, hi]
      exact ⟨hzero, hv, he⟩
  | elsewhere hp hq => exact h.elsewhere hp hq hstep
  | enters hp hq hi =>
      have hne : t.before.phase ≠ .tech := by rw [hp]; decide
      rw [Route, hp] at h
      rw [Route, hq, visits_snoc, visit, if_pos ⟨hq, fun hc => hne hc.1⟩, exits_snoc, exit,
        if_neg (fun hc => hne hc.1), hi, h.1, h.2]
      exact ⟨Int.le_refl 0, rfl, rfl⟩
  | advances hp hq hi =>
      rcases htech hp with ⟨hzero, hv, he⟩
      have hne : t.before.tech.competencyIndex ≠ t.after.tech.competencyIndex := by omega
      have hnat : (t.before.tech.competencyIndex + 1).toNat
          = t.before.tech.competencyIndex.toNat + 1 := by omega
      have hcast : (t.before.tech.competencyIndex.toNat : Int)
          = t.before.tech.competencyIndex := Int.toNat_of_nonneg hzero
      rw [Route, hq, visits_snoc, visit, if_pos ⟨hq, fun hc => hne hc.2⟩, exits_snoc, exit,
        if_pos ⟨hp, fun hc => hne hc.2⟩, hi, hv, he, hnat,
        positions_succ (t.before.tech.competencyIndex.toNat + 1)]
      refine ⟨by omega, ?_, ?_⟩
      · rw [Int.natCast_add, hcast]
        rfl
      · rw [positions_succ, hcast]
  | finishes hp hq hturn hlast =>
      rcases hleaves hp (by rw [hq]; decide) with ⟨hv, he⟩
      have hlen : t.before.tech.competencyIndex.toNat + 1 = plan.competencies.length := by
        have hzero := (htech hp).1
        omega
      rw [Route, hq, hv, he, hlen]
      exact ⟨⟨_, rfl, rfl⟩, Or.inl rfl⟩
  | cut hcut =>
      rcases hleaves hcut.1 (by rw [hcut.2.1]; decide) with ⟨hv, he⟩
      rw [Route, hcut.2.1, hv, he]
      exact ⟨⟨_, rfl, rfl⟩, Or.inr ⟨t, List.mem_append_right ts List.mem_cons_self, hcut⟩⟩
  | aborts hp hq hidle =>
      rcases hleaves hp (by rw [hq]; decide) with ⟨hv, he⟩
      rw [Route, hq, hv, he]
      exact ⟨_, rfl, rfl⟩

section Runs
variable [Scalars] {cfg : OrchestratorConfig} {sessionId : Uuid} {planInput : Dict String Json}
  {plan : PlanSnapshot} {ts : List (Taken SessionState Event Command)} {s : SessionState}

/-- The plan of a reachable state is the validated one. -/
theorem SessionRun.plan_eq
    (hvalid : PlanSnapshot.validatePlan (.obj planInput.entries) = .ok plan)
    (h : SessionRun cfg sessionId planInput ts s) (p : PlanSnapshot) (hp : s.plan = some p) :
    p = plan := by
  have hsame := (SessionRun.identity h).plan_eq p hp
  rw [hvalid, Except.ok.injEq] at hsame
  exact hsame.symm

/-- The route over a run. -/
theorem SessionRun.route
    (hvalid : PlanSnapshot.validatePlan (.obj planInput.entries) = .ok plan)
    (h : SessionRun cfg sessionId planInput ts s) : Route plan ts s := by
  induction h with
  | nil => exact ⟨rfl, rfl⟩
  | snoc ts a b e out hrun hab ih =>
      have hedge := edge_of_step hab
      exact Route.step (t := ⟨a, e, b, out⟩) ih
        (indexStep_of_edge (SessionRun.plan_eq hvalid hrun) hedge) (phaseLaw_of_edge hedge).phase

end Runs

/-- Only an answer on the last competency takes a candidate turn into Q&A. -/
theorem IndexStep.last_of_turn {plan : PlanSnapshot} {t : Taken SessionState Event Command}
    (h : IndexStep plan t) (hstep : PhaseStep t.before.phase t.after.phase)
    (hturn : t.event.isCandidateTurn = true) (hbefore : t.before.phase ≠ .qa)
    (hafter : t.after.phase = .qa) :
    t.before.phase = .tech ∧ t.before.tech.competencyIndex + 1 = plan.competencies.length := by
  cases h with
  | finishes hp hq hturn hlast => exact ⟨hp, hlast⟩
  | stays hp hq hi => rw [hafter] at hq; exact absurd hq (by decide)
  | enters hp hq hi => rw [hafter] at hq; exact absurd hq (by decide)
  | advances hp hq hi => rw [hafter] at hq; exact absurd hq (by decide)
  | aborts hp hq hidle => rw [hafter] at hq; exact absurd hq (by decide)
  | cut hcut =>
      rcases hcut with ⟨_, _, now, hevent, _⟩
      rw [hevent] at hturn
      exact absurd hturn Bool.false_ne_true
  | elsewhere hp hq =>
      rw [hafter] at hstep
      rcases hstep with hsame | hnext | ⟨_, habort⟩
      · exact absurd hsame.symm hbefore
      · cases hphase : t.before.phase with
        | tech => exact absurd hphase hp
        | created | intro | qa | close | completed | aborted =>
            rw [hphase] at hnext
            exact absurd hnext (by decide)
      · exact absurd habort (by decide)

/-- A step that leaves the technical phase before the last competency is the
    session-budget tick or an abort. -/
theorem IndexStep.early {plan : PlanSnapshot} {t : Taken SessionState Event Command}
    (h : IndexStep plan t) (hbefore : t.before.phase = .tech) (hafter : t.after.phase ≠ .tech)
    (hearly : t.before.tech.competencyIndex + 1 < plan.competencies.length) :
    CutShort t ∨ t.after.phase = .aborted := by
  cases h with
  | cut hcut => exact Or.inl hcut
  | aborts hp hq hidle => exact Or.inr hq
  | finishes hp hq hturn hlast => omega
  | stays hp hq hi => exact absurd hq hafter
  | enters hp hq hi => exact absurd hq hafter
  | advances hp hq hi => exact absurd hq hafter
  | elsewhere hp hq => exact absurd hbefore hp

/-- The technical phase visits the planned competencies in order and leaves
    each at most once; a candidate turn enters Q&A from the last one; what
    leaves a competency on a candidate turn issues one move, and a gap exactly
    on the `NONE` verdict, borne out by the coverage; and later competencies
    stay unvisited only through the session-budget tick or an abort. -/
theorem plan_traversal [Scalars] (cfg : OrchestratorConfig) (sessionId : Uuid)
    (planInput : Dict String Json) (plan : PlanSnapshot)
    (hvalid : PlanSnapshot.validatePlan (.obj planInput.entries) = .ok plan)
    (ts : List (Taken SessionState Event Command)) (s : SessionState)
    (h : SessionRun cfg sessionId planInput ts s) :
    (∃ n, visits ts = positions n) ∧
    (s.phase = .tech → visits ts = positions (s.tech.competencyIndex.toNat + 1)) ∧
    (exits ts).Nodup ∧
    (∀ t ∈ ts, t.event.isCandidateTurn = true → t.before.phase ≠ .qa → t.after.phase = .qa →
      t.before.phase = .tech ∧
        t.before.tech.competencyIndex + 1 = plan.competencies.length) ∧
    (∀ t ∈ ts, t.event.isCandidateTurn = true → exit t ≠ [] → ExitLaw cfg t) ∧
    (∀ t ∈ ts, t.before.phase = .tech → t.after.phase ≠ .tech →
      t.before.tech.competencyIndex + 1 < plan.competencies.length →
        CutShort t ∨ t.after.phase = .aborted) ∧
    (s.phase = .qa ∨ s.phase = .close ∨ s.phase = .completed →
      visits ts = positions plan.competencies.length ∨ ∃ t ∈ ts, CutShort t) := by
  have hroute := h.route hvalid
  -- Every step is an edge, which moves the index and the phase as allowed.
  have hsteps : ∀ t ∈ ts, IndexStep plan t ∧ PhaseStep t.before.phase t.after.phase := by
    intro t ht
    rcases h.of_mem t ht with ⟨us, _, hus, hstep⟩
    have hedge := edge_of_step hstep
    exact ⟨indexStep_of_edge (SessionRun.plan_eq hvalid hus) hedge, (phaseLaw_of_edge hedge).phase⟩
  -- What has been visited and left is an initial segment of the plan.
  have hsegment : ∃ n m, visits ts = positions n ∧ exits ts = positions m := by
    by_cases htech : s.phase = .tech
    · rw [Route, htech] at hroute
      exact ⟨_, _, hroute.2⟩
    · rcases hroute.segment htech with ⟨n, hn⟩
      exact ⟨n, n, hn⟩
  rcases hsegment with ⟨n, m, hvisits, hexits⟩
  refine ⟨⟨n, hvisits⟩, fun htech => ?_, ?_, fun t ht hturn hb ha => ?_,
    fun t ht hturn hexit => ?_, fun t ht hb ha hearly => ?_, fun hphase => ?_⟩
  · rw [Route, htech] at hroute
    exact hroute.2.1
  · rw [hexits]
    exact positions_nodup m
  · exact (hsteps t ht).1.last_of_turn (hsteps t ht).2 hturn hb ha
  · rcases h.of_mem t ht with ⟨_, _, _, hstep⟩
    exact exitLaw_of_edge (edge_of_step hstep) hturn hexit
  · exact (hsteps t ht).1.early hb ha hearly
  · rw [Route] at hroute
    rcases hphase with hq | hq | hq
    · rw [hq] at hroute; exact hroute.2
    · rw [hq] at hroute; exact hroute.2
    · rw [hq] at hroute; exact hroute.2

/-- The small interview has left its first competency, answered, and is on its
    second. -/
theorem plan_traversal_small : ∃ ts s, SmallRun ts s ∧ s.phase = .tech ∧ visits ts = [0, 1] ∧
    exits ts = [0] ∧ (exits ts).Nodup := by
  have hvalid : @PlanSnapshot.validatePlan Scalars.strict (.obj smallInput.entries)
      = .ok smallPlan := by decide +kernel
  have hrec : (smallRecord smallEvents).map (fun r => (r.2.phase, visits r.1, exits r.1))
      = .ok (.tech, [0, 1], [0]) := by decide +kernel
  rcases exists_run_of_record _ _ _ _ _ hrec with ⟨ts, s, hrun, hproj⟩
  simp only [Prod.mk.injEq] at hproj
  have hall := @plan_traversal Scalars.strict _ _ _ smallPlan hvalid ts s hrun
  exact ⟨ts, s, hrun, hproj.1, hproj.2.1, hproj.2.2, hall.2.2.1⟩

/-- An operator who aborts on the first competency leaves the second one
    unvisited, with no tick in the run. -/
theorem operatorAbort_leaves_unvisited : ∃ ts s, SmallRun ts s ∧ s.phase = .aborted ∧
    visits ts = [0] ∧ smallPlan.competencies.length = 2 ∧ ∀ t ∈ ts, ¬ CutShort t := by
  have hrec : (smallRecord
      [.sessionStarted 0, .candidateTurnReceived ⟨100⟩ "ready" 1000000,
        .operatorAbort .operatorAbort 2000000]).map
      (fun r => (r.2.phase, visits r.1, r.1.map (fun t => t.after.phase)))
      = .ok (.aborted, [0], [.intro, .tech, .aborted]) := by decide +kernel
  rcases exists_run_of_record _ _ _ _ _ hrec with ⟨ts, s, hrun, hproj⟩
  simp only [Prod.mk.injEq] at hproj
  refine ⟨ts, s, hrun, hproj.1, hproj.2.1, rfl, ?_⟩
  rintro t ht ⟨_, hqa, _⟩
  have hmem := List.mem_map_of_mem (f := fun t => t.after.phase) ht
  rw [hproj.2.2, hqa] at hmem
  exact absurd hmem (by decide)

end TechScreen
