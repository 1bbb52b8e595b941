import TechScreen.Orchestrator.State

/-!
# Adjudication and Coverage

The 2/1/0 table that decides what a candidate turn is worth, and the folding of
assessor results into the coverage it reads.

The evaluation order of the table is fixed, and it is what resolves its
deliberately overlapping rows: an answered competency first, then an
evidence-backed zero, then an exhausted budget, then an unassessable turn, and
clarification as the residual verdict.

Durations are exact. The source holds the remaining seconds in a double, which
rounds only where a budget exceeds the double's precision; comparisons between
confidences and thresholds are exact on both sides.

## Main definitions

* `secondsRemaining`: Seconds left in a competency's budget.
* `adjudicate`: The 2/1/0 table.
* `recordLevels`: Folding one output's levels into coverage.
* `recordReviewSignals`: Folding its review markers into coverage.
* `dropPending`: Forgetting a resolved assessment.

## Theorems

* `adjudicate_cases`: The rows of the table, each with what it is borne out by.
-/

namespace TechScreen

open Lib

/-- `float(n)`: the conversion overflows where the nearest double is infinite. -/
def pyFloat (n : Int) : Except OrchestratorError ℚ :=
  if n.natAbs < 2 ^ 1024 - 2 ^ 970 then .ok n else .error .overflowError

/-- `timedelta(minutes=n)` in microseconds; at most 999999999 days. -/
def timedeltaMinutes (n : Int) : Except OrchestratorError Int :=
  if n / 1440 ≤ 999999999 then .ok (n * 60000000) else .error .overflowError

/-- Seconds left in the current competency's budget; the full budget while it
    has not been entered. -/
def secondsRemaining (c : PlannedCompetency) (startedAt : Option Instant) (now : Instant) :
    Except OrchestratorError ℚ := do
  let minutes ← pyFloat c.minutes
  let budget := minutes * 60
  match startedAt with
  | none => .ok budget
  | some t => .ok (budget - ((now - t : Int) : ℚ) / 1000000)

/-- What evidence the adjudication has for a node. -/
def basis (cell : Option CoverageCell) : AdjudicationBasis :=
  match cell with
  | none => .pending
  | some c =>
      if c.bestLevel.isSome then .assessment
      else if c.gapNotAssessable then .notAssessable
      else if c.assessmentFailed then .failed
      else .pending

/-- The best level reaches the target with enough confidence. -/
def isAnswered (cell : Option CoverageCell) (targetLevel : Int) (cfg : OrchestratorConfig) :
    Bool :=
  match cell with
  | some { bestLevel := some level, bestConfidence := some confidence, .. } =>
      level ≥ targetLevel && confidence ≥ cfg.adjudication.confidenceMin
  | _ => false

/-- The latest completed assessment scored zero. -/
def isLevelZero (cell : Option CoverageCell) : Bool :=
  match cell with
  | some c => c.latestLevel = some 0
  | none => false

/-- An output came back with no assessments at all. -/
def isNotAssessable (cell : Option CoverageCell) : Bool :=
  match cell with
  | some c => c.gapNotAssessable
  | none => false

/-- Apply the 2/1/0 table to one competency. -/
def adjudicate (cell : Option CoverageCell) (targetLevel probesUsed : Int) (remaining : ℚ)
    (cfg : OrchestratorConfig) : Adjudication :=
  if isAnswered cell targetLevel cfg then { verdict := .answered, basis := basis cell }
  else if isLevelZero cell then
    { verdict := .none, basis := basis cell, gapMarker := some .levelZero }
  else if probesUsed ≥ cfg.adjudication.maxProbesPerCompetency ∨
      remaining ≤ cfg.adjudication.minProbeSeconds then
    { verdict := .none, basis := basis cell, gapMarker := some .gapBudgetExhausted }
  else if isNotAssessable cell ∧ probesUsed ≥ 1 then
    { verdict := .none, basis := basis cell, gapMarker := some .gapNotAssessable }
  else { verdict := .clarify, basis := basis cell }

section Verdicts
variable (cell : Option CoverageCell) (target probes : Int) (remaining : ℚ)
  (cfg : OrchestratorConfig)

/-- Splitting on the rows of the table, in its order. -/
theorem adjudicate_cases :
    (isAnswered cell target cfg = true ∧
      adjudicate cell target probes remaining cfg = ⟨.answered, basis cell, none⟩) ∨
    (isLevelZero cell = true ∧
      adjudicate cell target probes remaining cfg = ⟨.none, basis cell, some .levelZero⟩) ∨
    adjudicate cell target probes remaining cfg = ⟨.none, basis cell, some .gapBudgetExhausted⟩ ∨
    (isNotAssessable cell = true ∧
      adjudicate cell target probes remaining cfg
        = ⟨.none, basis cell, some .gapNotAssessable⟩) ∨
    (probes < cfg.adjudication.maxProbesPerCompetency ∧
      adjudicate cell target probes remaining cfg = ⟨.clarify, basis cell, none⟩) := by
  unfold adjudicate
  by_cases h1 : isAnswered cell target cfg = true
  · rw [if_pos h1]
    exact Or.inl ⟨h1, rfl⟩
  rw [if_neg h1]
  by_cases h2 : isLevelZero cell = true
  · rw [if_pos h2]
    exact Or.inr (Or.inl ⟨h2, rfl⟩)
  rw [if_neg h2]
  by_cases h3 : probes ≥ cfg.adjudication.maxProbesPerCompetency ∨
      remaining ≤ cfg.adjudication.minProbeSeconds
  · rw [if_pos h3]
    exact Or.inr (Or.inr (Or.inl rfl))
  rw [if_neg h3]
  by_cases h4 : isNotAssessable cell = true ∧ probes ≥ 1
  · rw [if_pos h4]
    exact Or.inr (Or.inr (Or.inr (Or.inl ⟨h4.1, rfl⟩)))
  · rw [if_neg h4]
    exact Or.inr (Or.inr (Or.inr (Or.inr ⟨by omega, rfl⟩)))

end Verdicts

/-- Fold one assessment item into coverage: the maximum level, ties going to
    the later item, and the latest one. -/
def recordItem (coverage : Dict String CoverageCell) (item : AssessmentItem) :
    Dict String CoverageCell :=
  let cell := (coverage.get? item.rubricNodeId).getD {}
  let level : Int := item.level.val
  let better : Bool := match cell.bestLevel with
    | none => true
    | some best => level ≥ best
  coverage.set item.rubricNodeId
    { cell with
      bestLevel := if better then some level else cell.bestLevel
      bestConfidence := if better then some item.confidence else cell.bestConfidence
      latestLevel := some level
      latestConfidence := some item.confidence }

/-- Fold one assessor output's per-node levels into coverage. -/
def recordLevels (coverage : Dict String CoverageCell) (output : AssessorOutput) :
    Dict String CoverageCell :=
  if output.assessments = [] then
    -- "Not assessable" is kept apart from an evidence-backed level 0.
    let cell := (coverage.get? output.competencyFocus).getD {}
    coverage.set output.competencyFocus { cell with gapNotAssessable := true }
  else output.assessments.foldl recordItem coverage

/-- Fold `needs_manual_review` and red flags onto the focus cell. -/
def recordReviewSignals (coverage : Dict String CoverageCell) (output : AssessorOutput) :
    Dict String CoverageCell :=
  let cell := (coverage.get? output.competencyFocus).getD {}
  coverage.set output.competencyFocus
    { cell with
      needsManualReview := cell.needsManualReview || output.needsManualReview
      redFlags := cell.redFlags ++ output.redFlags.map RedFlagItem.type }

/-- Remove a completed or failed assessment from the pending bookkeeping. -/
def dropPending (tech : TechState) (turnId : Uuid) : TechState :=
  { tech with
    pendingAssessments := tech.pendingAssessments.filter (fun t => t ≠ turnId)
    assessmentFocus := tech.assessmentFocus.erase turnId }

end TechScreen
