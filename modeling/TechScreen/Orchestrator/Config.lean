import Mathlib.Algebra.Group.Nat.Defs
import Mathlib.Data.Rat.Defs

/-!
# Routing Thresholds

The validated contents of `configs/orchestrator.yaml`. Every bound that the
loader enforces is a field, so a configuration that exists is a valid one and
no theorem about the machine carries a validity hypothesis.

## Main definitions

* `AdjudicationConfig`: The thresholds of the turn-adjudication table.
* `FlagsConfig`: The review-flag thresholds.
* `TimingConfig`: The timing budgets.
* `OrchestratorConfig`: The whole document.
-/

namespace TechScreen

structure AdjudicationConfig where
  confidenceMin : ℚ
  maxProbesPerCompetency : Int
  minProbeSeconds : Int
  confidenceMin_ge : 0 ≤ confidenceMin
  confidenceMin_le : confidenceMin ≤ 99 / 100
  maxProbesPerCompetency_ge : 0 ≤ maxProbesPerCompetency
  minProbeSeconds_ge : 0 ≤ minProbeSeconds

structure FlagsConfig where
  cheatFlagsToReview : Int
  driftToReview : Int
  cheatFlagsToReview_ge : 1 ≤ cheatFlagsToReview
  driftToReview_ge : 1 ≤ driftToReview

structure TimingConfig where
  candidateTimeoutMinutes : Int
  tickSeconds : Int
  candidateTimeoutMinutes_ge : 1 ≤ candidateTimeoutMinutes
  tickSeconds_ge : 15 ≤ tickSeconds

structure OrchestratorConfig where
  adjudication : AdjudicationConfig
  flags : FlagsConfig
  timing : TimingConfig
  stateSchemaVersion : Int
  stateSchemaVersion_ge : 1 ≤ stateSchemaVersion

/-- The thresholds committed in `configs/orchestrator.yaml`. -/
def OrchestratorConfig.committed : OrchestratorConfig where
  adjudication := ⟨6 / 10, 2, 60, by decide +kernel, by decide +kernel, by decide, by decide⟩
  flags := ⟨1, 3, by decide, by decide⟩
  timing := ⟨10, 15, by decide, by decide⟩
  stateSchemaVersion := 1
  stateSchemaVersion_ge := by decide

end TechScreen
