import TechScreen.Lib.Decimal
import TechScreen.Lib.Dict

/-!
# Models and Prices

The two committed registries that every model call is checked against: which
model an agent runs on, and what a thousand tokens of a model cost. A model
without a price is a configuration error, never a free one.

Costs are decimals of the default arithmetic context, so every operation rounds
its result to 28 significant digits.

## Main definitions

* `ModelsConfig`: The validated contents of `configs/models.yaml`.
* `PricingTable`: The validated contents of `pricing.yaml`.
* `PricingTable.costFor`: What a call costs.
* `ModelsConfig.committed`, `PricingTable.committed`: The committed values.

## Theorems

* `PricingTable.costFor_nonneg`: A cost is never negative.
* `ModelPricing.cost_of_digits`: Prices of few decimals make exact costs.
-/

namespace TechScreen.Llm

open Lib

/-- Per-agent model selection and generation parameters. -/
structure ModelConfig where
  model : String
  promptVersion : String
  temperature : ℚ
  maxOutputTokens : Nat
  model_ne : model ≠ ""
  promptVersion_ne : promptVersion ≠ ""
  temperature_ge : 0 ≤ temperature
  temperature_le : temperature ≤ 2
  maxOutputTokens_ge : 1 ≤ maxOutputTokens
  maxOutputTokens_le : maxOutputTokens ≤ 4096

/-- The per-agent model registry. -/
structure ModelsConfig where
  interviewer : ModelConfig
  assessor : ModelConfig
  planner : ModelConfig

/-- What a lookup in a registry finds wrong. -/
inductive ConfigError where
  | unknownAgent (agent : String)
  | negativeTokens (inputTokens outputTokens : Int)
  | unknownModel (model : String)
  deriving DecidableEq

/-- The message of a configuration error, given how strings are quoted. -/
def ConfigError.message (repr : String → String) : ConfigError → String
  | .unknownAgent agent =>
      "unknown agent " ++ repr agent ++ " — known: ['assessor', 'interviewer', 'planner']"
  | .negativeTokens inputTokens outputTokens =>
      "token counts must be non-negative (input=" ++ toString inputTokens ++
        ", output=" ++ toString outputTokens ++ ")"
  | .unknownModel model => "unknown model " ++ repr model ++ " — add it to pricing.yaml"

/-- The configuration of a known agent. -/
def ModelsConfig.forAgent (c : ModelsConfig) (agent : String) : Except ConfigError ModelConfig :=
  if agent = "interviewer" then .ok c.interviewer
  else if agent = "assessor" then .ok c.assessor
  else if agent = "planner" then .ok c.planner
  else .error (.unknownAgent agent)

theorem flash_ne : "gemini-2.5-flash" ≠ "" := by decide

def ModelsConfig.committed : ModelsConfig where
  interviewer := ⟨"gemini-2.5-flash", "v0001", 4 / 10, 2048, flash_ne, by decide,
    by decide +kernel, by decide +kernel, by decide, by decide⟩
  assessor := ⟨"gemini-2.5-flash", "v0003", 1 / 10, 2048, flash_ne, by decide,
    by decide +kernel, by decide +kernel, by decide, by decide⟩
  planner := ⟨"gemini-2.5-pro", "v0001", 3 / 10, 4096, by decide, by decide,
    by decide +kernel, by decide +kernel, by decide, by decide⟩

/-- Prices of a single model. -/
structure ModelPricing where
  inputPer1kTokens : ℚ
  outputPer1kTokens : ℚ
  input_pos : 0 < inputPer1kTokens
  output_pos : 0 < outputPer1kTokens

/-- The price table, by model. -/
structure PricingTable where
  models : Dict String ModelPricing

/-- A result of decimal arithmetic, in the default context. -/
def dec (q : ℚ) : ℚ := toPrecision 28 q

/-- The cost of so many tokens of a model, operation by operation. -/
def ModelPricing.cost (p : ModelPricing) (inputTokens outputTokens : Int) : ℚ :=
  dec (dec (dec (p.inputPer1kTokens * inputTokens) / 1000) +
    dec (dec (p.outputPer1kTokens * outputTokens) / 1000))

/-- The cost of a call in USD. An unknown model is an error, not a zero. -/
def PricingTable.costFor (t : PricingTable) (model : String) (inputTokens outputTokens : Int) :
    Except ConfigError ℚ :=
  if inputTokens < 0 ∨ outputTokens < 0 then .error (.negativeTokens inputTokens outputTokens)
  else match t.models.get? model with
    | none => .error (.unknownModel model)
    | some p => .ok (p.cost inputTokens outputTokens)

/-- Prices of Gemini 2.5 Flash. -/
def ModelPricing.flash : ModelPricing :=
  ⟨75 / 1000000, 300 / 1000000, by decide +kernel, by decide +kernel⟩

/-- Prices of Gemini 2.5 Pro. -/
def ModelPricing.pro : ModelPricing :=
  ⟨125 / 100000, 500 / 100000, by decide +kernel, by decide +kernel⟩

def PricingTable.committed : PricingTable where
  models := Dict.ofList [("gemini-2.5-flash", .flash), ("gemini-2.5-pro", .pro)]

theorem dec_nonneg {q : ℚ} (hq : 0 ≤ q) : 0 ≤ dec q := toPrecision_nonneg 28 q hq

/-- Decimal arithmetic is exact on numbers of few digits. -/
theorem dec_of_digits (s : Nat) (m : ℤ) (hm : |m| < 10 ^ 28) :
    dec ((m : ℚ) / 10 ^ s) = (m : ℚ) / 10 ^ s :=
  toPrecision_of_digits 28 s m hm

theorem ModelPricing.cost_nonneg (p : ModelPricing) (i o : Nat) : 0 ≤ p.cost i o := by
  have hi : 0 ≤ dec (dec (p.inputPer1kTokens * ((i : Int) : ℚ)) / 1000) :=
    dec_nonneg (div_nonneg (dec_nonneg (mul_nonneg p.input_pos.le (by positivity))) (by norm_num))
  have ho : 0 ≤ dec (dec (p.outputPer1kTokens * ((o : Int) : ℚ)) / 1000) :=
    dec_nonneg (div_nonneg (dec_nonneg (mul_nonneg p.output_pos.le (by positivity))) (by norm_num))
  exact dec_nonneg (add_nonneg hi ho)

theorem PricingTable.costFor_nonneg {t : PricingTable} {model : String} {i o : Nat} {c : ℚ}
    (h : t.costFor model i o = .ok c) : 0 ≤ c := by
  have hn : ¬((i : Int) < 0 ∨ (o : Int) < 0) := by omega
  rw [PricingTable.costFor, if_neg hn] at h
  cases hp : t.models.get? model with
  | none =>
      rw [hp] at h
      cases h
  | some p =>
      rw [hp] at h
      cases h
      exact p.cost_nonneg i o

/-- Prices given to a fixed number of decimals make exact costs. -/
theorem ModelPricing.cost_of_digits (p : ModelPricing) (s a b i o : Nat)
    (ha : p.inputPer1kTokens = (a : ℤ) / 10 ^ s) (hb : p.outputPer1kTokens = (b : ℤ) / 10 ^ s)
    (hd : a * i + b * o < 10 ^ 28) :
    p.cost i o = ((a * i + b * o : ℕ) : ℤ) / 10 ^ (s + 3) := by
  have hi : |((a * i : ℕ) : ℤ)| < 10 ^ 28 := by
    rw [Nat.abs_cast]
    exact_mod_cast Nat.lt_of_le_of_lt (Nat.le_add_right _ _) hd
  have ho : |((b * o : ℕ) : ℤ)| < 10 ^ 28 := by
    rw [Nat.abs_cast]
    exact_mod_cast Nat.lt_of_le_of_lt (Nat.le_add_left _ _) hd
  have hs : |((a * i + b * o : ℕ) : ℤ)| < 10 ^ 28 := by
    rw [Nat.abs_cast]
    exact_mod_cast hd
  have hmul (c n : Nat) : (((c : ℕ) : ℤ) : ℚ) / 10 ^ s * ((n : ℤ) : ℚ)
      = (((c * n : ℕ) : ℤ) : ℚ) / 10 ^ s := by
    push_cast
    ring
  have hdiv (m : ℤ) : (m : ℚ) / 10 ^ s / 1000 = (m : ℚ) / 10 ^ (s + 3) := by
    rw [pow_add, div_div]
    norm_num
  have hadd : (((a * i : ℕ) : ℤ) : ℚ) / 10 ^ (s + 3) + (((b * o : ℕ) : ℤ) : ℚ) / 10 ^ (s + 3)
      = (((a * i + b * o : ℕ) : ℤ) : ℚ) / 10 ^ (s + 3) := by
    push_cast
    ring
  rw [ModelPricing.cost, ha, hb, hmul, hmul, dec_of_digits s _ hi, dec_of_digits s _ ho, hdiv,
    hdiv, dec_of_digits _ _ hi, dec_of_digits _ _ ho, hadd, dec_of_digits _ _ hs]

end TechScreen.Llm
