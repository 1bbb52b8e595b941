import TechScreen.Lib.Json
import TechScreen.Llm.Pricing

/-!
# The Audit Trail and the Cost Ledgers

Every invocation of the wrapper leaves one trace record, and what a session has
spent so far is looked up before the next invocation. There are two ledgers
behind one protocol: one keeps a running total of its own, the other keeps
nothing and sums the costs of the stored trace rows.

A sink may refuse a record. The durable one does so when the database does, for
reasons of its own or because a value does not fit its column: token counts and
latencies are 32-bit integers, and costs are kept to six decimals.

## Main definitions

* `WrapperError`: The typed errors of the wrapper.
* `TraceRecord`: The audit record of one invocation.
* `CostLedger`, `TraceSink`: The two protocols.
* `Books`: The tables and dictionaries behind them.
* `inMemoryCostLedger`, `postgresCostLedger`: The two ledgers.
* `postgresTraceSink`: The durable sink.
-/

namespace TechScreen.Llm

open Lib

/-- The fields of a JSON object. -/
abbrev Fields := List (String × Json)

/-- An exception of a class that the wrapper does not know. -/
structure Unexpected where
  kind : String
  text : String
  deriving DecidableEq

/-- `type(exc).__name__: exc`. -/
def Unexpected.show (e : Unexpected) : String := e.kind ++ ": " ++ e.text

/-- The errors of the wrapper, by class: one of the base class itself, or one of
    a class below it. -/
inductive WrapperError where
  | base (message : String)
  | modelCallConfig (message : String)
  | vertexTimeout (message : String)
  | vertexUpstreamUnavailable (message : String)
  | vertexSchema (message rawPayload : String)
  | sessionBudgetExceeded (message : String)
  | traceWrite (message : String)
  deriving DecidableEq

/-- `str(exc)`. -/
def WrapperError.message : WrapperError → String
  | .base m => m
  | .modelCallConfig m => m
  | .vertexTimeout m => m
  | .vertexUpstreamUnavailable m => m
  | .vertexSchema m _ => m
  | .sessionBudgetExceeded m => m
  | .traceWrite m => m

/-- What leaves the wrapper as an exception. -/
inductive Raised where
  | wrapper (error : WrapperError)
  | other (error : Unexpected)
  deriving DecidableEq

inductive TraceOutcome where
  | ok
  | schemaError
  | timeout
  | upstreamUnavailable
  | budgetExceeded
  | configError
  | traceWriteError
  deriving DecidableEq

/-- A SHA-256 digest in hexadecimal digits. -/
abbrev Digest := {digest : String // digest.length = 64}

/-- A number of attempts within the retry budget. -/
abbrev Attempts := {n : Nat // 1 ≤ n ∧ n ≤ 3}

/-- Append-only audit record of a single invocation. -/
structure TraceRecord where
  id : Uuid
  createdAt : Instant
  agent : String
  sessionId : Uuid
  model : String
  modelVersion : Option String
  promptSha256 : String
  outcome : TraceOutcome
  attempts : Attempts
  latencyMs : Nat
  inputTokens : Nat
  outputTokens : Nat
  costUsd : ℚ
  errorMessage : Option String
  responseText : Option String
  parsed : Option Fields
  agent_ne : agent ≠ ""
  model_ne : model ≠ ""
  promptSha256_length : promptSha256.length = 64

section Protocols

/-- How a sink refuses a record. -/
inductive SinkError where
  | traceWrite (message : String)
  | other (error : Unexpected)

/-- Per-session cost aggregation. -/
structure CostLedger (σ : Type) where
  sessionTotal : σ → Uuid → ℚ
  add : σ → Uuid → ℚ → Except Unexpected σ

/-- Trace persistence. -/
structure TraceSink (σ : Type) where
  write : σ → TraceRecord → Except SinkError σ

end Protocols

section Tables

/-- What a caller binds around one agent call to complete the row. -/
structure TurnTraceContext where
  promptVersion : String := ""
  turnId : Option Uuid := none
  systemPrompt : String := ""
  userPayload : String := ""
  wrapperOutcome : Option String := none
  transition : Option Json := none

/-- A row of `turn_trace`. -/
structure TurnTrace where
  id : Uuid
  createdAt : Instant
  interviewSessionId : Uuid
  turnId : Option Uuid
  transition : Option Json
  agent : String
  promptVersion : String
  model : String
  modelVersion : Option String
  outcome : TraceOutcome
  wrapperOutcome : Option String
  attempts : Attempts
  latencyMs : Nat
  inputTokens : Nat
  outputTokens : Nat
  costUsd : ℚ
  promptSha : String
  errorMessage : Option String
  systemPrompt : String
  userPayload : String
  responseText : String
  parsed : Option Fields

/-- The rows of `turn_trace`, oldest first, and the totals that the in-memory
    ledger keeps. -/
structure Books where
  rows : List TurnTrace := []
  totals : Dict Uuid ℚ := .empty

/-- The largest value of an `INTEGER` column. -/
def maxInteger : Nat := 2147483647

/-- A cost as a `NUMERIC(12, 6)` column keeps it. -/
def storedCost (cost : ℚ) : ℚ := toScale 6 cost

/-- The values fit their columns. -/
def FitsColumns (latencyMs inputTokens outputTokens : Nat) (cost : ℚ) : Prop :=
  latencyMs ≤ maxInteger ∧ inputTokens ≤ maxInteger ∧ outputTokens ≤ maxInteger ∧
    0 ≤ storedCost cost ∧ storedCost cost < 1000000

instance (l i o : Nat) (c : ℚ) : Decidable (FitsColumns l i o c) := by
  unfold FitsColumns
  infer_instance

/-- The record and the bound context, as the row they make. -/
def row (context : TurnTraceContext) (record : TraceRecord) : TurnTrace where
  id := record.id
  createdAt := record.createdAt
  interviewSessionId := record.sessionId
  turnId := context.turnId
  transition := context.transition
  agent := record.agent
  promptVersion := context.promptVersion
  model := record.model
  modelVersion := record.modelVersion
  outcome := record.outcome
  wrapperOutcome := context.wrapperOutcome
  attempts := record.attempts
  latencyMs := record.latencyMs
  inputTokens := record.inputTokens
  outputTokens := record.outputTokens
  costUsd := storedCost record.costUsd
  promptSha := record.promptSha256
  errorMessage := record.errorMessage
  systemPrompt := context.systemPrompt
  userPayload := context.userPayload
  responseText := record.responseText.getD ""
  parsed := record.parsed

/-- The durable sink. `up` tells whether the database takes the row, as far as
    its columns allow. -/
def postgresTraceSink (context : TurnTraceContext) (up : Bool) : TraceSink Books where
  write books record :=
    if up = true ∧ FitsColumns record.latencyMs record.inputTokens record.outputTokens
        record.costUsd then
      .ok { books with rows := books.rows ++ [row context record] }
    else .error (.traceWrite ("turn_trace insert failed for trace " ++ record.id.text))

/-- `SUM(turn_trace.cost_usd)` for one session. -/
def sessionCostTotal (rows : List TurnTrace) (sessionId : Uuid) : ℚ :=
  ((rows.filter (fun r => r.interviewSessionId = sessionId)).map TurnTrace.costUsd).sum

/-- A charge below zero is refused by either ledger. -/
def negativeCharge : Unexpected := ⟨"ValueError", "cost_usd must be non-negative"⟩

/-- The ledger that keeps its own totals. -/
def inMemoryCostLedger : CostLedger Books where
  sessionTotal books sessionId := (books.totals.get? sessionId).getD 0
  add books sessionId cost :=
    if cost < 0 then .error negativeCharge
    else .ok { books with
      totals := books.totals.set sessionId (dec ((books.totals.get? sessionId).getD 0 + cost)) }

/-- The ledger derived from the trace rows: adding to it does nothing. -/
def postgresCostLedger : CostLedger Books where
  sessionTotal books sessionId := sessionCostTotal books.rows sessionId
  add books _ cost := if cost < 0 then .error negativeCharge else .ok books

end Tables

@[simp] theorem sessionCostTotal_nil (sessionId : Uuid) : sessionCostTotal [] sessionId = 0 := rfl

theorem sessionCostTotal_snoc (rows : List TurnTrace) (r : TurnTrace) (sessionId : Uuid) :
    sessionCostTotal (rows ++ [r]) sessionId = sessionCostTotal rows sessionId +
      (if r.interviewSessionId = sessionId then r.costUsd else 0) := by
  by_cases h : r.interviewSessionId = sessionId
  · simp [sessionCostTotal, h]
  · simp [sessionCostTotal, h]

end TechScreen.Llm
