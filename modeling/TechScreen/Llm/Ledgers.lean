import TechScreen.Lib.Lockstep
import TechScreen.Llm.CallModel

/-!
# The Two Ledgers Compared

A sequence of invocations, served once with the ledger that keeps its own
totals and once with the ledger that sums the trace rows. The first is charged
by `add`, for an answer that passed validation, before the record is written.
The second is charged by the record, for whatever cost it carries, rounded to
its column, if the database takes it. A schema miss carries a cost in its record
and is never added, so the two part company there; they part as well where
rounding changes a cost, and where a charged answer loses its row.

Nothing else tells the ledgers apart: as long as their totals agree, the two
runs take the same decisions and write the same records.

## Main definitions

* `Call`: An invocation and what the durable sink does with its record.
* `booksAfter`: The books after a sequence of calls.
* `LedgersAgree`: Same totals and same budget decisions, all along.
* `ChargedAlike`: A call that both ledgers charge the same.

## Theorems

* `postgres_serve`, `inMemory_serve`: What one call does to each total.
* `ledgers_agree_iff`: The ledgers agree exactly on calls charged alike.
* `schemaMiss_splits_ledgers`: They do not agree on every sequence of calls.
* `charge_iff`, `miss_iff`: Which token counts are charged alike.
-/

namespace TechScreen.Llm

open Lib

section Serving

/-- An invocation, the context bound for its row, and whether the database takes
    the row. -/
structure Call where
  invocation : Invocation
  context : TurnTraceContext := {}
  up : Bool := true

def Call.sessionId (call : Call) : Uuid := call.invocation.request.sessionId

variable (rt : Runtime) (ledger : CostLedger Books)

/-- Serve one call with a ledger and the durable sink. -/
def serve (books : Books) (call : Call) : Books :=
  (callModel rt (postgresTraceSink call.context call.up) ledger call.invocation books).2

/-- The books after a sequence of calls, from empty ones. -/
def booksAfter (calls : List Call) : Books := calls.foldl (serve rt ledger) {}

/-- What a ledger says a session has spent after a sequence of calls. -/
def totalAfter (calls : List Call) (sessionId : Uuid) : ℚ :=
  ledger.sessionTotal (booksAfter rt ledger calls) sessionId

end Serving

/-- What the row of a cost adds to the sum of the rows. -/
def recorded (call : Call) (inputTokens outputTokens : Nat) (cost : ℚ) : ℚ :=
  if call.up = true ∧ FitsColumns call.invocation.latencyMs inputTokens outputTokens cost then
    storedCost cost
  else 0

/-- Both ledgers charge the call the same, when the session has spent the total:
    if the call is admitted and the backend returns a result, then a result that
    misses its schema records no cost, and one that passes records the cost that
    is added. -/
def ChargedAlike (rt : Runtime) (call : Call) (total : ℚ) : Prop :=
  ∀ resolved raw attempts cost,
    admitCall rt call.invocation total = .ok resolved →
    callBackend call.invocation resolved = .ok (raw, attempts) →
    costOf rt resolved raw = .ok cost →
      match call.invocation.request.jsonSchema.map (parseAndValidate rt raw.text) with
      | some (.error (.raised _)) => True
      | some (.error (.schema _)) => recorded call raw.inputTokens raw.outputTokens cost = 0
      | _ => dec (total + cost) = total + recorded call raw.inputTokens raw.outputTokens cost

/-- The two ledgers agree along a sequence of calls: on every session's total
    after every call, and on what the next call is allowed to do. -/
def LedgersAgree (rt : Runtime) (calls : List Call) : Prop :=
  ∀ us vs, calls = us ++ vs →
    (∀ sid, totalAfter rt postgresCostLedger us sid = totalAfter rt inMemoryCostLedger us sid) ∧
    ∀ call ∈ vs.head?,
      admitCall rt call.invocation (totalAfter rt postgresCostLedger us call.sessionId) =
        admitCall rt call.invocation (totalAfter rt inMemoryCostLedger us call.sessionId)

section Stages

variable {rt : Runtime} {call : Invocation} {resolved : Resolved} {total : ℚ} {stop : Stop}

/-- What the trace of a stopped invocation charges. -/
def Stop.cost : Stop → ℚ
  | .failed f => f.costUsd
  | .escaped _ => 0

theorem agentConfig_free {request : ModelCallRequest} (h : agentConfig rt request = .error stop) :
    stop.cost = 0 := by
  rcases agentConfig_stop h with ⟨e, -, rfl⟩ | ⟨-, message, rfl⟩
  · rfl
  · rcases agentConfigError_cases rt request message with ⟨e, -, he⟩ | ⟨promptSha, -, hf⟩
    · rw [he]
      rfl
    · rw [hf]
      rfl

theorem pricingTable_free {model : {model : String // model ≠ ""}} {promptSha : Digest}
    (h : pricingTable rt model promptSha = .error stop) : stop.cost = 0 := by
  unfold pricingTable at h
  split at h
  · cases h
    rfl
  · cases h
    rfl
  · next pricing _ =>
      cases hp : pricing.costFor model.val 0 0 with
      | ok c =>
          rw [hp] at h
          cases h
      | error e =>
          rw [hp] at h
          cases h
          rfl

theorem checkBudget_free {model : {model : String // model ≠ ""}} {promptSha : Digest}
    (h : checkBudget rt call model promptSha total = .error stop) : stop.cost = 0 := by
  unfold checkBudget at h
  split at h
  · cases h
    rfl
  · cases h

/-- An invocation that is not admitted costs nothing. -/
theorem admitCall_free (h : admitCall rt call total = .error stop) : stop.cost = 0 := by
  rcases admitCall_stop h with
    ha | ⟨config, -, hsha | ⟨promptSha, -, hp | ⟨-, hb⟩⟩⟩
  · exact agentConfig_free ha
  · rcases canonicalPromptSha_stop hsha with ⟨e, -, rfl⟩
    rfl
  · exact pricingTable_free hp
  · exact checkBudget_free hb

/-- A backend call that returns nothing costs nothing. -/
theorem callBackend_free (h : callBackend call resolved = .error stop) : stop.cost = 0 := by
  unfold callBackend at h
  split at h
  · cases h
    rfl
  · simp only at h
    split at h <;> cases h <;> rfl

end Stages

section OneCall

variable (rt : Runtime)

/-- What an invocation adds to the sum of the rows, from its stages before the
    charge. -/
def recordedBy (call : Call) : Except Stop Answer → ℚ
  | .error (.escaped _) => 0
  | .error (.failed f) => recorded call ((f.raw.map RawBackendResult.inputTokens).getD 0)
      ((f.raw.map RawBackendResult.outputTokens).getD 0) f.costUsd
  | .ok a => recorded call a.raw.inputTokens a.raw.outputTokens a.costUsd

/-- The session's own total after an invocation. -/
def addedBy (total : ℚ) : Except Stop Answer → ℚ
  | .ok a => dec (total + a.costUsd)
  | .error _ => total

@[simp] theorem storedCost_zero : storedCost 0 = 0 := toScale_zero 6

theorem recordedBy_of_free (call : Call) {stop : Stop} (h : stop.cost = 0) :
    recordedBy call (.error stop) = 0 := by
  cases stop with
  | escaped error => rfl
  | failed f =>
      have hc : f.costUsd = 0 := h
      simp only [recordedBy, recorded, hc, storedCost_zero, ite_self]

/-- The cost of an answer is what its result costs. -/
theorem consult_ok {call : Invocation} {total : ℚ} {a : Answer}
    (h : consult rt call total = .ok a) : costOf rt a.resolved a.raw = .ok a.costUsd := by
  simp only [consult, bind, Except.bind] at h
  split at h
  · cases h
  · split at h
    · cases h
    · split at h
      · cases h
      · split at h
        · cases h
        · next hc =>
            cases h
            exact hc

theorem costOf_nonneg {resolved : Resolved} {raw : RawBackendResult} {cost : ℚ}
    (h : costOf rt resolved raw = .ok cost) : 0 ≤ cost := by
  unfold costOf at h
  cases hc : resolved.pricing.costFor resolved.model.val raw.inputTokens raw.outputTokens with
  | error e =>
      rw [hc] at h
      cases h
  | ok c =>
      rw [hc] at h
      cases h
      exact PricingTable.costFor_nonneg hc

theorem costOf_free {resolved : Resolved} {raw : RawBackendResult} {stop : Stop}
    (h : costOf rt resolved raw = .error stop) : stop.cost = 0 := by
  unfold costOf at h
  cases hc : resolved.pricing.costFor resolved.model.val raw.inputTokens raw.outputTokens with
  | error e =>
      rw [hc] at h
      cases h
      rfl
  | ok c =>
      rw [hc] at h
      cases h

/-- An invocation whose result cannot be priced costs nothing. -/
theorem checkSchema_free {call : Invocation} {resolved : Resolved} {raw : RawBackendResult}
    {attempts : Attempts} {stop stop' : Stop} (hc : costOf rt resolved raw = .error stop')
    (h : checkSchema rt call resolved raw attempts = .error stop) : stop.cost = 0 := by
  unfold checkSchema at h
  split at h
  · cases h
  · split at h
    · cases h
    · cases h
      rfl
    · simp only [hc, bind, Except.bind] at h
      cases h
      exact costOf_free rt hc

/-- The two ledgers charge an invocation the same exactly when what its record
    adds to the rows is what its answer adds to the total. -/
theorem chargedAlike_iff (call : Call) (total : ℚ) :
    ChargedAlike rt call total ↔
      total + recordedBy call (consult rt call.invocation total) =
        addedBy total (consult rt call.invocation total) := by
  -- The stages in turn: whichever stops the invocation has charged nothing.
  cases ha : admitCall rt call.invocation total with
  | error stop =>
      have hx : consult rt call.invocation total = .error stop := by
        simp only [consult, ha, bind, Except.bind]
      rw [hx, recordedBy_of_free call (admitCall_free ha), add_zero]
      refine iff_of_true ?_ rfl
      intro resolved _ _ _ hr
      rw [ha] at hr
      cases hr
  | ok resolved =>
  cases hb : callBackend call.invocation resolved with
  | error stop =>
      have hx : consult rt call.invocation total = .error stop := by
        simp only [consult, ha, hb, bind, Except.bind]
      rw [hx, recordedBy_of_free call (callBackend_free hb), add_zero]
      refine iff_of_true ?_ rfl
      intro resolved' _ _ _ hr hb'
      rw [ha] at hr
      cases hr
      rw [hb] at hb'
      cases hb'
  | ok answered =>
  rcases answered with ⟨raw, attempts⟩
  cases hc : costOf rt resolved raw with
  | error stop =>
      -- A result without a price is charged by neither.
      have hx : ∃ stop', consult rt call.invocation total = .error stop' ∧ stop'.cost = 0 := by
        cases hs : checkSchema rt call.invocation resolved raw attempts with
        | error stop' =>
            exact ⟨stop', by simp only [consult, ha, hb, hs, bind, Except.bind],
              checkSchema_free rt hc hs⟩
        | ok parsed =>
            exact ⟨stop, by simp only [consult, ha, hb, hs, hc, bind, Except.bind],
              costOf_free rt hc⟩
      rcases hx with ⟨stop', hx, hfree⟩
      rw [hx, recordedBy_of_free call hfree, add_zero]
      refine iff_of_true ?_ rfl
      intro resolved' raw' attempts' cost hr hb' hc'
      rw [ha] at hr
      cases hr
      rw [hb] at hb'
      cases hb'
      rw [hc] at hc'
      cases hc'
  | ok cost =>
      have hunfold : ChargedAlike rt call total ↔
          match call.invocation.request.jsonSchema.map (parseAndValidate rt raw.text) with
          | some (.error (.raised _)) => True
          | some (.error (.schema _)) => recorded call raw.inputTokens raw.outputTokens cost = 0
          | _ =>
              dec (total + cost) = total + recorded call raw.inputTokens raw.outputTokens cost := by
        constructor
        · exact fun h => h resolved raw attempts cost ha hb hc
        · intro h resolved' raw' attempts' cost' hr hb' hc'
          rw [ha] at hr
          cases hr
          rw [hb] at hb'
          cases hb'
          rw [hc] at hc'
          cases hc'
          exact h
      rw [hunfold]
      cases hs : call.invocation.request.jsonSchema with
      | none =>
          simp only [consult, ha, hb, checkSchema, hs, hc, bind, Except.bind, pure, Except.pure,
            Option.map_none, recordedBy, addedBy]
          exact eq_comm
      | some schema =>
          cases hp : parseAndValidate rt raw.text schema with
          | ok parsed =>
              simp only [consult, ha, hb, checkSchema, hs, hp, hc, bind, Except.bind, pure,
                Except.pure, Option.map_some, recordedBy, addedBy]
              exact eq_comm
          | error miss =>
              cases miss with
              | raised error =>
                  simp only [consult, ha, hb, checkSchema, hs, hp, bind, Except.bind,
                    Option.map_some, recordedBy, addedBy, add_zero]
              | schema message =>
                  simp only [consult, ha, hb, checkSchema, hs, hp, hc, bind, Except.bind,
                    Option.map_some, Option.getD_some, recordedBy, addedBy, add_eq_left]

end OneCall

section Runs

variable (rt : Runtime)

/-- The books after an attempt to write a record. -/
def written (call : Call) (record : TraceRecord) (books : Books) : Books :=
  match persistTrace (postgresTraceSink call.context call.up) record books with
  | .ok books' => books'
  | .error _ => books

/-- A record is a row of its session with the cost that its columns keep, or
    nothing is written. -/
theorem total_written (call : Call) (record : TraceRecord) (books : Books) (sid : Uuid) :
    sessionCostTotal (written call record books).rows sid = sessionCostTotal books.rows sid +
      (if record.sessionId = sid then
        (if call.up = true ∧ FitsColumns record.latencyMs record.inputTokens record.outputTokens
            record.costUsd then storedCost record.costUsd else 0)
      else 0) := by
  by_cases hfit : call.up = true ∧ FitsColumns record.latencyMs record.inputTokens
      record.outputTokens record.costUsd
  · have hw : written call record books =
        { books with rows := books.rows ++ [row call.context record] } := by
      simp only [written, persistTrace, postgresTraceSink, if_pos hfit, Except.mapError]
    rw [hw, sessionCostTotal_snoc, if_pos hfit]
    rfl
  · have hw : written call record books = books := by
      simp only [written, persistTrace, postgresTraceSink, if_neg hfit, Except.mapError]
    rw [hw, if_neg hfit, ite_self, add_zero]

theorem totals_written (call : Call) (record : TraceRecord) (books : Books) :
    (written call record books).totals = books.totals := by
  by_cases hfit : call.up = true ∧ FitsColumns record.latencyMs record.inputTokens
      record.outputTokens record.costUsd
  · simp only [written, persistTrace, postgresTraceSink, if_pos hfit, Except.mapError]
  · simp only [written, persistTrace, postgresTraceSink, if_neg hfit, Except.mapError]

variable {rt} {ledger : CostLedger Books} {call : Call} {books : Books}

theorem serve_escaped {error : Raised}
    (h : consult rt call.invocation (ledger.sessionTotal books call.sessionId) =
      .error (.escaped error)) : serve rt ledger books call = books := by
  have h' : consult rt call.invocation
      (ledger.sessionTotal books call.invocation.request.sessionId) = .error (.escaped error) := h
  simp only [serve, callModel, h']

theorem serve_failed {f : Failure}
    (h : consult rt call.invocation (ledger.sessionTotal books call.sessionId) =
      .error (.failed f)) :
    serve rt ledger books call = written call (failureRecord call.invocation f) books := by
  have h' : consult rt call.invocation
      (ledger.sessionTotal books call.invocation.request.sessionId) = .error (.failed f) := h
  cases hp : persistTrace (postgresTraceSink call.context call.up)
      (failureRecord call.invocation f) books with
  | ok books' => simp only [serve, callModel, h', written, hp]
  | error e => simp only [serve, callModel, h', written, hp]

theorem serve_ok {a : Answer} {charged : Books}
    (h : consult rt call.invocation (ledger.sessionTotal books call.sessionId) = .ok a)
    (hadd : ledger.add books call.sessionId a.costUsd = .ok charged) :
    serve rt ledger books call = written call (answerRecord call.invocation a) charged := by
  have h' : consult rt call.invocation
      (ledger.sessionTotal books call.invocation.request.sessionId) = .ok a := h
  have hadd' : ledger.add books call.invocation.request.sessionId a.costUsd = .ok charged := hadd
  cases hp : persistTrace (postgresTraceSink call.context call.up)
      (answerRecord call.invocation a) charged with
  | ok books' => simp only [serve, callModel, h', hadd', written, hp]
  | error e => simp only [serve, callModel, h', hadd', written, hp]

variable (rt) (books) (call)

/-- What one call does to the sum of the rows. -/
theorem postgres_serve (sid : Uuid) :
    postgresCostLedger.sessionTotal (serve rt postgresCostLedger books call) sid =
      postgresCostLedger.sessionTotal books sid +
        (if call.sessionId = sid then
          recordedBy call (consult rt call.invocation
            (postgresCostLedger.sessionTotal books call.sessionId))
        else 0) := by
  cases hx : consult rt call.invocation (postgresCostLedger.sessionTotal books call.sessionId) with
  | error stop =>
      cases stop with
      | escaped error =>
          rw [serve_escaped hx, recordedBy, ite_self, add_zero]
      | failed f =>
          rw [serve_failed hx]
          exact total_written call (failureRecord call.invocation f) books sid
  | ok a =>
      have hadd : postgresCostLedger.add books call.sessionId a.costUsd = .ok books :=
        if_neg (not_lt.mpr (costOf_nonneg rt (consult_ok rt hx)))
      rw [serve_ok hx hadd]
      exact total_written call (answerRecord call.invocation a) books sid

/-- What one call does to the totals of the other ledger. -/
theorem inMemory_serve (sid : Uuid) :
    inMemoryCostLedger.sessionTotal (serve rt inMemoryCostLedger books call) sid =
      if call.sessionId = sid then
        addedBy (inMemoryCostLedger.sessionTotal books call.sessionId) (consult rt call.invocation
          (inMemoryCostLedger.sessionTotal books call.sessionId))
      else inMemoryCostLedger.sessionTotal books sid := by
  have hkept (x : ℚ) (hx : inMemoryCostLedger.sessionTotal books call.sessionId = x) :
      inMemoryCostLedger.sessionTotal books sid =
        if call.sessionId = sid then x else inMemoryCostLedger.sessionTotal books sid := by
    split
    · next h => rw [← h, hx]
    · rfl
  cases hx : consult rt call.invocation (inMemoryCostLedger.sessionTotal books call.sessionId) with
  | error stop =>
      cases stop with
      | escaped error =>
          rw [serve_escaped hx]
          exact hkept _ rfl
      | failed f =>
          rw [serve_failed hx]
          simp only [inMemoryCostLedger, totals_written]
          exact hkept _ rfl
  | ok a =>
      have hadd : inMemoryCostLedger.add books call.sessionId a.costUsd = .ok { books with
          totals := books.totals.set call.sessionId
            (dec (inMemoryCostLedger.sessionTotal books call.sessionId + a.costUsd)) } :=
        if_neg (not_lt.mpr (costOf_nonneg rt (consult_ok rt hx)))
      rw [serve_ok hx hadd]
      simp only [inMemoryCostLedger, totals_written, Dict.get?_set]
      by_cases h : call.sessionId = sid
      · simp only [h, if_true, Option.getD_some, addedBy]
      · simp only [if_neg h, if_neg (Ne.symm h)]

end Runs

section Agreement

variable (rt : Runtime)

/-- A call keeps the ledgers equal exactly when both charge it the same. -/
theorem agree_serve (p m : Books)
    (h : ∀ sid, postgresCostLedger.sessionTotal p sid = inMemoryCostLedger.sessionTotal m sid)
    (call : Call) :
    (∀ sid, postgresCostLedger.sessionTotal (serve rt postgresCostLedger p call) sid =
        inMemoryCostLedger.sessionTotal (serve rt inMemoryCostLedger m call) sid) ↔
      ChargedAlike rt call (postgresCostLedger.sessionTotal p call.sessionId) := by
  rw [chargedAlike_iff]
  constructor
  · intro hsid
    have hs := hsid call.sessionId
    rwa [postgres_serve, inMemory_serve, if_pos rfl, if_pos rfl, ← h] at hs
  · intro hcharge sid
    rw [postgres_serve, inMemory_serve, ← h, ← h]
    by_cases hc : call.sessionId = sid
    · rw [if_pos hc, if_pos hc, ← hc, hcharge]
    · rw [if_neg hc, if_neg hc, add_zero]

/-- The two ledgers agree along a sequence of calls exactly when every one of
    them is charged alike, at the total the session has reached by then. -/
theorem ledgers_agree_iff (calls : List Call) :
    LedgersAgree rt calls ↔ ∀ us call vs, calls = us ++ call :: vs →
      ChargedAlike rt call (totalAfter rt postgresCostLedger us call.sessionId) := by
  have hstart : ∀ sid, postgresCostLedger.sessionTotal ({} : Books) sid =
      inMemoryCostLedger.sessionTotal ({} : Books) sid := fun _ => rfl
  have hrel := relatedAlong_iff (R := fun p m => ∀ sid, postgresCostLedger.sessionTotal p sid =
    inMemoryCostLedger.sessionTotal m sid) (fun p m call h => agree_serve rt p m h call) hstart
    calls
  refine Iff.trans ?_ hrel
  constructor
  · exact fun h us vs hcalls => (h us vs hcalls).1
  · intro h us vs hcalls
    -- Equal totals leave the budget check no choice.
    refine ⟨h us vs hcalls, ?_⟩
    intro call _
    rw [show totalAfter rt postgresCostLedger us call.sessionId =
      totalAfter rt inMemoryCostLedger us call.sessionId from h us vs hcalls call.sessionId]

end Agreement

section SchemaMiss

/-- A runtime with the committed registries and the library functions as they
    are on the inputs below. -/
def smallRuntime : Runtime where
  models := .ok .committed
  pricing := .ok .committed
  sha256 := fun _ =>
    .ok ⟨"8cf0ca6b52737a84bda9e153a061007131950040b6ca5e12988a26277012d9b1", by decide +kernel⟩
  loads := fun text => if text = "{}" then .value (.obj [])
    else .decodeError "Expecting value: line 1 column 1 (char 0)"
  repr := fun _ => "''"
  decimalText := fun q => if q = 675 / 1000000 then "0.000675" else "0.0005"

/-- An interviewer call whose backend returns a text at once. -/
def smallCall (text : String) (inputTokens outputTokens : Nat) : Call where
  invocation :=
    { request :=
        { agent := "interviewer", systemPrompt := "Ask the next question.", userPayload := "{}"
          jsonSchema := some [("type", .str "object")], sessionId := ⟨7⟩
          agent_ne := by decide, systemPrompt_length := by decide, userPayload_length := by decide
          timeoutS_range := timeoutS_default, maxOutputTokens_range := maxOutputTokens_default }
      settings := ⟨5 / 10000⟩
      backend := .ok ⟨fun _ _ => .result ⟨text, inputTokens, outputTokens, "gemini-2.5-flash",
        "gemini-2.5-flash-001", flash_ne, by decide⟩, fun _ => false⟩
      latencyMs := 800
      traceId := ⟨1⟩
      createdAt := 0 }

/-- A schema miss is charged by the rows and not by the other ledger, and the
    next call is refused under the one and admitted under the other. A call
    that costs less than half a millionth is charged the other way round. -/
theorem schemaMiss_splits_ledgers :
    (totalAfter smallRuntime postgresCostLedger [smallCall "oops" 1000 2000] ⟨7⟩ = 675 / 1000000 ∧
      totalAfter smallRuntime inMemoryCostLedger [smallCall "oops" 1000 2000] ⟨7⟩ = 0 ∧
      (admitCall smallRuntime (smallCall "{}" 1000 2000).invocation (675 / 1000000)).isOk = false ∧
      (admitCall smallRuntime (smallCall "{}" 1000 2000).invocation 0).isOk = true ∧
      ¬ LedgersAgree smallRuntime [smallCall "oops" 1000 2000]) ∧
    totalAfter smallRuntime postgresCostLedger [smallCall "{}" 1 0] ⟨7⟩ = 0 ∧
      totalAfter smallRuntime inMemoryCostLedger [smallCall "{}" 1 0] ⟨7⟩ = 75 / 1000000000 := by
  have hp : totalAfter smallRuntime postgresCostLedger [smallCall "oops" 1000 2000] ⟨7⟩ =
      675 / 1000000 := by decide +kernel
  have hm : totalAfter smallRuntime inMemoryCostLedger [smallCall "oops" 1000 2000] ⟨7⟩ = 0 := by
    decide +kernel
  refine ⟨⟨hp, hm, by decide +kernel, by decide +kernel, ?_⟩, by decide +kernel, by decide +kernel⟩
  intro h
  have heq := (h [smallCall "oops" 1000 2000] [] rfl).1 ⟨7⟩
  rw [hp, hm] at heq
  exact absurd heq (by norm_num)

end SchemaMiss

section Charges

/-- A cost of `k` decimals too many fits its column when they are zeros. -/
theorem storedCost_eq_iff (k m : Nat) :
    storedCost ((m : ℤ) / 10 ^ (6 + k)) = (m : ℤ) / 10 ^ (6 + k) ↔ 10 ^ k ∣ m := by
  have hscale : ((m : ℤ) : ℚ) / 10 ^ (6 + k) * 10 ^ 6 = (m : ℚ) / 10 ^ k := by
    rw [pow_add]
    push_cast
    field_simp
  rw [storedCost, toScale_eq_self_iff, hscale]
  constructor
  · rintro ⟨n, hn⟩
    rw [div_eq_iff (by positivity)] at hn
    have hz : (m : ℤ) = n * 10 ^ k := by exact_mod_cast hn
    exact_mod_cast (Dvd.intro_left n hz.symm : ((10 : ℤ) ^ k) ∣ m)
  · rintro ⟨n, rfl⟩
    refine ⟨n, ?_⟩
    push_cast
    field_simp

/-- It is lost when it is below half a millionth. -/
theorem storedCost_eq_zero_iff (k m : Nat) :
    storedCost ((m : ℤ) / 10 ^ (6 + k)) = 0 ↔ 2 * m < 10 ^ k := by
  have hscale : 2 * (((m : ℤ) : ℚ) / 10 ^ (6 + k)) * 10 ^ 6 = ((2 * m : ℕ) : ℚ) / 10 ^ k := by
    rw [pow_add]
    push_cast
    field_simp
  rw [storedCost, toScale_eq_zero_iff _ _ (by positivity), hscale, div_lt_one (by positivity)]
  exact_mod_cast Iff.rfl

/-- Adding a cost to a total of whole millionths is what its column adds, when
    the column keeps the cost. -/
theorem dec_add_eq_iff (k t m : Nat) (hd : t * 10 ^ k + m < 10 ^ 28) :
    dec ((t : ℤ) / 10 ^ 6 + (m : ℤ) / 10 ^ (6 + k)) =
      (t : ℤ) / 10 ^ 6 + storedCost ((m : ℤ) / 10 ^ (6 + k)) ↔ 10 ^ k ∣ m := by
  have hsum : ((t : ℤ) : ℚ) / 10 ^ 6 + ((m : ℤ) : ℚ) / 10 ^ (6 + k) =
      ((t * 10 ^ k + m : ℕ) : ℤ) / 10 ^ (6 + k) := by
    rw [pow_add]
    push_cast
    field_simp
  have habs : |((t * 10 ^ k + m : ℕ) : ℤ)| < 10 ^ 28 := by
    rw [Nat.abs_cast]
    exact_mod_cast hd
  rw [hsum, dec_of_digits _ _ habs, ← hsum, add_right_inj, eq_comm, storedCost_eq_iff]

section Prices

variable (p : ModelPricing) (k a b i o : Nat)
  (ha : p.inputPer1kTokens = (a : ℤ) / 10 ^ (3 + k))
  (hb : p.outputPer1kTokens = (b : ℤ) / 10 ^ (3 + k))

include ha hb

/-- Prices of `3 + k` decimals make costs of `6 + k` decimals. -/
theorem cost_of_decimals (hd : a * i + b * o < 10 ^ 28) :
    p.cost i o = ((a * i + b * o : ℕ) : ℤ) / 10 ^ (6 + k) := by
  rw [p.cost_of_digits (3 + k) a b i o ha hb hd, show 3 + k + 3 = 6 + k by omega]

/-- An answer that is stored is charged alike when the last `k` decimals of its
    cost are zeros. -/
theorem charge_iff (t : Nat) (hd : t * 10 ^ k + (a * i + b * o) < 10 ^ 28) :
    dec ((t : ℤ) / 10 ^ 6 + p.cost i o) = (t : ℤ) / 10 ^ 6 + storedCost (p.cost i o) ↔
      10 ^ k ∣ a * i + b * o := by
  rw [cost_of_decimals p k a b i o ha hb (Nat.lt_of_le_of_lt (Nat.le_add_left _ _) hd),
    dec_add_eq_iff k t _ hd]

/-- A schema miss is charged alike when its cost is below half a millionth. -/
theorem miss_iff (hd : a * i + b * o < 10 ^ 28) :
    storedCost (p.cost i o) = 0 ↔ 2 * (a * i + b * o) < 10 ^ k := by
  rw [cost_of_decimals p k a b i o ha hb hd, storedCost_eq_zero_iff k]

end Prices

/-- At the committed prices a stored answer is charged alike when the tokens of
    Gemini 2.5 Flash, four times over for output, come in forties, and when the
    input tokens of Gemini 2.5 Pro come in fours. -/
theorem committed_charge_iff (t i o : Nat) (ht : t < 10 ^ 24) (hi : i ≤ maxInteger)
    (ho : o ≤ maxInteger) :
    (dec ((t : ℤ) / 10 ^ 6 + ModelPricing.flash.cost i o) =
      (t : ℤ) / 10 ^ 6 + storedCost (ModelPricing.flash.cost i o) ↔ 40 ∣ i + 4 * o) ∧
    (dec ((t : ℤ) / 10 ^ 6 + ModelPricing.pro.cost i o) =
      (t : ℤ) / 10 ^ 6 + storedCost (ModelPricing.pro.cost i o) ↔ 4 ∣ i) := by
  simp only [maxInteger] at hi ho
  constructor
  · rw [charge_iff .flash 3 75 300 i o (by norm_num [ModelPricing.flash])
      (by norm_num [ModelPricing.flash]) t (by omega)]
    omega
  · rw [charge_iff .pro 2 125 500 i o (by norm_num [ModelPricing.pro])
      (by norm_num [ModelPricing.pro]) t (by omega)]
    omega

/-- And a miss is when it is all but free, or free. -/
theorem committed_miss_iff (i o : Nat) (hi : i ≤ maxInteger) (ho : o ≤ maxInteger) :
    (storedCost (ModelPricing.flash.cost i o) = 0 ↔ i + 4 * o ≤ 6) ∧
      (storedCost (ModelPricing.pro.cost i o) = 0 ↔ i = 0 ∧ o = 0) := by
  simp only [maxInteger] at hi ho
  constructor
  · rw [miss_iff .flash 3 75 300 i o (by norm_num [ModelPricing.flash])
      (by norm_num [ModelPricing.flash]) (by omega)]
    omega
  · rw [miss_iff .pro 2 125 500 i o (by norm_num [ModelPricing.pro])
      (by norm_num [ModelPricing.pro]) (by omega)]
    omega

end Charges

end TechScreen.Llm
