import TechScreen.Llm.Trace

/-!
# The Model-Call Wrapper

`call_model`, the one way to a model. An invocation resolves the agent and the
model, looks the model up in the price table, refuses a session that has spent
its budget, calls the backend within a retry budget and a wall-clock cap,
validates what came back, charges the ledger and writes one trace record.

The stages before the charge change nothing, so they are a computation that ends
in an answer, in a failure to be traced, or in an exception that no handler of
the wrapper catches. Only then are the ledger and the sink used.

How a `generate` call ends is up to the backend, and whether the wall clock runs
out during a call or during the wait after one is up to time.

## Main definitions

* `ModelCallRequest`, `ModelCallResult`: The call surface.
* `Reply`, `Backend`: What the environment does with `generate` calls.
* `callWithRetries`: The retry loop under the wall-clock cap.
* `validateAgainstSchema`, `parseAndValidate`: Checking an answer.
* `consult`: The stages of an invocation before the charge.
* `callModel`: One invocation.
-/

namespace TechScreen.Llm

open Lib

section Surface

/-- Typed input of an invocation. -/
structure ModelCallRequest where
  agent : String
  systemPrompt : String
  userPayload : String
  jsonSchema : Option Fields := none
  sessionId : Uuid
  timeoutS : Nat := 30
  maxOutputTokens : Nat := 4096
  modelOverride : Option String := none
  agent_ne : agent ≠ ""
  systemPrompt_length : 1 ≤ systemPrompt.length ∧ systemPrompt.length ≤ 64000
  userPayload_length : 1 ≤ userPayload.length ∧ userPayload.length ≤ 200000
  timeoutS_range : 1 ≤ timeoutS ∧ timeoutS ≤ 30
  maxOutputTokens_range : 1 ≤ maxOutputTokens ∧ maxOutputTokens ≤ 4096

/-! The defaults of a request are in range. -/

theorem timeoutS_default : 1 ≤ 30 ∧ 30 ≤ 30 := by decide
theorem maxOutputTokens_default : 1 ≤ 4096 ∧ 4096 ≤ 4096 := by decide

/-- Typed output, only when all went well. -/
structure ModelCallResult where
  text : String
  parsed : Option Fields
  inputTokens : Nat
  outputTokens : Nat
  costUsd : ℚ
  latencyMs : Nat
  model : String
  modelVersion : String
  attempts : Attempts
  traceId : Uuid

/-- What a backend returns. -/
structure RawBackendResult where
  text : String
  inputTokens : Nat
  outputTokens : Nat
  model : String
  modelVersion : String
  model_ne : model ≠ ""
  modelVersion_ne : modelVersion ≠ ""

/-- Transport-level errors, as backends classify them. -/
inductive BackendError where
  | transient (text : String)
  | deadlineExceeded (text : String)
  | caller (text : String)
  | upstream (text : String)
  deriving DecidableEq

/-- How one `generate` call ends. It may raise one of the wrapper's own errors,
    a timeout of its own, an exception of any other class, or one that is not an
    `Exception` at all; or it may still be running when the wall clock fires. -/
inductive Reply where
  | result (raw : RawBackendResult)
  | backend (error : BackendError)
  | connection (text : String)
  | wrapper (error : WrapperError)
  | timeout
  | other (error : Unexpected)
  | interrupt (error : Unexpected)
  | pending

/-- The arguments of a `generate` call. -/
structure GenerateCall where
  systemPrompt : String
  userPayload : String
  jsonSchema : Option Fields
  model : String
  temperature : ℚ
  maxOutputTokens : Nat
  timeoutS : Nat

/-- A backend as one invocation meets it: how its calls end, in turn, and
    whether the wall clock fires in the wait after one of them. -/
structure Backend where
  generate : GenerateCall → Nat → Reply
  expiresAfter : Nat → Bool := fun _ => false

/-- What `json.loads` makes of a text. Its numbers are finite and its strings are made of
    characters: texts with `NaN`, an infinity or an unpaired surrogate are left out. -/
inductive Loads where
  | value (document : Json)
  | decodeError (text : String)
  | raised (error : Unexpected)

/-- Loading a registry: a configuration error, or any other exception. -/
inductive LoadError where
  | config (message : String)
  | other (error : Unexpected)

/-- The canonical prompt payload. -/
structure PromptPayload where
  systemPrompt : String
  userPayload : String
  jsonSchema : Option Fields
  agent : String
  model : String

/-- What the wrapper finds around it: the registries, loaded once, and the
    library functions it relies on. A payload may have no digest: a schema that
    holds more than JSON data cannot be written as JSON. -/
structure Runtime where
  models : Except LoadError ModelsConfig
  pricing : Except LoadError PricingTable
  sha256 : PromptPayload → Except Unexpected Digest
  loads : String → Loads
  repr : Json → String
  decimalText : ℚ → String

/-- How `str` values are quoted. -/
def Runtime.quote (rt : Runtime) (s : String) : String := rt.repr (.str s)

structure Settings where
  llmBudgetPerSessionUsd : ℚ

/-- One invocation, with what the environment does during it: the backend that
    is selected, or the exception its construction raises, the clock and the
    identifier of the trace. -/
structure Invocation where
  request : ModelCallRequest
  settings : Settings
  backend : Except Unexpected Backend
  latencyMs : Nat
  traceId : Uuid
  createdAt : Instant

end Surface

section Retries

/-- What the retry loop has caught, when it is translated. -/
inductive ProviderError where
  | backend (error : BackendError)
  | connection (text : String)
  | other (error : Unexpected)

/-- Translate a provider error into an error of the wrapper. -/
def classifyProviderError : ProviderError → WrapperError
  | .backend (.deadlineExceeded text) => .vertexTimeout ("vertex deadline exceeded: " ++ text)
  | .backend (.transient text) | .connection text =>
      .vertexUpstreamUnavailable ("vertex upstream unavailable after retries: " ++ text)
  | .backend (.caller text) => .modelCallConfig ("vertex caller-side error: " ++ text)
  | .backend (.upstream text) => .vertexUpstreamUnavailable ("vertex API error: " ++ text)
  | .other error => .vertexUpstreamUnavailable ("vertex backend raised " ++ error.show)

/-- How the retry loop ends for the caller. An error of the wrapper carries the
    number of attempts; any other exception has lost it. -/
inductive RetryExit where
  | returned (raw : RawBackendResult)
  | failed (error : WrapperError)
  | timedOut
  | other (error : Unexpected)
  | interrupted (error : Unexpected)

/-- A finished retry loop, and the `generate` calls it has started. -/
structure Attempted where
  started : Attempts
  exit : RetryExit

/-- The retry loop from an attempt on, with so many left after it. -/
def attemptFrom (backend : Backend) (call : GenerateCall) :
    (left : Nat) → (n : Nat) → 1 ≤ n → n + left = 3 → Attempted
  | left, n, hn, hl =>
    let started : Attempts := ⟨n, hn, by omega⟩
    -- A retried error: wait and try again, or give up with the last one.
    let retry (error : ProviderError) : Attempted :=
      match left, hl with
      | 0, _ => ⟨started, .failed (classifyProviderError error)⟩
      | left + 1, hl =>
          if backend.expiresAfter n then ⟨started, .timedOut⟩
          else attemptFrom backend call left (n + 1) (by omega) (by omega)
    match backend.generate call n with
    | .result raw => ⟨started, .returned raw⟩
    | .backend (.transient text) => retry (.backend (.transient text))
    | .connection text => retry (.connection text)
    | .backend error => ⟨started, .failed (classifyProviderError (.backend error))⟩
    | .wrapper error => ⟨started, .failed error⟩
    | .timeout => ⟨started, .timedOut⟩
    | .other error => ⟨started, .other error⟩
    | .interrupt error => ⟨started, .interrupted error⟩
    | .pending => ⟨started, .timedOut⟩

/-- The backend call inside the retry loop, under the wall-clock cap. -/
def callWithRetries (backend : Backend) (call : GenerateCall) : Attempted :=
  attemptFrom backend call 2 1 (by omega) (by omega)

end Retries

section Validation

/-- `type(value).__name__`. -/
def typeName : Json → String
  | .null => "NoneType"
  | .bool _ => "bool"
  | .int _ => "int"
  | .float _ => "float"
  | .str _ => "str"
  | .arr _ => "list"
  | .obj _ => "dict"

def truthy : Json → Bool
  | .null => false
  | .bool b => b
  | .int n => n != 0
  | .float q => q != 0
  | .str s => s != ""
  | .arr items => !items.isEmpty
  | .obj fields => !fields.isEmpty

/-- How a text fails validation: a schema error with its message, or an
    exception that a malformed schema makes the validator raise. -/
inductive Miss where
  | schema (message : String)
  | raised (error : Unexpected)

/-- `schema.get(key) or default`. -/
def given (schema : Fields) (key : String) : Option Json :=
  (schema.lookup key).filter truthy

/-- The keys that iterating over `required` yields. -/
def requiredKeys (schema : Fields) : Except Miss (List Json) :=
  match given schema "required" with
  | none => .ok []
  | some (.arr items) => .ok items
  | some (.str s) => .ok (s.toList.map (fun c => .str c.toString))
  | some (.obj fields) => .ok (fields.map (fun p => .str p.1))
  | some v => .error (.raised ⟨"TypeError", "'" ++ typeName v ++ "' object is not iterable"⟩)

/-- `properties`, for its keys or for its items. -/
def propertiesOf (schema : Fields) (method : String) : Except Miss Fields :=
  match given schema "properties" with
  | none => .ok []
  | some (.obj fields) => .ok fields
  | some v => .error (.raised ⟨"AttributeError",
      "'" ++ typeName v ++ "' object has no attribute '" ++ method ++ "'"⟩)

variable (rt : Runtime)

/-- One key of `required`: only strings are keys of a payload, and what cannot
    be hashed cannot be looked up. -/
def checkRequired (payload : Fields) (path : String) (key : Json) : Except Miss Unit :=
  let missing : Miss := .schema (path ++ ": missing required property " ++ rt.repr key)
  match key with
  | .str k => if (payload.lookup k).isSome then .ok () else .error missing
  | .arr _ => .error (.raised ⟨"TypeError", "unhashable type: 'list'"⟩)
  | .obj _ => .error (.raised ⟨"TypeError", "unhashable type: 'dict'"⟩)
  | _ => .error missing

/-- `additionalProperties: false` admits the keys of `properties` only. -/
def checkExtras (schema payload : Fields) (path : String) : Except Miss Unit :=
  match schema.lookup "additionalProperties" with
  | some (.bool false) => do
      let properties ← propertiesOf schema "keys"
      let extras := (payload.map Prod.fst).filter (fun k => !(properties.map Prod.fst).contains k)
      if extras.isEmpty then .ok ()
      else .error (.schema (path ++ ": additional properties not allowed: " ++
        rt.repr (.arr ((extras.mergeSort (· ≤ ·)).map .str))))
  | _ => .ok ()

/-- The message of a value of the wrong type. -/
def expected (what path : String) (payload : Json) : Except Miss Unit :=
  .error (.schema (path ++ ": expected " ++ what ++ ", got " ++ typeName payload))

theorem sizeOf_of_lookup {fields : Fields} {key : String} {v : Json}
    (h : fields.lookup key = some v) : sizeOf v < sizeOf fields := by
  induction fields with
  | nil => cases h
  | cons p rest ih =>
      rcases p with ⟨k, w⟩
      rw [List.lookup_cons] at h
      simp only [List.cons.sizeOf_spec, Prod.mk.sizeOf_spec]
      cases hk : key == k with
      | true =>
          rw [hk] at h
          cases h
          omega
      | false =>
          rw [hk] at h
          have hlt := ih h
          omega

mutual

/-- The minimal recursive validator: objects, arrays and scalars. A missing or
    unknown `type` is skipped. -/
def validateAgainstSchema (schema : Fields) (payload : Json) (path : String) :
    Except Miss Unit :=
  match schema.lookup "type" with
  | some (.str "object") =>
      match payload with
      | .obj fields => do
          let required ← requiredKeys schema
          required.forM (checkRequired rt fields path)
          checkExtras rt schema fields path
          match _hp : given schema "properties" with
          | some (.obj properties) => validateProperties properties fields path
          | _ => (propertiesOf schema "items").map (fun _ => ())
      | _ => expected "object" path payload
  | some (.str "array") =>
      match payload with
      | .arr elements =>
          match _hi : schema.lookup "items" with
          | some (.obj items) => validateElements items elements 0 path
          | _ => .ok ()
      | _ => expected "array" path payload
  | some (.str "string") =>
      match payload with
      | .str _ => .ok ()
      | _ => expected "string" path payload
  | some (.str "boolean") =>
      match payload with
      | .bool _ => .ok ()
      | _ => expected "boolean" path payload
  | some (.str "integer") =>
      match payload with
      | .int _ => .ok ()
      | _ => expected "integer" path payload
  | some (.str "number") =>
      match payload with
      | .int _ | .float _ => .ok ()
      | _ => expected "number" path payload
  | _ => .ok ()
termination_by sizeOf schema + sizeOf payload
decreasing_by
  · have hs := sizeOf_of_lookup (Option.filter_eq_some_iff.mp _hp).1
    simp only [Json.obj.sizeOf_spec] at hs ⊢
    omega
  · have hs := sizeOf_of_lookup _hi
    simp only [Json.obj.sizeOf_spec, Json.arr.sizeOf_spec] at hs ⊢
    omega

/-- The properties that are present and have a schema. -/
def validateProperties (properties payload : Fields) (path : String) : Except Miss Unit :=
  match properties with
  | [] => .ok ()
  | (key, subSchema) :: rest =>
      (match _hv : payload.lookup key, subSchema with
        | some value, .obj sub => validateAgainstSchema sub value (path ++ "." ++ key)
        | _, _ => .ok ()) >>= fun _ => validateProperties rest payload path
termination_by sizeOf properties + sizeOf payload
decreasing_by
  · have hv := sizeOf_of_lookup _hv
    simp only [List.cons.sizeOf_spec, Prod.mk.sizeOf_spec, Json.obj.sizeOf_spec]
    omega
  · simp only [List.cons.sizeOf_spec]
    omega

/-- The elements of an array, from an index on. -/
def validateElements (items : Fields) (elements : List Json) (idx : Nat) (path : String) :
    Except Miss Unit :=
  match elements with
  | [] => .ok ()
  | element :: rest => do
      validateAgainstSchema items element (path ++ "[" ++ toString idx ++ "]")
      validateElements items rest (idx + 1) path
termination_by sizeOf items + sizeOf elements
decreasing_by
  · simp only [List.cons.sizeOf_spec]
    omega
  · simp only [List.cons.sizeOf_spec]
    omega

end

/-- Parse a text as a JSON object and validate it against the schema. -/
def parseAndValidate (text : String) (schema : Fields) : Except Miss Fields :=
  match rt.loads text with
  | .decodeError error => .error (.schema ("backend returned non-JSON payload: " ++ error))
  | .raised error => .error (.raised error)
  | .value (.obj fields) =>
      (validateAgainstSchema rt schema (.obj fields) "$").map (fun _ => fields)
  | .value document => .error (.schema
      ("backend returned JSON of type " ++ typeName document ++ ", expected object"))

end Validation

section Wrapper

/-- A failure that is traced before it is raised. -/
structure Failure where
  resolvedModel : {model : String // model ≠ ""}
  promptSha : Digest
  outcome : TraceOutcome
  attempts : Attempts := ⟨1, by decide⟩
  errorMessage : String
  raw : Option RawBackendResult := none
  costUsd : ℚ := 0
  raises : WrapperError

/-- How the stages before the charge stop an invocation: with a failure that is
    traced, or with an exception that no handler of the wrapper catches. -/
inductive Stop where
  | failed (failure : Failure)
  | escaped (error : Raised)

/-- The agent and the model of an invocation, looked up. -/
structure Resolved where
  agentConfig : ModelConfig
  model : {model : String // model ≠ ""}
  promptSha : Digest
  pricing : PricingTable

/-- An answer that is ready to be charged. -/
structure Answer where
  resolved : Resolved
  raw : RawBackendResult
  attempts : Attempts
  parsed : Option Fields
  costUsd : ℚ

abbrev Exit := Except Raised ModelCallResult

variable (rt : Runtime)

/-- `model_override or fallback`: an empty override is none. -/
def overriddenOr (request : ModelCallRequest) (fallback : {model : String // model ≠ ""}) :
    {model : String // model ≠ ""} :=
  match request.modelOverride with
  | some model => if h : model = "" then fallback else ⟨model, h⟩
  | none => fallback

/-- The canonical prompt payload of a request to a model. -/
def canonicalPromptPayload (request : ModelCallRequest) (model : {model : String // model ≠ ""}) :
    PromptPayload where
  systemPrompt := request.systemPrompt
  userPayload := request.userPayload
  jsonSchema := request.jsonSchema
  agent := request.agent
  model := model.val

/-- The digest of that payload. What raises here is caught by no handler. -/
def canonicalPromptSha (request : ModelCallRequest) (model : {model : String // model ≠ ""}) :
    Except Stop Digest :=
  (rt.sha256 (canonicalPromptPayload request model)).mapError
    (fun error => .escaped (.other error))

/-- The model that is recorded when the agent has none. -/
def unknownModel (request : ModelCallRequest) : {model : String // model ≠ ""} :=
  overriddenOr request ⟨"unknown", by decide⟩

/-- An error in the agent's configuration. It comes before there is a digest, and
    its record takes one first. -/
def agentConfigError (request : ModelCallRequest) (message : String) : Stop :=
  match canonicalPromptSha rt request (unknownModel request) with
  | .error stop => stop
  | .ok promptSha => .failed
      { resolvedModel := unknownModel request, promptSha, outcome := .configError
        errorMessage := message, raises := .modelCallConfig message }

/-- Resolve the agent's configuration. -/
def agentConfig (request : ModelCallRequest) : Except Stop ModelConfig :=
  match rt.models with
  | .error (.config message) => .error (agentConfigError rt request message)
  | .error (.other error) => .error (.escaped (.other error))
  | .ok models => (models.forAgent request.agent).mapError
      (fun error => agentConfigError rt request (error.message rt.quote))

/-- Look the model up in the price table, with a cost of no tokens. -/
def pricingTable (model : {model : String // model ≠ ""}) (promptSha : Digest) :
    Except Stop PricingTable :=
  let configError (message : String) : Stop := .failed
    { resolvedModel := model, promptSha, outcome := .configError
      errorMessage := message, raises := .modelCallConfig message }
  match rt.pricing with
  | .error (.config message) => .error (configError message)
  | .error (.other error) => .error (.escaped (.other error))
  | .ok pricing => ((pricing.costFor model.val 0 0).mapError
      (fun error => configError (error.message rt.quote))).map (fun _ => pricing)

/-- Resolve the agent, the model and the prices. -/
def resolve (request : ModelCallRequest) : Except Stop Resolved := do
  let agentConfig ← agentConfig rt request
  let model := overriddenOr request ⟨agentConfig.model, agentConfig.model_ne⟩
  let promptSha ← canonicalPromptSha rt request model
  let pricing ← pricingTable rt model promptSha
  return { agentConfig, model, promptSha, pricing }

/-- The budget short-circuit, before any backend call. -/
def checkBudget (call : Invocation) (model : {model : String // model ≠ ""})
    (promptSha : Digest) (total : ℚ) : Except Stop Unit :=
  let message := "session " ++ call.request.sessionId.text ++ " at " ++ rt.decimalText total ++
    " ≥ ceiling " ++ rt.decimalText call.settings.llmBudgetPerSessionUsd
  if call.settings.llmBudgetPerSessionUsd ≤ total then
    .error (.failed { resolvedModel := model, promptSha, outcome := .budgetExceeded
                      errorMessage := message, raises := .sessionBudgetExceeded message })
  else .ok ()

/-- The stages before a backend is chosen: whether the invocation may call one. -/
def admitCall (call : Invocation) (total : ℚ) : Except Stop Resolved := do
  let resolved ← resolve rt call.request
  checkBudget rt call resolved.model resolved.promptSha total
  return resolved

/-- The arguments of the backend call. The agent's pin can only lower the cap on
    output tokens. -/
def generateCall (request : ModelCallRequest) (resolved : Resolved) : GenerateCall where
  systemPrompt := request.systemPrompt
  userPayload := request.userPayload
  jsonSchema := request.jsonSchema
  model := resolved.model.val
  temperature := resolved.agentConfig.temperature
  maxOutputTokens := min request.maxOutputTokens resolved.agentConfig.maxOutputTokens
  timeoutS := request.timeoutS

/-- The trace outcome of an error that the retry loop raises. -/
def outcomeOf : WrapperError → TraceOutcome
  | .vertexTimeout _ => .timeout
  | .vertexUpstreamUnavailable _ => .upstreamUnavailable
  | .modelCallConfig _ => .configError
  | _ => .upstreamUnavailable

/-- The backend call, with its failures. An exception that is not an error of the
    wrapper has lost the number of attempts, and one is assumed. -/
def callBackend (call : Invocation) (resolved : Resolved) :
    Except Stop (RawBackendResult × Attempts) :=
  match call.backend with
  | .error error => .error (.escaped (.other error))
  | .ok backend =>
      let attempted := callWithRetries backend (generateCall call.request resolved)
      let seconds := toString call.request.timeoutS ++ "s"
      match attempted.exit with
      | .returned raw => .ok (raw, attempted.started)
      | .failed error => .error (.failed
          { resolvedModel := resolved.model, promptSha := resolved.promptSha
            outcome := outcomeOf error, attempts := attempted.started
            errorMessage := error.message, raises := error })
      | .timedOut => .error (.failed
          { resolvedModel := resolved.model, promptSha := resolved.promptSha
            outcome := .timeout
            errorMessage := "wall-clock timeout after " ++ seconds
            raises := .vertexTimeout ("wrapper wall-clock timeout after " ++ seconds) })
      | .other error => .error (.failed
          { resolvedModel := resolved.model, promptSha := resolved.promptSha
            outcome := .upstreamUnavailable, errorMessage := error.show
            raises := .vertexUpstreamUnavailable ("vertex backend raised " ++ error.show) })
      | .interrupted error => .error (.escaped (.other error))

/-- What a result costs. -/
def costOf (resolved : Resolved) (raw : RawBackendResult) : Except Stop ℚ :=
  (resolved.pricing.costFor resolved.model.val raw.inputTokens raw.outputTokens).mapError
    (fun error => .escaped (.wrapper (.modelCallConfig (error.message rt.quote))))

/-- Validation against the request's schema, if it has one. The trace of a miss
    records what the call cost. -/
def checkSchema (call : Invocation) (resolved : Resolved) (raw : RawBackendResult)
    (attempts : Attempts) : Except Stop (Option Fields) :=
  match call.request.jsonSchema with
  | none => .ok none
  | some schema =>
      match parseAndValidate rt raw.text schema with
      | .ok parsed => .ok (some parsed)
      | .error (.raised error) => .error (.escaped (.other error))
      | .error (.schema message) => do
          let cost ← costOf rt resolved raw
          .error (.failed
            { resolvedModel := resolved.model, promptSha := resolved.promptSha
              outcome := .schemaError, attempts
              errorMessage := message, raw := some raw, costUsd := cost
              raises := .vertexSchema message raw.text })

/-- The stages of an invocation before the charge, for the total that the
    session has spent. -/
def consult (call : Invocation) (total : ℚ) : Except Stop Answer := do
  let resolved ← admitCall rt call total
  let (raw, attempts) ← callBackend call resolved
  let parsed ← checkSchema rt call resolved raw attempts
  let costUsd ← costOf rt resolved raw
  return { resolved, raw, attempts, parsed, costUsd }

/-- The one trace record of an invocation. -/
def buildTraceRecord (call : Invocation) (model : {model : String // model ≠ ""})
    (promptSha : Digest) (outcome : TraceOutcome) (attempts : Attempts)
    (raw : Option RawBackendResult) (costUsd : ℚ) (errorMessage : Option String)
    (parsed : Option Fields) : TraceRecord where
  id := call.traceId
  createdAt := call.createdAt
  agent := call.request.agent
  sessionId := call.request.sessionId
  model := model.val
  modelVersion := raw.map RawBackendResult.modelVersion
  promptSha256 := promptSha.val
  outcome := outcome
  attempts := attempts
  latencyMs := call.latencyMs
  inputTokens := (raw.map RawBackendResult.inputTokens).getD 0
  outputTokens := (raw.map RawBackendResult.outputTokens).getD 0
  costUsd := costUsd
  errorMessage := errorMessage
  responseText := raw.map RawBackendResult.text
  parsed := parsed
  agent_ne := call.request.agent_ne
  model_ne := model.property
  promptSha256_length := promptSha.property

/-- The record of a failure. -/
def failureRecord (call : Invocation) (f : Failure) : TraceRecord :=
  buildTraceRecord call f.resolvedModel f.promptSha f.outcome f.attempts f.raw f.costUsd
    (some f.errorMessage) none

/-- The record of an answer. -/
def answerRecord (call : Invocation) (a : Answer) : TraceRecord :=
  buildTraceRecord call a.resolved.model a.resolved.promptSha .ok a.attempts (some a.raw) a.costUsd
    none a.parsed

/-- The result that an answer becomes. -/
def Answer.result (call : Invocation) (a : Answer) : ModelCallResult where
  text := a.raw.text
  parsed := a.parsed
  inputTokens := a.raw.inputTokens
  outputTokens := a.raw.outputTokens
  costUsd := a.costUsd
  latencyMs := call.latencyMs
  model := a.resolved.model.val
  modelVersion := a.raw.modelVersion
  attempts := a.attempts
  traceId := call.traceId

variable {σ : Type}

/-- Persist a record: whatever the sink raises becomes a trace error. -/
def persistTrace (sink : TraceSink σ) (record : TraceRecord) (s : σ) : Except Raised σ :=
  (sink.write s record).mapError (fun error => .wrapper (.traceWrite (match error with
    | .traceWrite message => message
    | .other error => "trace sink raised " ++ error.show)))

/-- One invocation of the wrapper. -/
def callModel (sink : TraceSink σ) (ledger : CostLedger σ) (call : Invocation) (s : σ) :
    Exit × σ :=
  match consult rt call (ledger.sessionTotal s call.request.sessionId) with
  | .error (.escaped error) => (.error error, s)
  | .error (.failed failure) =>
      match persistTrace sink (failureRecord call failure) s with
      | .error error => (.error error, s)
      | .ok s => (.error (.wrapper failure.raises), s)
  | .ok answer =>
      match ledger.add s call.request.sessionId answer.costUsd with
      | .error error => (.error (.other error), s)
      | .ok s =>
          -- The charge stands even when the record is refused.
          match persistTrace sink (answerRecord call answer) s with
          | .error error => (.error error, s)
          | .ok s => (.ok (answer.result call), s)

end Wrapper

section Stages

variable {rt : Runtime} {call : Invocation} {resolved : Resolved} {total : ℚ} {stop : Stop}
  {request : ModelCallRequest} {model : {model : String // model ≠ ""}}

/-- Without a digest there is an exception that is none of the wrapper's. -/
theorem canonicalPromptSha_stop (h : canonicalPromptSha rt request model = .error stop) :
    ∃ e, rt.sha256 (canonicalPromptPayload request model) = .error e ∧
      stop = .escaped (.other e) := by
  unfold canonicalPromptSha at h
  cases hsha : rt.sha256 (canonicalPromptPayload request model) with
  | error e =>
      rw [hsha] at h
      cases h
      exact ⟨e, rfl, rfl⟩
  | ok sha =>
      rw [hsha] at h
      cases h

theorem canonicalPromptSha_ok {promptSha : Digest}
    (h : canonicalPromptSha rt request model = .ok promptSha) :
    rt.sha256 (canonicalPromptPayload request model) = .ok promptSha := by
  unfold canonicalPromptSha at h
  cases hsha : rt.sha256 (canonicalPromptPayload request model) with
  | error e =>
      rw [hsha] at h
      cases h
  | ok sha =>
      rw [hsha] at h
      cases h
      rfl

/-- An error in the agent's configuration leaves its record, if there is a digest. -/
theorem agentConfigError_cases (rt : Runtime) (request : ModelCallRequest) (message : String) :
    (∃ e, rt.sha256 (canonicalPromptPayload request (unknownModel request)) = .error e ∧
      agentConfigError rt request message = .escaped (.other e)) ∨
    ∃ promptSha, rt.sha256 (canonicalPromptPayload request (unknownModel request)) =
        .ok promptSha ∧
      agentConfigError rt request message = .failed
        { resolvedModel := unknownModel request, promptSha, outcome := .configError
          errorMessage := message, raises := .modelCallConfig message } := by
  unfold agentConfigError
  cases hsha : canonicalPromptSha rt request (unknownModel request) with
  | error stop =>
      obtain ⟨e, he, rfl⟩ := canonicalPromptSha_stop hsha
      exact Or.inl ⟨e, he, rfl⟩
  | ok promptSha => exact Or.inr ⟨promptSha, canonicalPromptSha_ok hsha, rfl⟩

/-- The agent's configuration stops an invocation for a registry that cannot be
    read, or with its own error. -/
theorem agentConfig_stop (h : agentConfig rt request = .error stop) :
    (∃ e, rt.models = .error (.other e) ∧ stop = .escaped (.other e)) ∨
      (∀ e, rt.models ≠ .error (.other e)) ∧
        ∃ message, stop = agentConfigError rt request message := by
  unfold agentConfig at h
  split at h
  · next message hm =>
      cases h
      refine Or.inr ⟨fun e he => ?_, message, rfl⟩
      rw [hm] at he
      cases he
  · next e hm =>
      cases h
      exact Or.inl ⟨e, hm, rfl⟩
  · next models hm =>
      cases hf : models.forAgent request.agent with
      | ok config =>
          rw [hf] at h
          cases h
      | error e =>
          rw [hf] at h
          cases h
          refine Or.inr ⟨fun e he => ?_, _, rfl⟩
          rw [hm] at he
          cases he

/-- What an invocation that is not admitted has been stopped by. -/
theorem admitCall_stop (h : admitCall rt call total = .error stop) :
    agentConfig rt call.request = .error stop ∨
    ∃ config, agentConfig rt call.request = .ok config ∧
      (canonicalPromptSha rt call.request
          (overriddenOr call.request ⟨config.model, config.model_ne⟩) = .error stop ∨
        ∃ promptSha, canonicalPromptSha rt call.request
            (overriddenOr call.request ⟨config.model, config.model_ne⟩) = .ok promptSha ∧
          (pricingTable rt (overriddenOr call.request ⟨config.model, config.model_ne⟩)
              promptSha = .error stop ∨
            (∃ pricing, pricingTable rt (overriddenOr call.request
                ⟨config.model, config.model_ne⟩) promptSha = .ok pricing) ∧
              checkBudget rt call (overriddenOr call.request ⟨config.model, config.model_ne⟩)
                promptSha total = .error stop)) := by
  simp only [admitCall, resolve, bind, Except.bind, pure, Except.pure] at h
  -- The checks come one after another: configuration, digest, prices, budget.
  cases ha : agentConfig rt call.request with
  | error s =>
      simp only [ha] at h
      exact Or.inl (congrArg _ (Except.error.inj h))
  | ok config =>
      refine Or.inr ⟨config, rfl, ?_⟩
      simp only [ha] at h
      cases hsha : canonicalPromptSha rt call.request
          (overriddenOr call.request ⟨config.model, config.model_ne⟩) with
      | error s =>
          simp only [hsha] at h
          exact Or.inl (congrArg _ (Except.error.inj h))
      | ok promptSha =>
          refine Or.inr ⟨promptSha, rfl, ?_⟩
          simp only [hsha] at h
          cases hp : pricingTable rt (overriddenOr call.request ⟨config.model, config.model_ne⟩)
              promptSha with
          | error s =>
              simp only [hp] at h
              exact Or.inl (congrArg _ (Except.error.inj h))
          | ok pricing =>
              refine Or.inr ⟨⟨pricing, rfl⟩, ?_⟩
              simp only [hp] at h
              cases hb : checkBudget rt call
                  (overriddenOr call.request ⟨config.model, config.model_ne⟩) promptSha total with
              | error s =>
                  simp only [hb] at h
                  exact congrArg _ (Except.error.inj h)
              | ok u =>
                  simp only [hb] at h
                  cases h

/-- What an admitted invocation has been given. -/
theorem admitCall_ok (h : admitCall rt call total = .ok resolved) :
    agentConfig rt call.request = .ok resolved.agentConfig ∧
      resolved.model = overriddenOr call.request
        ⟨resolved.agentConfig.model, resolved.agentConfig.model_ne⟩ ∧
      canonicalPromptSha rt call.request resolved.model = .ok resolved.promptSha ∧
      pricingTable rt resolved.model resolved.promptSha = .ok resolved.pricing ∧
      checkBudget rt call resolved.model resolved.promptSha total = .ok () := by
  simp only [admitCall, resolve, bind, Except.bind, pure, Except.pure] at h
  cases ha : agentConfig rt call.request with
  | error s =>
      simp only [ha] at h
      cases h
  | ok config =>
      simp only [ha] at h
      cases hsha : canonicalPromptSha rt call.request
          (overriddenOr call.request ⟨config.model, config.model_ne⟩) with
      | error s =>
          simp only [hsha] at h
          cases h
      | ok promptSha =>
          simp only [hsha] at h
          cases hp : pricingTable rt (overriddenOr call.request ⟨config.model, config.model_ne⟩)
              promptSha with
          | error s =>
              simp only [hp] at h
              cases h
          | ok pricing =>
              simp only [hp] at h
              cases hb : checkBudget rt call
                  (overriddenOr call.request ⟨config.model, config.model_ne⟩) promptSha total with
              | error s =>
                  simp only [hb] at h
                  cases h
              | ok u =>
                  simp only [hb] at h
                  cases h
                  exact ⟨rfl, rfl, hsha, hp, hb⟩

end Stages

end TechScreen.Llm
