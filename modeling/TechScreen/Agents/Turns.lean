import TechScreen.Llm.Audit
import TechScreen.Llm.InFlight
import TechScreen.Orchestrator.Persistence
import TechScreen.Services.DevSession

/-!
# Agent Turns

The two agent wrappers around `call_model`. Each assembles one request, calls
the model with it, and checks what comes back against its output model. An
answer that misses the contract is asked for once more, with the same request;
a second miss is the agent's own error. Every other error leaves at once, on
the first attempt and on the second.

Three things count as a miss: a schema error of the wrapper, an answer that the
output model rejects, and, for the assessor, an answer that echoes other
identifiers than the request's.

The prompts and the contracts are files, and the output models are those of a
validation library. They are parameters here, and so are the serialisers of the
inputs.

## Main definitions

* `judge`: What one attempt amounts to.
* `runTurn`: The attempts of a turn.
* `attemptsMade`: Which attempts it makes, and what each of them finds.
* `AgentTexts`, `Agents`: What the agents are built with.
* `CallEnv`: What the environment does around one attempt.
* `runInterviewerTurn`, `runAssessorTurn`: The two wrappers.

## Theorems

* `runTurn_raised`: Where an error that leaves a turn comes from.
* `budget_le_of_exceeded`: A budget error is raised at the budget only.
* `traceWrite_of_unwritten`: A refused record is raised as a trace error.
* `total_le_invoke`: No attempt lowers what a session has spent.
-/

namespace TechScreen

open Lib Llm

/-- `type(exc).__name__`. -/
def Llm.WrapperError.className : WrapperError → String
  | .base _ => "WrapperError"
  | .modelCallConfig _ => "ModelCallConfigError"
  | .vertexTimeout _ => "VertexTimeoutError"
  | .vertexUpstreamUnavailable _ => "VertexUpstreamUnavailableError"
  | .vertexSchema _ _ => "VertexSchemaError"
  | .sessionBudgetExceeded _ => "SessionBudgetExceeded"
  | .traceWrite _ => "TraceWriteError"

section Turn

variable {α ε σ : Type}

/-- What one attempt amounts to. A miss is known by the class of its error. -/
inductive Judged (α : Type) where
  | answered (output : α)
  | missed (kind : String)
  | raised (error : Raised)

/-- Judge an attempt. The output model names the class of the error it raises. -/
def judge (accept : ModelCallResult → Except String α) : Exit → Judged α
  | .ok result =>
      match accept result with
      | .ok output => .answered output
      | .error kind => .missed kind
  | .error (.wrapper (.vertexSchema _ _)) => .missed "VertexSchemaError"
  | .error (.wrapper error) => .raised (.wrapper error)
  | .error (.other error) =>
      -- The validation library raises one class of error, wherever it is used.
      if error.kind = "ValidationError" then .missed error.kind else .raised (.other error)

/-- How a turn ends for its caller. -/
inductive TurnExit (α : Type) where
  | answered (output : α)
  | outputInvalid (message : String)
  | raised (error : Raised)

/-- An attempt, and exactly one fresh retry on a miss. -/
def runTurn (accept : ModelCallResult → Except String α) (invoke : ε → σ → Exit × σ)
    (invalid : String → String → String) (first second : ε) (s : σ) : TurnExit α × σ :=
  let (exit, s) := invoke first s
  match judge accept exit with
  | .answered output => (.answered output, s)
  | .raised error => (.raised error, s)
  | .missed firstMiss =>
      let (exit, s) := invoke second s
      match judge accept exit with
      | .answered output => (.answered output, s)
      | .raised error => (.raised error, s)
      | .missed secondMiss => (.outputInvalid (invalid firstMiss secondMiss), s)

/-- The attempts that a turn makes, each with the state it finds. -/
def attemptsMade (accept : ModelCallResult → Except String α) (invoke : ε → σ → Exit × σ)
    (first second : ε) (s : σ) : List (ε × σ) :=
  (first, s) :: match judge accept (invoke first s).1 with
    | .missed _ => [(second, (invoke first s).2)]
    | _ => []

variable {accept : ModelCallResult → Except String α} {invoke : ε → σ → Exit × σ}
  {invalid : String → String → String} {first second : ε} {s : σ}

theorem env_of_attempt {a : ε × σ} (ha : a ∈ attemptsMade accept invoke first second s) :
    a.1 = first ∨ a.1 = second := by
  unfold attemptsMade at ha
  rcases List.mem_cons.mp ha with rfl | ha
  · exact Or.inl rfl
  · split at ha
    · rw [List.mem_singleton.mp ha]
      exact Or.inr rfl
    · exact absurd ha List.not_mem_nil

/-- An error that leaves a turn was raised by one of its attempts. -/
theorem runTurn_raised {error : Raised}
    (h : (runTurn accept invoke invalid first second s).1 = .raised error) :
    ∃ a ∈ attemptsMade accept invoke first second s, (invoke a.1 a.2).1 = .error error := by
  have hjudge : ∀ exit, judge accept exit = .raised error → exit = .error error := by
    intro exit hexit
    unfold judge at hexit
    split at hexit
    · split at hexit <;> cases hexit
    · cases hexit
    · cases hexit
      rfl
    · split at hexit
      · cases hexit
      · cases hexit
        rfl
  cases hone : judge accept (invoke first s).1 with
  | answered output =>
      simp only [runTurn, hone] at h
      cases h
  | raised x =>
      simp only [runTurn, hone] at h
      cases h
      exact ⟨(first, s), List.mem_cons_self, hjudge _ hone⟩
  | missed kind =>
      simp only [runTurn, hone] at h
      cases htwo : judge accept (invoke second (invoke first s).2).1 with
      | answered output =>
          rw [htwo] at h
          cases h
      | missed other =>
          rw [htwo] at h
          cases h
      | raised x =>
          rw [htwo] at h
          cases h
          refine ⟨(second, (invoke first s).2), ?_, hjudge _ htwo⟩
          simp only [attemptsMade, hone, List.mem_cons, true_or, or_true]

/-- An error that is no miss ends the turn, on whichever attempt it is raised. -/
theorem runTurn_of_raised {error : Raised} {a : ε × σ}
    (ha : a ∈ attemptsMade accept invoke first second s)
    (h : judge accept (invoke a.1 a.2).1 = .raised error) :
    (runTurn accept invoke invalid first second s).1 = .raised error := by
  rcases List.mem_cons.mp ha with rfl | ha
  · simp only [runTurn, h]
  · cases hone : judge accept (invoke first s).1 with
    | answered output =>
        rw [hone] at ha
        exact absurd ha List.not_mem_nil
    | raised x =>
        rw [hone] at ha
        exact absurd ha List.not_mem_nil
    | missed kind =>
        rw [hone, List.mem_singleton] at ha
        subst ha
        simp only [runTurn, hone, h]

/-- What no attempt undoes, no turn undoes. -/
theorem runTurn_keeps {R : σ → σ → Prop} (htrans : ∀ a b c, R a b → R b c → R a c)
    (hstep : ∀ e s, R s (invoke e s).2) :
    R s (runTurn accept invoke invalid first second s).2 := by
  have hfirst := hstep first s
  have hboth := htrans _ _ _ hfirst (hstep second (invoke first s).2)
  cases hone : judge accept (invoke first s).1 with
  | answered output =>
      simp only [runTurn, hone]
      exact hfirst
  | raised x =>
      simp only [runTurn, hone]
      exact hfirst
  | missed kind =>
      simp only [runTurn, hone]
      split <;> exact hboth

/-- What an attempt leaves behind comes before what its turn leaves behind. -/
theorem runTurn_after {R : σ → σ → Prop} (hrefl : ∀ a, R a a)
    (hstep : ∀ e s, R s (invoke e s).2) {a : ε × σ}
    (ha : a ∈ attemptsMade accept invoke first second s) :
    R (invoke a.1 a.2).2 (runTurn accept invoke invalid first second s).2 := by
  rcases List.mem_cons.mp ha with rfl | ha
  · simp only [runTurn]
    split
    · exact hrefl _
    · exact hrefl _
    · split <;> exact hstep second _
  · cases hone : judge accept (invoke first s).1 with
    | answered output =>
        rw [hone] at ha
        exact absurd ha List.not_mem_nil
    | raised x =>
        rw [hone] at ha
        exact absurd ha List.not_mem_nil
    | missed kind =>
        rw [hone, List.mem_singleton] at ha
        subst ha
        simp only [runTurn, hone]
        split <;> exact hrefl _

end Turn

section Agents

/-- The rows that others have written are in the books. -/
def Llm.Books.receive (books : Books) (rows : List TurnTrace) : Books :=
  { books with rows := books.rows ++ rows }

/-- What the environment does around one attempt: the rows that others write
    before it looks at the ledger, the backend, the clock, the identifier of the
    trace, and whether the database takes it. A cost is not negative. -/
structure CallEnv where
  arriving : List TurnTrace := []
  backend : Except Unexpected Backend
  latencyMs : Nat
  traceId : Uuid
  createdAt : Instant
  up : Bool := true
  arriving_nonneg : ∀ r ∈ arriving, 0 ≤ r.costUsd

/-- The backend leaves the budget error to the wrapper, which raises it before
    any backend call. -/
def CallEnv.Candid (env : CallEnv) : Prop :=
  ∀ backend, env.backend = .ok backend → ∀ call n message,
    backend.generate call n ≠ .wrapper (.sessionBudgetExceeded message)

/-- The prompt, the contract, the serialiser of the inputs and the output model
    of an agent, at its pinned version. -/
structure AgentTexts (ι α : Type) where
  promptVersion : String
  systemPrompt : String
  outputSchema : Fields
  userPayload : ι → String
  validate : Option Fields → Option α

/-- The agents of the service, with the runtime and the settings of the wrapper. -/
structure Agents where
  runtime : Runtime
  settings : Settings
  interviewer : AgentTexts InterviewerTurnInputs InterviewerOutput
  assessor : AgentTexts AssessorTurnInput AssessorOutput

theorem agentName_ne (agent : {agent : String // agent ≠ ""}) : agent.val ≠ "" := agent.property

theorem interviewer_ne : "interviewer" ≠ "" := by decide
theorem assessor_ne : "assessor" ≠ "" := by decide

/-- The request of a turn, unless a text is too long for it. -/
def turnRequest {ι α : Type} (texts : AgentTexts ι α) (agent : {agent : String // agent ≠ ""})
    (sessionId : Uuid) (inputs : ι) : Except Unexpected ModelCallRequest :=
  if h : (1 ≤ texts.systemPrompt.length ∧ texts.systemPrompt.length ≤ 64000) ∧
      1 ≤ (texts.userPayload inputs).length ∧ (texts.userPayload inputs).length ≤ 200000 then
    .ok
      { agent := agent.val, systemPrompt := texts.systemPrompt
        userPayload := texts.userPayload inputs, jsonSchema := some texts.outputSchema
        sessionId := sessionId, agent_ne := agentName_ne agent
        systemPrompt_length := h.1, userPayload_length := h.2
        timeoutS_range := timeoutS_default, maxOutputTokens_range := maxOutputTokens_default }
  else .error ⟨"ValidationError", "1 validation error for ModelCallRequest"⟩

variable (agents : Agents)

/-- The invocation of an attempt. -/
def invocation (request : ModelCallRequest) (env : CallEnv) : Invocation where
  request := request
  settings := agents.settings
  backend := env.backend
  latencyMs := env.latencyMs
  traceId := env.traceId
  createdAt := env.createdAt

/-- One attempt: an invocation with the durable sink and the durable ledger. -/
def invoke (context : TurnTraceContext) (request : ModelCallRequest) (env : CallEnv)
    (books : Books) : Exit × Books :=
  callModel agents.runtime (postgresTraceSink context env.up) postgresCostLedger
    (invocation agents request env) (books.receive env.arriving)

/-- Parse a result into the typed output. -/
def validateResult (result : ModelCallResult) : Except String InterviewerOutput :=
  match agents.interviewer.validate result.parsed with
  | some output => .ok output
  | none => .error "ValidationError"

/-- Produce the next utterance for a move. -/
def runInterviewerTurn (context : TurnTraceContext) (request : ModelCallRequest)
    (inputs : InterviewerTurnInputs) (first second : CallEnv) (books : Books) :
    TurnExit InterviewerOutput × Books :=
  runTurn (validateResult agents) (invoke agents context request)
    (fun _ _ => "interviewer output failed schema validation twice (session " ++
      inputs.sessionId.text ++ ", move '" ++ inputs.nextPlannedMove.value ++ "')")
    first second books

/-- The echoed identifiers are those of the request. -/
def echoes (inputs : AssessorTurnInput) (output : AssessorOutput) : Bool :=
  output.turnId = inputs.turnId && output.sessionId = inputs.sessionId &&
    output.competencyFocus = inputs.competencyFocus

/-- Strict validation of a result, with the echo. -/
def scoreResult (inputs : AssessorTurnInput) (result : ModelCallResult) :
    Except String AssessorOutput :=
  match agents.assessor.validate result.parsed with
  | none => .error "ValidationError"
  | some output => if echoes inputs output then .ok output else .error "AssessorEchoMismatch"

/-- Score one candidate turn. -/
def runAssessorTurn (context : TurnTraceContext) (request : ModelCallRequest)
    (inputs : AssessorTurnInput) (first second : CallEnv) (books : Books) :
    TurnExit AssessorOutput × Books :=
  runTurn (scoreResult agents inputs) (invoke agents context request)
    (fun firstMiss secondMiss => "assessor output failed the " ++ agents.assessor.promptVersion ++
      " contract twice (first miss: " ++ firstMiss ++ ", second miss: " ++ secondMiss ++
      "); payload detail is on the chained cause")
    first second books

end Agents

section Errors

variable {rt : Runtime} {call : Invocation} {total : ℚ} {stop : Stop}

/-- The class of the wrapper's error that a stop raises. -/
def Llm.Stop.className? : Stop → Option String
  | .failed failure => some failure.raises.className
  | .escaped (.wrapper error) => some error.className
  | .escaped (.other _) => none

/-- A stop that has nothing to do with the budget. -/
def Llm.Stop.ordinary (stop : Stop) : Bool := stop.className? != some "SessionBudgetExceeded"

theorem agentConfig_ordinary {request : ModelCallRequest}
    (h : agentConfig rt request = .error stop) : stop.ordinary = true := by
  rcases agentConfig_stop h with ⟨e, -, rfl⟩ | ⟨-, message, rfl⟩
  · rfl
  · rcases agentConfigError_cases rt request message with ⟨e, -, he⟩ | ⟨promptSha, -, hf⟩
    · rw [he]
      rfl
    · rw [hf]
      rfl

theorem pricingTable_ordinary {model : {model : String // model ≠ ""}} {promptSha : Digest}
    (h : pricingTable rt model promptSha = .error stop) : stop.ordinary = true := by
  unfold pricingTable at h
  split at h
  · cases h
    rfl
  · cases h
    rfl
  · next pricing _ =>
      cases hp : pricing.costFor model.val 0 0 with
      | ok c =>
          rw [hp] at h
          cases h
      | error e =>
          rw [hp] at h
          cases h
          rfl

theorem costOf_ordinary {resolved : Resolved} {raw : RawBackendResult}
    (h : costOf rt resolved raw = .error stop) : stop.ordinary = true := by
  unfold costOf at h
  cases hc : resolved.pricing.costFor resolved.model.val raw.inputTokens raw.outputTokens with
  | ok c =>
      rw [hc] at h
      cases h
  | error e =>
      rw [hc] at h
      cases h
      rfl

theorem checkSchema_ordinary {resolved : Resolved} {raw : RawBackendResult} {attempts : Attempts}
    (h : checkSchema rt call resolved raw attempts = .error stop) : stop.ordinary = true := by
  unfold checkSchema at h
  split at h
  · cases h
  · split at h
    · cases h
    · cases h
      rfl
    · cases hc : costOf rt resolved raw with
      | error x =>
          simp only [hc, bind, Except.bind] at h
          cases h
          exact costOf_ordinary hc
      | ok cost =>
          simp only [hc, bind, Except.bind] at h
          cases h
          rfl

/-- A backend call ends with a budget error only if the backend raises it. -/
theorem callBackend_ordinary {resolved : Resolved}
    (hcandid : ∀ b, call.backend = .ok b → ∀ g n message,
      b.generate g n ≠ .wrapper (.sessionBudgetExceeded message))
    (h : callBackend call resolved = .error stop) : stop.ordinary = true := by
  unfold callBackend at h
  split at h
  · cases h
    rfl
  · next backend hb =>
      simp only at h
      split at h
      · cases h
      · next error hexit =>
          cases h
          -- The error is the translation of a provider's, or the backend's own.
          rcases reached_of_exit hexit with ⟨n, _, hreply⟩ | hover | ⟨text, hspent⟩
          · cases hr : backend.generate (generateCall call.request resolved) n with
            | wrapper e =>
                rw [hr] at hreply
                cases hreply
                cases error with
                | sessionBudgetExceeded message => exact absurd hr (hcandid backend hb _ n message)
                | _ => rfl
            | backend e =>
                rw [hr] at hreply
                cases e <;> cases hreply <;> rfl
            | _ =>
                rw [hr] at hreply
                cases hreply
          · cases hover
          · cases hspent
            rfl
      · cases h
        rfl
      · cases h
        rfl
      · cases h
        rfl

/-- Only the budget check stops an invocation for the budget. -/
theorem consult_stop
    (hcandid : ∀ b, call.backend = .ok b → ∀ g n message,
      b.generate g n ≠ .wrapper (.sessionBudgetExceeded message))
    (h : consult rt call total = .error stop) :
    stop.ordinary = true ∨ call.settings.llmBudgetPerSessionUsd ≤ total := by
  simp only [consult, bind, Except.bind] at h
  split at h
  · next x hadmit =>
      cases h
      rcases admitCall_stop hadmit with
        hagent | ⟨config, -, hsha | ⟨promptSha, -, hpricing | ⟨-, hbudget⟩⟩⟩
      · exact Or.inl (agentConfig_ordinary hagent)
      · rcases canonicalPromptSha_stop hsha with ⟨e, -, rfl⟩
        exact Or.inl rfl
      · exact Or.inl (pricingTable_ordinary hpricing)
      · unfold checkBudget at hbudget
        split at hbudget
        · next hle => exact Or.inr hle
        · cases hbudget
  · refine Or.inl ?_
    split at h
    · next x hbackend =>
        cases h
        exact callBackend_ordinary hcandid hbackend
    · split at h
      · next x hschema =>
          cases h
          exact checkSchema_ordinary hschema
      · split at h
        · next x hcost =>
            cases h
            exact costOf_ordinary hcost
        · cases h

end Errors

section Attempts

variable (agents : Agents) (context : TurnTraceContext) (request : ModelCallRequest)
  (env : CallEnv) (books : Books)

/-- What the session has spent when an attempt looks at the ledger. -/
def checkedTotal : ℚ := sessionCostTotal (books.receive env.arriving).rows request.sessionId

/-- The record of an attempt is refused. -/
def refused (record : TraceRecord) : Bool :=
  !(persistTrace (postgresTraceSink context env.up) record (books.receive env.arriving)).isOk

/-- The record that an attempt writes is refused. -/
def unwritten : Bool :=
  let call := invocation agents request env
  match consult agents.runtime call (checkedTotal request env books) with
  | .error (.escaped _) => false
  | .error (.failed failure) =>
      refused context env books (failureRecord call failure)
  | .ok answer => refused context env books (answerRecord call answer)

/-- How an attempt ends: a refused record is a trace error, whatever it recorded. -/
theorem invoke_cases :
    (∃ message, unwritten agents context request env books = true ∧
      (invoke agents context request env books).1 = .error (.wrapper (.traceWrite message))) ∨
    unwritten agents context request env books = false ∧
      ((∃ answer, consult agents.runtime (invocation agents request env)
          (checkedTotal request env books) = .ok answer ∧
        (invoke agents context request env books).1 =
          .ok (answer.result (invocation agents request env))) ∨
      ∃ stop, consult agents.runtime (invocation agents request env)
          (checkedTotal request env books) = .error stop ∧
        (invoke agents context request env books).1 = .error (match stop with
          | .failed failure => .wrapper failure.raises
          | .escaped error => error)) := by
  have hpersist : ∀ record, (∃ message, refused context env books record = true ∧
      persistTrace (postgresTraceSink context env.up) record (books.receive env.arriving) =
        .error (.wrapper (.traceWrite message))) ∨
      ∃ after, refused context env books record = false ∧
        persistTrace (postgresTraceSink context env.up) record (books.receive env.arriving) =
          .ok after := by
    intro record
    unfold refused
    cases hp : persistTrace (postgresTraceSink context env.up) record
        (books.receive env.arriving) with
    | ok after => exact Or.inr ⟨after, rfl, rfl⟩
    | error x =>
        unfold persistTrace at hp
        cases hw : (postgresTraceSink context env.up).write (books.receive env.arriving) record with
        | ok after => rw [hw] at hp; cases hp
        | error e =>
            rw [hw] at hp
            cases hp
            exact Or.inl ⟨_, rfl, rfl⟩
  have htotal : postgresCostLedger.sessionTotal (books.receive env.arriving)
      (invocation agents request env).request.sessionId = checkedTotal request env books := rfl
  have hend : (invoke agents context request env books).1 =
      (callModel agents.runtime (postgresTraceSink context env.up) postgresCostLedger
        (invocation agents request env) (books.receive env.arriving)).1 := rfl
  unfold callModel at hend
  rw [htotal] at hend
  cases hx : consult agents.runtime (invocation agents request env)
      (checkedTotal request env books) with
  | error stop =>
      cases stop with
      | escaped error =>
          rw [hx] at hend
          refine Or.inr ⟨?_, Or.inr ⟨_, rfl, hend⟩⟩
          simp only [unwritten, hx]
      | failed failure =>
          have hlost : unwritten agents context request env books = refused context env books
              (failureRecord (invocation agents request env) failure) := by
            simp only [unwritten, hx]
          rw [hlost]
          rcases hpersist (failureRecord (invocation agents request env) failure)
            with
            ⟨message, hrefused, hp⟩ | ⟨after, hrefused, hp⟩
          · simp only [hx, hp] at hend
            exact Or.inl ⟨message, hrefused, hend⟩
          · simp only [hx, hp] at hend
            exact Or.inr ⟨hrefused, Or.inr ⟨_, rfl, hend⟩⟩
  | ok answer =>
      -- The durable ledger keeps nothing of a charge.
      have hadd : postgresCostLedger.add (books.receive env.arriving)
          (invocation agents request env).request.sessionId answer.costUsd =
            .ok (books.receive env.arriving) :=
        if_neg (not_lt.mpr (costOf_nonneg agents.runtime (consult_ok agents.runtime hx)))
      have hlost : unwritten agents context request env books = refused context env books
          (answerRecord (invocation agents request env) answer) := by
        simp only [unwritten, hx]
      rw [hlost]
      rcases hpersist (answerRecord (invocation agents request env) answer) with
        ⟨message, hrefused, hp⟩ | ⟨after, hrefused, hp⟩
      · simp only [hx, hadd, hp] at hend
        exact Or.inl ⟨message, hrefused, hend⟩
      · simp only [hx, hadd, hp] at hend
        exact Or.inr ⟨hrefused, Or.inl ⟨answer, rfl, hend⟩⟩

variable {agents context request env books}

/-- The class of an error that an attempt ends in is the one of its stop. -/
theorem className_of_stop {stop : Stop} {error : WrapperError}
    (h : (match stop with
      | .failed failure => .wrapper failure.raises
      | .escaped error => error : Raised) = .wrapper error) :
    stop.className? = some error.className := by
  cases stop with
  | failed failure =>
      cases h
      rfl
  | escaped x =>
      change x = .wrapper error at h
      rw [h]
      rfl

/-- A budget error is raised when the total has reached the budget. -/
theorem budget_le_of_exceeded (hcandid : env.Candid) {error : WrapperError}
    (hkind : error.className = "SessionBudgetExceeded")
    (h : (invoke agents context request env books).1 = .error (.wrapper error)) :
    agents.settings.llmBudgetPerSessionUsd ≤ checkedTotal request env books := by
  rcases invoke_cases agents context request env books with
    ⟨message, _, hm⟩ | ⟨_, ⟨answer, _, ha⟩ | ⟨stop, hstop, hs⟩⟩
  · rw [hm] at h
    cases h
    exact absurd hkind (by simp [WrapperError.className])
  · rw [ha] at h
    cases h
  · rw [hs, Except.error.injEq] at h
    have hclass := (className_of_stop h).trans (congrArg some hkind)
    rcases @consult_stop _ (invocation agents request env) _ _ hcandid hstop with hord | hbudget
    · rw [Stop.ordinary, hclass] at hord
      exact absurd hord (by decide)
    · exact hbudget

/-- A refused record is raised as a trace error. -/
theorem traceWrite_of_unwritten (h : unwritten agents context request env books = true) :
    ∃ message, (invoke agents context request env books).1 =
      .error (.wrapper (.traceWrite message)) := by
  rcases invoke_cases agents context request env books with ⟨message, -, hm⟩ | ⟨hkept, -⟩
  · exact ⟨message, hm⟩
  · rw [hkept] at h
    cases h

/-- Rows that arrive do not lower what a session has spent. -/
theorem total_le_receive (sid : Uuid) :
    sessionCostTotal books.rows sid ≤ sessionCostTotal (books.receive env.arriving).rows sid := by
  simp only [sessionCostTotal, Books.receive, List.filter_append, List.map_append,
    List.sum_append, le_add_iff_nonneg_right]
  refine List.sum_nonneg (fun c hc => ?_)
  rcases List.mem_map.mp hc with ⟨r, hr, rfl⟩
  exact env.arriving_nonneg r (List.mem_filter.mp hr).1

/-- Nor does the row of an attempt. -/
theorem total_receive_le_invoke (sid : Uuid) :
    sessionCostTotal (books.receive env.arriving).rows sid ≤
      sessionCostTotal (invoke agents context request env books).2.rows sid := by
  have hserve : (invoke agents context request env books).2 =
      serve agents.runtime postgresCostLedger (books.receive env.arriving)
        ⟨invocation agents request env, context, env.up⟩ := rfl
  rw [hserve, serve_eq_settle]
  rcases rows_settle ⟨invocation agents request env, context, env.up⟩
    (books.receive env.arriving) _ with hrows | ⟨r, hrows, _, hr⟩
  · rw [hrows]
  · rw [hrows, sessionCostTotal_snoc, le_add_iff_nonneg_right]
    split
    · exact hr
    · exact le_refl 0

/-- No attempt lowers what a session has spent. -/
theorem total_le_invoke (sid : Uuid) :
    sessionCostTotal books.rows sid ≤
      sessionCostTotal (invoke agents context request env books).2.rows sid :=
  le_trans (total_le_receive sid) (total_receive_le_invoke sid)

end Attempts

section Turns

variable {α : Type} {agents : Agents} {context : TurnTraceContext} {request : ModelCallRequest}
  {accept : ModelCallResult → Except String α} {invalid : String → String → String}
  {first second : CallEnv} {books : Books}

/-- No turn lowers what a session has spent. -/
theorem total_le_turn (sid : Uuid) : sessionCostTotal books.rows sid ≤
    sessionCostTotal (runTurn accept (invoke agents context request) invalid first second
      books).2.rows sid :=
  runTurn_keeps (R := fun a b : Books => sessionCostTotal a.rows sid ≤ sessionCostTotal b.rows sid)
    (fun _ _ _ => le_trans) (fun _ _ => total_le_invoke sid)

/-- What an attempt of a turn has checked is spent after the turn. -/
theorem checkedTotal_le_turn {a : CallEnv × Books}
    (ha : a ∈ attemptsMade accept (invoke agents context request) first second books) :
    checkedTotal request a.1 a.2 ≤
      sessionCostTotal (runTurn accept (invoke agents context request) invalid first second
        books).2.rows request.sessionId := by
  have hrow : checkedTotal request a.1 a.2 ≤
      sessionCostTotal (invoke agents context request a.1 a.2).2.rows request.sessionId :=
    total_receive_le_invoke request.sessionId
  have hafter : sessionCostTotal (invoke agents context request a.1 a.2).2.rows request.sessionId ≤
      sessionCostTotal (runTurn accept (invoke agents context request) invalid first second
        books).2.rows request.sessionId := by
    have hkeep : ∀ (e : CallEnv) (s : Books), sessionCostTotal s.rows request.sessionId ≤
        sessionCostTotal (invoke agents context request e s).2.rows request.sessionId :=
      fun _ _ => total_le_invoke request.sessionId
    exact runTurn_after (R := fun a b : Books => sessionCostTotal a.rows request.sessionId ≤
      sessionCostTotal b.rows request.sessionId) (fun _ => le_rfl) hkeep ha
  exact le_trans hrow hafter

/-- A turn that raises a budget error has made an attempt that found the budget
    spent. -/
theorem exceeded_of_turn (hfirst : first.Candid) (hsecond : second.Candid) {error : WrapperError}
    (hkind : error.className = "SessionBudgetExceeded")
    (h : (runTurn accept (invoke agents context request) invalid first second books).1 =
      .raised (.wrapper error)) :
    ∃ a ∈ attemptsMade accept (invoke agents context request) first second books,
      agents.settings.llmBudgetPerSessionUsd ≤ checkedTotal request a.1 a.2 := by
  rcases runTurn_raised h with ⟨a, ha, hexit⟩
  have hcandid : a.1.Candid := by
    rcases env_of_attempt ha with hone | htwo
    · rw [hone]
      exact hfirst
    · rw [htwo]
      exact hsecond
  exact ⟨a, ha, budget_le_of_exceeded hcandid hkind hexit⟩

/-- A turn one of whose attempts loses its record raises a trace error. -/
theorem turn_of_unwritten {a : CallEnv × Books}
    (ha : a ∈ attemptsMade accept (invoke agents context request) first second books)
    (h : unwritten agents context request a.1 a.2 = true) :
    ∃ message, (runTurn accept (invoke agents context request) invalid first second books).1 =
      .raised (.wrapper (.traceWrite message)) := by
  rcases traceWrite_of_unwritten h with ⟨message, hexit⟩
  refine ⟨message, runTurn_of_raised ha ?_⟩
  rw [hexit]
  rfl

end Turns

end TechScreen
