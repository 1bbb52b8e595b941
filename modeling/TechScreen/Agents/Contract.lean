import TechScreen.Agents.Turns

/-!
# The Contract of an Agent Wrapper

What a caller of the two wrappers may rely on, whatever `call_model` does. A
wrapper makes its request before the first attempt, so what goes wrong there is
never asked for again. From then on only a miss of the contract leads to a second
attempt, and there are three ways to miss it: a schema error of `call_model`, an
error of the validation library, and an answer that the output model takes but
that belongs to another turn.

A caller sees of `call_model` only how each invocation ends, so its behaviour is
a sequence of outcomes here. `agentTurn_exit_eq` says that nothing is lost by it.

## Main definitions

* `ContractMiss`: An attempt has missed the contract.
* `agentTurn`: A wrapper, from its request to its exit.
* `interviewerTurn`, `assessorTurn`: The two wrappers.
* `scripted`: A `call_model` with given outcomes, which keeps its requests.
* `AgentContract`: What a turn may do and how it may end.

## Theorems

* `turnRun_of_agentTurn`: How a turn runs.
* `AgentContract.of_run`: A turn that runs so keeps the contract.
* `agents_keep_contract`: Both wrappers keep it.
* `agentTurn_exit_eq`: A turn ends as the outcomes of its attempts make it.
-/

namespace TechScreen

open Lib Llm

section Wrapper

variable {α ε σ : Type}

/-- An attempt has missed the contract. -/
inductive ContractMiss (satisfies : ModelCallResult → α → Prop) : Exit → Prop where
  | schemaError (message payload : String) :
      ContractMiss satisfies (.error (.wrapper (.vertexSchema message payload)))
  | validationError (message : String) :
      ContractMiss satisfies (.error (.other ⟨"ValidationError", message⟩))
  | unsatisfied (result : ModelCallResult) :
      (∀ output, ¬ satisfies result output) → ContractMiss satisfies (.ok result)

/-- A wrapper: the request, and the attempts with it. -/
def agentTurn (build : Except Unexpected ModelCallRequest)
    (accept : ModelCallResult → Except String α)
    (callModel : ModelCallRequest → ε → σ → Exit × σ) (invalid : String → String → String)
    (first second : ε) (s : σ) : TurnExit α × σ :=
  match build with
  | .error error => (.raised (.other error), s)
  | .ok request => runTurn accept (callModel request) invalid first second s

variable (agents : Agents) (loaded : Except Unexpected Unit)

/-- The request for the next utterance. Reading the prompt or writing out the
    inputs may fail before it is made. -/
def interviewerRequest (inputs : InterviewerTurnInputs) : Except Unexpected ModelCallRequest :=
  loaded.bind fun _ =>
    turnRequest agents.interviewer ⟨"interviewer", interviewer_ne⟩ inputs.sessionId inputs

/-- Produce the next utterance for a move, whatever `call_model` does. -/
def interviewerTurn (callModel : ModelCallRequest → ε → σ → Exit × σ)
    (inputs : InterviewerTurnInputs) (first second : ε) (s : σ) :
    TurnExit InterviewerOutput × σ :=
  agentTurn (interviewerRequest agents loaded inputs) (validateResult agents) callModel
    (fun _ _ => "interviewer output failed schema validation twice (session " ++
      inputs.sessionId.text ++ ", move '" ++ inputs.nextPlannedMove.value ++ "')")
    first second s

/-- The request for a score. -/
def assessorRequest (inputs : AssessorTurnInput) : Except Unexpected ModelCallRequest :=
  loaded.bind fun _ =>
    turnRequest agents.assessor ⟨"assessor", assessor_ne⟩ inputs.sessionId inputs

/-- Score one candidate turn, whatever `call_model` does. -/
def assessorTurn (callModel : ModelCallRequest → ε → σ → Exit × σ) (inputs : AssessorTurnInput)
    (first second : ε) (s : σ) : TurnExit AssessorOutput × σ :=
  agentTurn (assessorRequest agents loaded inputs) (scoreResult agents inputs) callModel
    (fun firstMiss secondMiss => "assessor output failed the " ++ agents.assessor.promptVersion ++
      " contract twice (first miss: " ++ firstMiss ++ ", second miss: " ++ secondMiss ++
      "); payload detail is on the chained cause")
    first second s

/-- The wrappers of the service are these, once there is a request. -/
theorem runInterviewerTurn_eq {context : TurnTraceContext} {inputs : InterviewerTurnInputs}
    {request : ModelCallRequest} (h : interviewerRequest agents loaded inputs = .ok request)
    (first second : CallEnv) (books : Books) :
    runInterviewerTurn agents context request inputs first second books =
      interviewerTurn agents loaded (invoke agents context) inputs first second books := by
  simp only [interviewerTurn, agentTurn, h]
  rfl

theorem runAssessorTurn_eq {context : TurnTraceContext} {inputs : AssessorTurnInput}
    {request : ModelCallRequest} (h : assessorRequest agents loaded inputs = .ok request)
    (first second : CallEnv) (books : Books) :
    runAssessorTurn agents context request inputs first second books =
      assessorTurn agents loaded (invoke agents context) inputs first second books := by
  simp only [assessorTurn, agentTurn, h]
  rfl

/-- The invocations end as given, and their requests are kept in order. -/
def scripted (outcomes : Nat → Exit) (request : ModelCallRequest) (_ : Unit)
    (requests : List ModelCallRequest) : Exit × List ModelCallRequest :=
  (outcomes requests.length, requests ++ [request])

/-- What a turn may do and how it may end: the `n`-th invocation ends in the
    `n`-th outcome, and the requests are those that have been made. -/
structure AgentContract (build : Except Unexpected ModelCallRequest)
    (satisfies : ModelCallResult → α → Prop) (outcomes : Nat → Exit)
    (exit : TurnExit α) (requests : List ModelCallRequest) : Prop where
  atMostTwice : requests.length ≤ 2
  sameRequest : ∀ request ∈ requests, build = .ok request
  answered : ∀ output, exit = .answered output →
    ∃ n result, requests.length = n + 1 ∧ outcomes n = .ok result ∧ satisfies result output
  invalid_iff : (∃ message, exit = .outputInvalid message) ↔
    (∃ request, build = .ok request) ∧ ContractMiss satisfies (outcomes 0) ∧
      ContractMiss satisfies (outcomes 1)
  propagates : ∀ n error, n < requests.length → outcomes n = .error error →
    ¬ ContractMiss satisfies (outcomes n) → exit = .raised error ∧ requests.length = n + 1
  raised : ∀ error, exit = .raised error →
    (∃ unexpected, build = .error unexpected ∧ error = .other unexpected ∧ requests = []) ∨
      ∃ n, requests.length = n + 1 ∧ outcomes n = .error error ∧
        ¬ ContractMiss satisfies (outcomes n)

end Wrapper

section Runs

variable {α : Type} {accept : ModelCallResult → Except String α}
  {satisfies : ModelCallResult → α → Prop} {build : Except Unexpected ModelCallRequest}
  {outcomes : Nat → Exit} {invalid : String → String → String}

/-- How a turn runs. Every attempt but the last has missed the contract. -/
inductive TurnRun (build : Except Unexpected ModelCallRequest)
    (satisfies : ModelCallResult → α → Prop) (outcomes : Nat → Exit) :
    TurnExit α → List ModelCallRequest → Prop where
  | unbuilt (error : Unexpected) : build = .error error →
      TurnRun build satisfies outcomes (.raised (.other error)) []
  | answered (request : ModelCallRequest) (n : Nat) (result : ModelCallResult) (output : α) :
      build = .ok request → n < 2 → (∀ m < n, ContractMiss satisfies (outcomes m)) →
      outcomes n = .ok result → satisfies result output →
      TurnRun build satisfies outcomes (.answered output) (List.replicate (n + 1) request)
  | raised (request : ModelCallRequest) (n : Nat) (error : Raised) :
      build = .ok request → n < 2 → (∀ m < n, ContractMiss satisfies (outcomes m)) →
      outcomes n = .error error → ¬ ContractMiss satisfies (outcomes n) →
      TurnRun build satisfies outcomes (.raised error) (List.replicate (n + 1) request)
  | missed (request : ModelCallRequest) (message : String) :
      build = .ok request → (∀ m < 2, ContractMiss satisfies (outcomes m)) →
      TurnRun build satisfies outcomes (.outputInvalid message) (List.replicate 2 request)

/-- What an attempt amounts to, in the words of the contract. -/
theorem judge_cases
    (haccept : ∀ result output, accept result = .ok output ↔ satisfies result output)
    (exit : Exit) :
    (∃ result output, exit = .ok result ∧ satisfies result output ∧
      judge accept exit = .answered output) ∨
    (∃ kind, ContractMiss satisfies exit ∧ judge accept exit = .missed kind) ∨
    ∃ error, exit = .error error ∧ ¬ ContractMiss satisfies exit ∧
      judge accept exit = .raised error := by
  cases exit with
  | ok result =>
      cases hresult : accept result with
      | ok output =>
          refine Or.inl ⟨result, output, rfl, (haccept result output).mp hresult, ?_⟩
          simp only [judge, hresult]
      | error kind =>
          refine Or.inr (Or.inl ⟨kind, .unsatisfied result (fun output hs => ?_), ?_⟩)
          · rw [(haccept result output).mpr hs] at hresult
            cases hresult
          · simp only [judge, hresult]
  | error error =>
      right
      cases error with
      | wrapper error =>
          cases error with
          | vertexSchema message payload =>
              exact Or.inl ⟨_, .schemaError message payload, rfl⟩
          | _ => exact Or.inr ⟨_, rfl, fun h => (by cases h), rfl⟩
      | other error =>
          by_cases hkind : error.kind = "ValidationError"
          · -- Whoever raises it, the class is the one that the wrappers catch.
            obtain ⟨kind, message⟩ := error
            cases hkind
            exact Or.inl ⟨_, .validationError message, rfl⟩
          · refine Or.inr ⟨_, rfl, fun h => ?_, ?_⟩
            · cases h
              exact hkind rfl
            · simp only [judge, if_neg hkind]

/-- Every turn runs so. -/
theorem turnRun_of_agentTurn
    (haccept : ∀ result output, accept result = .ok output ↔ satisfies result output) :
    TurnRun build satisfies outcomes
      (agentTurn build accept (scripted outcomes) invalid () () []).1
      (agentTurn build accept (scripted outcomes) invalid () () []).2 := by
  cases build with
  | error error => exact .unbuilt error rfl
  | ok request =>
      have hfirst : scripted outcomes request () [] = (outcomes 0, [request]) := rfl
      have hsecond : scripted outcomes request () [request]
          = (outcomes 1, [request, request]) := rfl
      have hnone : ∀ m < 0, ContractMiss satisfies (outcomes m) := fun m hm => by omega
      rcases judge_cases haccept (outcomes 0) with
        ⟨result, output, hout, hs, hone⟩ | ⟨kind, hmiss, hone⟩ | ⟨error, hout, hother, hone⟩
      · simp only [agentTurn, runTurn, hfirst, hone]
        exact .answered request 0 result output rfl (by omega) hnone hout hs
      · have honly : ∀ m < 1, ContractMiss satisfies (outcomes m) := by
          intro m hm
          rw [show m = 0 by omega]
          exact hmiss
        rcases judge_cases haccept (outcomes 1) with
          ⟨result, output, hout, hs, htwo⟩ | ⟨other, hagain, htwo⟩ | ⟨error, hout, hother, htwo⟩
        · simp only [agentTurn, runTurn, hfirst, hone, hsecond, htwo]
          exact .answered request 1 result output rfl (by omega) honly hout hs
        · simp only [agentTurn, runTurn, hfirst, hone, hsecond, htwo]
          refine .missed request _ rfl (fun m hm => ?_)
          by_cases hlast : m = 1
          · rw [hlast]
            exact hagain
          · exact honly m (by omega)
        · simp only [agentTurn, runTurn, hfirst, hone, hsecond, htwo]
          exact .raised request 1 error rfl (by omega) honly hout hother
      · simp only [agentTurn, runTurn, hfirst, hone]
        exact .raised request 0 error rfl (by omega) hnone hout hother

/-- An attempt that has been answered has not missed the contract. -/
theorem not_miss_of_satisfies {result : ModelCallResult} {output : α}
    (hs : satisfies result output) : ¬ ContractMiss satisfies (.ok result) := by
  intro h
  cases h with
  | unsatisfied _ hnone => exact hnone output hs

/-- A turn in which some attempt has not missed the contract ends without the
    error of the agent. -/
theorem not_both_missed {n : Nat} (hn : n < 2) (h : ¬ ContractMiss satisfies (outcomes n)) :
    ¬ (ContractMiss satisfies (outcomes 0) ∧ ContractMiss satisfies (outcomes 1)) := by
  rintro ⟨hzero, hone⟩
  rcases Nat.lt_succ_iff_lt_or_eq.mp hn with hlt | rfl
  · rw [show n = 0 by omega] at h
    exact h hzero
  · exact h hone

/-- A turn that runs so keeps the contract. -/
theorem AgentContract.of_run {exit : TurnExit α} {requests : List ModelCallRequest}
    (h : TurnRun build satisfies outcomes exit requests) :
    AgentContract build satisfies outcomes exit requests := by
  cases h with
  -- No request could be built, and none has been sent.
  | unbuilt error hbuild =>
      exact {
        atMostTwice := Nat.zero_le 2
        sameRequest := fun request hr => absurd hr List.not_mem_nil
        answered := fun output hexit => by cases hexit
        invalid_iff := by
          refine iff_of_false (fun ⟨message, hexit⟩ => by cases hexit) ?_
          rintro ⟨⟨request, hok⟩, -⟩
          rw [hbuild] at hok
          cases hok
        propagates := fun n error hn => absurd hn (Nat.not_lt_zero n)
        raised := fun x hexit => by
          cases hexit
          exact Or.inl ⟨error, hbuild, rfl, rfl⟩ }
  -- All attempts but the last have missed, and the last one satisfies.
  | answered request n result output hbuild hn hmissed hout hs =>
      have hkept : ¬ ContractMiss satisfies (outcomes n) := by
        rw [hout]
        exact not_miss_of_satisfies hs
      exact {
        atMostTwice := by
          rw [List.length_replicate]
          omega
        sameRequest := fun r hr => by
          rw [List.eq_of_mem_replicate hr]
          exact hbuild
        answered := fun x hexit => by
          cases hexit
          exact ⟨n, result, List.length_replicate, hout, hs⟩
        invalid_iff := iff_of_false (fun ⟨message, hexit⟩ => by cases hexit)
          (fun hboth => not_both_missed hn hkept hboth.2)
        propagates := fun m error hm herror hother => by
          rw [List.length_replicate] at hm
          rcases Nat.lt_succ_iff_lt_or_eq.mp hm with hlt | rfl
          · exact absurd (hmissed m hlt) hother
          · rw [hout] at herror
            cases herror
        raised := fun error hexit => by cases hexit }
  -- All but the last have missed, and the last one is for the caller.
  | raised request n error hbuild hn hmissed hout hother =>
      exact {
        atMostTwice := by
          rw [List.length_replicate]
          omega
        sameRequest := fun r hr => by
          rw [List.eq_of_mem_replicate hr]
          exact hbuild
        answered := fun output hexit => by cases hexit
        invalid_iff := iff_of_false (fun ⟨message, hexit⟩ => by cases hexit)
          (fun hboth => not_both_missed hn hother hboth.2)
        propagates := fun m x hm herror hkept => by
          rw [List.length_replicate] at hm
          rcases Nat.lt_succ_iff_lt_or_eq.mp hm with hlt | rfl
          · exact absurd (hmissed m hlt) hkept
          · rw [hout] at herror
            cases herror
            exact ⟨rfl, List.length_replicate⟩
        raised := fun x hexit => by
          cases hexit
          exact Or.inr ⟨n, List.length_replicate, hout, hother⟩ }
  -- Both have missed.
  | missed request message hbuild hmissed =>
      exact {
        atMostTwice := by rw [List.length_replicate]
        sameRequest := fun r hr => by
          rw [List.eq_of_mem_replicate hr]
          exact hbuild
        answered := fun output hexit => by cases hexit
        invalid_iff := iff_of_true ⟨message, rfl⟩
          ⟨⟨request, hbuild⟩, hmissed 0 (by omega), hmissed 1 (by omega)⟩
        propagates := fun n error hn _ hother => by
          rw [List.length_replicate] at hn
          exact absurd (hmissed n hn) hother
        raised := fun error hexit => by cases hexit }

end Runs

section Agents

variable (agents : Agents) (loaded : Except Unexpected Unit)

/-- The answer satisfies the output model of the interviewer. -/
def InterviewerSatisfies (result : ModelCallResult) (output : InterviewerOutput) : Prop :=
  agents.interviewer.validate result.parsed = some output

/-- The answer satisfies the output model of the assessor, and belongs to the turn. -/
def AssessorSatisfies (inputs : AssessorTurnInput) (result : ModelCallResult)
    (output : AssessorOutput) : Prop :=
  agents.assessor.validate result.parsed = some output ∧ output.turnId = inputs.turnId ∧
    output.sessionId = inputs.sessionId ∧ output.competencyFocus = inputs.competencyFocus

theorem validateResult_ok_iff (result : ModelCallResult) (output : InterviewerOutput) :
    validateResult agents result = .ok output ↔ InterviewerSatisfies agents result output := by
  unfold validateResult InterviewerSatisfies
  cases agents.interviewer.validate result.parsed with
  | some x => simp only [Except.ok.injEq, Option.some.injEq]
  | none => simp only [reduceCtorEq]

theorem scoreResult_ok_iff (inputs : AssessorTurnInput) (result : ModelCallResult)
    (output : AssessorOutput) :
    scoreResult agents inputs result = .ok output ↔
      AssessorSatisfies agents inputs result output := by
  unfold scoreResult AssessorSatisfies
  cases agents.assessor.validate result.parsed with
  | none => simp only [reduceCtorEq, false_and]
  | some x =>
      rw [Option.some.injEq]
      by_cases hecho : echoes inputs x = true
      · have hids := hecho
        simp only [echoes, Bool.and_eq_true, decide_eq_true_eq] at hids
        simp only [if_pos hecho, Except.ok.injEq]
        refine ⟨fun h => ?_, fun h => h.1⟩
        rw [← h]
        exact ⟨rfl, hids.1.1, hids.1.2, hids.2⟩
      · simp only [if_neg hecho, reduceCtorEq, false_iff]
        rintro ⟨rfl, hturn, hsession, hfocus⟩
        refine hecho ?_
        simp only [echoes, hturn, hsession, hfocus, decide_true, Bool.and_self]

/-- Whatever `call_model` does, both wrappers keep the contract. -/
theorem agents_keep_contract (outcomes : Nat → Exit) :
    (∀ inputs, AgentContract (interviewerRequest agents loaded inputs)
      (InterviewerSatisfies agents) outcomes
      (interviewerTurn agents loaded (scripted outcomes) inputs () () []).1
      (interviewerTurn agents loaded (scripted outcomes) inputs () () []).2) ∧
    ∀ inputs, AgentContract (assessorRequest agents loaded inputs)
      (AssessorSatisfies agents inputs) outcomes
      (assessorTurn agents loaded (scripted outcomes) inputs () () []).1
      (assessorTurn agents loaded (scripted outcomes) inputs () () []).2 :=
  ⟨fun _ => .of_run (turnRun_of_agentTurn (validateResult_ok_iff agents)),
    fun inputs => .of_run (turnRun_of_agentTurn (scoreResult_ok_iff agents inputs))⟩

end Agents

section Outcomes

variable {α ε σ : Type}

/-- One outcome for the first attempt, and another for every further one. -/
def firstThen (first further : Exit) : Nat → Exit
  | 0 => first
  | _ + 1 => further

/-- A turn ends as the outcomes of its attempts make it, however they come about. -/
theorem agentTurn_exit_eq (build : Except Unexpected ModelCallRequest)
    (accept : ModelCallResult → Except String α)
    (callModel : ModelCallRequest → ε → σ → Exit × σ) (invalid : String → String → String)
    (first second : ε) (s : σ) :
    ∃ outcomes, (agentTurn build accept callModel invalid first second s).1 =
      (agentTurn build accept (scripted outcomes) invalid () () []).1 := by
  cases build with
  | error error => exact ⟨fun _ => .error (.other error), rfl⟩
  | ok request =>
      refine ⟨firstThen (callModel request first s).1
        (callModel request second (callModel request first s).2).1, ?_⟩
      simp only [agentTurn, runTurn, scripted, firstThen, List.length_nil, List.nil_append,
        List.length_singleton]
      cases judge accept (callModel request first s).1 with
      | answered output => rfl
      | raised error => rfl
      | missed kind =>
          dsimp only
          cases judge accept (callModel request second (callModel request first s).2).1 <;> rfl

end Outcomes

end TechScreen
