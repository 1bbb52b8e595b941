import TechScreen.Agents.OutputModels
import TechScreen.Agents.Turns
import TechScreen.Services.Pace
import TechScreen.Services.Recovery

/-!
# The Shell with Its Books

The service of one session together with the trace rows, from which the ledger
takes what the session has spent. An agent call is no longer left to the
environment: the guard looks at the ledger, the wrapper makes its attempts, and
each attempt looks at the ledger again and writes a row. What is left to the
environment is what happens around them: the rows that others write in between,
the answer of the flag, the backend, the clock, and whether the database takes a
row.

Every run of this service is a run of the shell, with the agents answering as
the books make them. So what holds of the shell in every run holds here.

## Main definitions

* `BookedService`: What the service is built with.
* `guardSessionBudget`: The check before an agent call.
* `TurnEnv`: What the environment does around one agent call.
* `guardedTurn`: An agent call of the shell.
* `AgentCall`, `AgentCall.attempts`: The agent call of a task, and its attempts.
* `bookedStep`: The service takes one step.

## Theorems

* `shell_of_booked`: A run of this service is a run of the shell.
* `spent_of_exceeded`: An attempt that raises a budget error has found it spent.
* `raised_of_unwritten`: A refused row is what the caller gets to know of.
-/

namespace TechScreen

open Lib Llm

section Calls

/-- What the service is built with, with its agents and its ceiling. -/
structure BookedService where
  svc : DevSession
  agents : Agents
  ceiling : ℚ

/-- What the environment does around one agent call: the rows that others write
    before the guard looks at the ledger, the answer of the flag, the
    orchestrator's part of the rows, and what it does around the two attempts. -/
structure TurnEnv where
  waiting : List TurnTrace := []
  enforced : Bool := true
  transition : Option Json := none
  first : CallEnv
  second : CallEnv
  waiting_nonneg : ∀ r ∈ waiting, 0 ≤ r.costUsd

/-- Neither backend of an agent call raises the wrapper's budget error. -/
def TurnEnv.Candid (env : TurnEnv) : Prop := env.first.Candid ∧ env.second.Candid

variable (b : BookedService)

/-- What the session has spent. -/
def BookedService.spent (books : Books) : ℚ := sessionCostTotal books.rows b.svc.sessionId

/-- The check before an agent call: the ceiling, where it is enforced. -/
def BookedService.guardSessionBudget (enforced : Bool) (books : Books) : Except WrapperError ℚ :=
  if b.spent books < b.ceiling then .ok (b.spent books)
  else if enforced then
    .error (.sessionBudgetExceeded ("session " ++ b.svc.sessionId.text ++ " at " ++
      b.agents.runtime.decimalText (b.spent books) ++ " USD has reached the " ++
      b.agents.runtime.decimalText b.ceiling ++ " USD per-session ceiling"))
  else .ok (b.spent books)

/-- How the shell takes the end of a turn. -/
def TurnExit.outcome {α : Type} : TurnExit α → CallOutcome α
  | .answered output => .output output
  | .outputInvalid _ => .outputInvalid
  | .raised (.wrapper error) => .wrapperError error.className
  | .raised (.other _) => .raised

section Guarded
variable {ι α : Type} (texts : AgentTexts ι α) (agent : {agent : String // agent ≠ ""})
  (turnId : Uuid) (inputs : ι) (env : TurnEnv)

/-- What is bound around a call to complete its rows. -/
def TurnEnv.context : TurnTraceContext where
  promptVersion := texts.promptVersion
  turnId := some turnId
  systemPrompt := texts.systemPrompt
  userPayload := texts.userPayload inputs
  transition := env.transition

/-- An agent call of the shell: the guard, the request, and the turn. -/
def guardedTurn (turn : TurnTraceContext → ModelCallRequest → Books → TurnExit α × Books)
    (books : Books) : CallOutcome α × Books :=
  let books := books.receive env.waiting
  match b.guardSessionBudget env.enforced books with
  | .error _ => (.budgetExceeded, books)
  | .ok _ =>
      match turnRequest texts agent b.svc.sessionId inputs with
      | .error _ => (.raised, books)
      | .ok request =>
          let (exit, books) := turn (env.context texts turnId inputs) request books
          (exit.outcome, books)

/-- The attempts of an agent call, each with its request and the books it finds. -/
def guardedAttempts (accept : ModelCallResult → Except String α) (books : Books) :
    List (ModelCallRequest × CallEnv × Books) :=
  let books := books.receive env.waiting
  match b.guardSessionBudget env.enforced books with
  | .error _ => []
  | .ok _ =>
      match turnRequest texts agent b.svc.sessionId inputs with
      | .error _ => []
      | .ok request =>
          (attemptsMade accept (invoke b.agents (env.context texts turnId inputs) request)
            env.first env.second books).map (fun a => (request, a.1, a.2))

end Guarded

/-- An agent call that a task makes. -/
inductive AgentCall where
  | interviewer (working : Working) (command : RunInterviewer)
  | assessor (command : RunAssessor) (inputs : AssessorTurnInput)

/-- The agent call that the next step of a task makes. -/
def ShellTask.agentCall? : ShellTask → Option AgentCall
  | .assess command inputs => some (.assessor command inputs)
  | .execute d _ (command :: _) _ => command.call?.map (.interviewer d.working)
  | _ => none

variable [Scalars]

/-- Call the interviewer for one move. -/
def callInterviewer (w : Working) (command : RunInterviewer) (env : TurnEnv) (books : Books) :
    CallOutcome InterviewerOutput × Books :=
  let inputs := interviewerInputs b.svc w command
  guardedTurn b b.agents.interviewer ⟨"interviewer", interviewer_ne⟩ command.turnId inputs env
    (fun context request => runInterviewerTurn b.agents context request inputs env.first env.second)
    books

omit [Scalars] in
/-- Call the assessor for one answer. -/
def callAssessor (command : RunAssessor) (inputs : AssessorTurnInput) (env : TurnEnv)
    (books : Books) : CallOutcome AssessorOutput × Books :=
  guardedTurn b b.agents.assessor ⟨"assessor", assessor_ne⟩ command.turnId inputs env
    (fun context request => runAssessorTurn b.agents context request inputs env.first env.second)
    books

/-- The attempts that an agent call makes. -/
def AgentCall.attempts (env : TurnEnv) (books : Books) :
    AgentCall → List (ModelCallRequest × CallEnv × Books)
  | .interviewer w command =>
      guardedAttempts b b.agents.interviewer ⟨"interviewer", interviewer_ne⟩ command.turnId
        (interviewerInputs b.svc w command) env (validateResult b.agents) books
  | .assessor command inputs =>
      guardedAttempts b b.agents.assessor ⟨"assessor", assessor_ne⟩ command.turnId inputs env
        (scoreResult b.agents inputs) books

/-- How the rows of an agent call are completed. -/
def AgentCall.context (env : TurnEnv) : AgentCall → TurnTraceContext
  | .interviewer w command => env.context b.agents.interviewer command.turnId
      (interviewerInputs b.svc w command)
  | .assessor command inputs => env.context b.agents.assessor command.turnId inputs

/-- How an agent call ends, and the books after it. -/
def AgentCall.answer (now : Instant) (env : TurnEnv) (books : Books) : AgentCall → Oracle × Books
  | .interviewer w command =>
      let (outcome, books) := callInterviewer b w command env books
      (⟨now, outcome, .raised⟩, books)
  | .assessor command inputs =>
      let (outcome, books) := callAssessor b command inputs env books
      (⟨now, .raised, outcome⟩, books)

end Calls

section Service

/-- The session with its tasks, and the books. -/
structure Booked where
  world : World
  books : Books := {}

/-- What happens next: a request arrives, or a task takes its next step at a
    time, with what the environment does if it calls an agent. -/
inductive BookedChoice where
  | post (text : String)
  | run (task : Nat) (now : Instant) (env : TurnEnv)

variable [Scalars] (b : BookedService)

/-- The agent call that a step makes. -/
def Booked.call? (s : Booked) : BookedChoice → Option AgentCall
  | .post _ => none
  | .run i _ _ => s.world.tasks[i]?.bind ShellTask.agentCall?

/-- What a step finds out from the agents, and the books after it. -/
def Booked.answer (s : Booked) (i : Nat) (now : Instant) (env : TurnEnv) : Oracle × Books :=
  match s.call? (.run i now env) with
  | some call => call.answer b now env s.books
  | none => (⟨now, .raised, .raised⟩, s.books)

/-- A choice as the shell sees it. -/
def Booked.choice (s : Booked) : BookedChoice → Choice
  | .post text => .post text
  | .run i now env => .run i (s.answer b i now env).1

/-- The books after a choice. -/
def Booked.after (s : Booked) : BookedChoice → Books
  | .post _ => s.books
  | .run i now env => (s.answer b i now env).2

/-- The service takes one step. -/
def bookedStep : Step Booked BookedChoice Effect Blocked := fun s c =>
  (shellStep b.svc s.world (s.choice b c)).map (fun r => (⟨r.1, s.after b c⟩, r.2))

/-- A session that has just been created. Nothing has been spent. -/
def opening (planInput : Dict String Json) (now : Instant) : Booked :=
  ⟨created b.svc planInput now, {}⟩

theorem bookedStep_ok {s s' : Booked} {c : BookedChoice} {out : List Effect}
    (h : bookedStep b s c = .ok (s', out)) :
    shellStep b.svc s.world (s.choice b c) = .ok (s'.world, out) ∧ s'.books = s.after b c := by
  unfold bookedStep at h
  cases hstep : shellStep b.svc s.world (s.choice b c) with
  | error x =>
      rw [hstep] at h
      cases h
  | ok r =>
      rw [hstep] at h
      cases h
      exact ⟨rfl, rfl⟩

/-- A step as the shell takes it. -/
abbrev shown (t : Taken Booked BookedChoice Effect) : Taken World Choice Effect :=
  t.image Booked.world (fun s c => s.choice b c)

/-- A run of the service with its books is a run of the shell. -/
theorem shell_of_booked {s₀ s : Booked} {ts : List (Taken Booked BookedChoice Effect)}
    (h : Run (bookedStep b) s₀ ts s) :
    Run (shellStep b.svc) s₀.world (ts.map (shown b)) s.world :=
  h.image Booked.world (fun s c => s.choice b c) (fun _ _ _ _ hstep => (bookedStep_ok b hstep).1)

end Service

section Facts
variable {b : BookedService} {ι α : Type} {texts : AgentTexts ι α}
  {agent : {agent : String // agent ≠ ""}} {turnId : Uuid} {inputs : ι} {env : TurnEnv}
  {accept : ModelCallResult → Except String α} {invalid : String → String → String}
  {books : Books}

/-- The turn that a wrapper makes. -/
abbrev turnOfAgent (b : BookedService) (env : TurnEnv)
    (accept : ModelCallResult → Except String α) (invalid : String → String → String)
    (context : TurnTraceContext) (request : ModelCallRequest) (books : Books) :
    TurnExit α × Books :=
  runTurn accept (invoke b.agents context request) invalid env.first env.second books

theorem guard_of_spent {enforced : Bool} (henforced : enforced = true)
    (h : b.ceiling ≤ b.spent books) : ∃ e, b.guardSessionBudget enforced books = .error e := by
  unfold BookedService.guardSessionBudget
  rw [if_neg (not_lt.mpr h), if_pos henforced]
  exact ⟨_, rfl⟩

/-- An agent call is refused by the guard, ends before it has made an attempt, or
    makes the attempts of its turn. -/
theorem guardedTurn_cases (b : BookedService) (texts : AgentTexts ι α)
    (agent : {agent : String // agent ≠ ""}) (turnId : Uuid) (inputs : ι) (env : TurnEnv)
    (accept : ModelCallResult → Except String α) (invalid : String → String → String)
    (books : Books) :
    (guardedTurn b texts agent turnId inputs env (turnOfAgent b env accept invalid) books =
        (.budgetExceeded, books.receive env.waiting) ∧
      guardedAttempts b texts agent turnId inputs env accept books = []) ∨
    (guardedTurn b texts agent turnId inputs env (turnOfAgent b env accept invalid) books =
        (.raised, books.receive env.waiting) ∧
      guardedAttempts b texts agent turnId inputs env accept books = []) ∨
    ∃ request, request.sessionId = b.svc.sessionId ∧
      guardedTurn b texts agent turnId inputs env (turnOfAgent b env accept invalid) books =
        ((turnOfAgent b env accept invalid (env.context texts turnId inputs) request
            (books.receive env.waiting)).1.outcome,
          (turnOfAgent b env accept invalid (env.context texts turnId inputs) request
            (books.receive env.waiting)).2) ∧
      guardedAttempts b texts agent turnId inputs env accept books =
        (attemptsMade accept (invoke b.agents (env.context texts turnId inputs) request)
          env.first env.second (books.receive env.waiting)).map (fun a => (request, a.1, a.2)) := by
  unfold guardedTurn guardedAttempts
  dsimp only
  cases hguard : b.guardSessionBudget env.enforced (books.receive env.waiting) with
  | error e => exact Or.inl ⟨rfl, rfl⟩
  | ok total =>
      right
      cases hrequest : turnRequest texts agent b.svc.sessionId inputs with
      | error e => exact Or.inl ⟨rfl, rfl⟩
      | ok request =>
          refine Or.inr ⟨request, ?_, rfl, rfl⟩
          unfold turnRequest at hrequest
          split at hrequest
          · cases hrequest
            rfl
          · cases hrequest

theorem spent_le_receive : b.spent books ≤ b.spent (books.receive env.waiting) := by
  unfold BookedService.spent sessionCostTotal Books.receive
  rw [List.filter_append, List.map_append, List.sum_append, le_add_iff_nonneg_right]
  refine List.sum_nonneg (fun c hc => ?_)
  obtain ⟨r, hr, rfl⟩ := List.mem_map.mp hc
  exact env.waiting_nonneg r (List.mem_filter.mp hr).1

/-- No agent call lowers what the session has spent. -/
theorem spent_le_guardedTurn : b.spent books ≤
    b.spent (guardedTurn b texts agent turnId inputs env (turnOfAgent b env accept invalid)
      books).2 := by
  have hwaiting : b.spent books ≤ b.spent (books.receive env.waiting) := spent_le_receive
  rcases guardedTurn_cases b texts agent turnId inputs env accept invalid books with
    ⟨h, -⟩ | ⟨h, -⟩ | ⟨request, -, h, -⟩
  · rw [h]
    exact hwaiting
  · rw [h]
    exact hwaiting
  · rw [h]
    exact le_trans hwaiting (total_le_turn b.svc.sessionId)

/-- A budget error comes of an attempt that has found the budget spent, and then
    it is. -/
theorem spent_of_exceeded (hcandid : env.Candid)
    (h : (guardedTurn b texts agent turnId inputs env (turnOfAgent b env accept invalid) books).1 =
      .wrapperError "SessionBudgetExceeded") :
    (∃ a ∈ guardedAttempts b texts agent turnId inputs env accept books,
      b.agents.settings.llmBudgetPerSessionUsd ≤ checkedTotal a.1 a.2.1 a.2.2) ∧
    b.agents.settings.llmBudgetPerSessionUsd ≤
      b.spent (guardedTurn b texts agent turnId inputs env (turnOfAgent b env accept invalid)
        books).2 := by
  rcases guardedTurn_cases b texts agent turnId inputs env accept invalid books with
    ⟨hturn, -⟩ | ⟨hturn, -⟩ | ⟨request, hid, hturn, hattempts⟩
  · rw [hturn] at h
    cases h
  · rw [hturn] at h
    cases h
  · rw [hturn] at h ⊢
    cases hexit : (turnOfAgent b env accept invalid (env.context texts turnId inputs) request
        (books.receive env.waiting)).1 with
    | answered output =>
        rw [hexit] at h
        cases h
    | outputInvalid message =>
        rw [hexit] at h
        cases h
    | raised error =>
        cases error with
        | other error =>
            rw [hexit] at h
            cases h
        | wrapper error =>
            rw [hexit] at h
            -- The error of the wrapper is the budget error itself.
            have hkind : error.className = "SessionBudgetExceeded" := CallOutcome.wrapperError.inj h
            obtain ⟨a, ha, hbudget⟩ := exceeded_of_turn hcandid.1 hcandid.2 hkind hexit
            refine ⟨⟨(request, a.1, a.2), ?_, hbudget⟩, ?_⟩
            · rw [hattempts]
              exact List.mem_map_of_mem ha
            · -- What the attempt has found is spent after the turn too.
              have hafter : checkedTotal request a.1 a.2 ≤ sessionCostTotal (turnOfAgent b env
                  accept invalid (env.context texts turnId inputs) request
                  (books.receive env.waiting)).2.rows request.sessionId :=
                checkedTotal_le_turn ha
              rw [hid] at hafter
              exact le_trans hbudget hafter

/-- Where a record is refused, what the caller gets to know of is just that. -/
theorem raised_of_unwritten {a : ModelCallRequest × CallEnv × Books}
    (ha : a ∈ guardedAttempts b texts agent turnId inputs env accept books)
    (h : unwritten b.agents (env.context texts turnId inputs) a.1 a.2.1 a.2.2 = true) :
    (guardedTurn b texts agent turnId inputs env (turnOfAgent b env accept invalid) books).1 =
      .wrapperError "TraceWriteError" := by
  rcases guardedTurn_cases b texts agent turnId inputs env accept invalid books with
    ⟨-, hnone⟩ | ⟨-, hnone⟩ | ⟨request, -, hturn, hattempts⟩
  · rw [hnone] at ha
    exact absurd ha List.not_mem_nil
  · rw [hnone] at ha
    exact absurd ha List.not_mem_nil
  · rw [hattempts] at ha
    obtain ⟨a', ha', rfl⟩ := List.mem_map.mp ha
    have hraised : ∃ message, (turnOfAgent b env accept invalid (env.context texts turnId inputs)
        request (books.receive env.waiting)).1 = .raised (.wrapper (.traceWrite message)) :=
      turn_of_unwritten ha' h
    obtain ⟨message, hraised⟩ := hraised
    rw [hturn, hraised]
    rfl

end Facts

section Spending
variable [Scalars] {b : BookedService} {env : TurnEnv} {books : Books}

theorem callInterviewer_turn (b : BookedService) (w : Working) (command : RunInterviewer)
    (env : TurnEnv) (books : Books) : ∃ invalid,
    callInterviewer b w command env books =
      guardedTurn b b.agents.interviewer ⟨"interviewer", interviewer_ne⟩ command.turnId
        (interviewerInputs b.svc w command) env
        (turnOfAgent b env (validateResult b.agents) invalid) books := ⟨_, rfl⟩

omit [Scalars] in
theorem callAssessor_turn (b : BookedService) (command : RunAssessor)
    (inputs : AssessorTurnInput) (env : TurnEnv) (books : Books) : ∃ invalid,
    callAssessor b command inputs env books =
      guardedTurn b b.agents.assessor ⟨"assessor", assessor_ne⟩ command.turnId inputs env
        (turnOfAgent b env (scoreResult b.agents inputs) invalid) books := ⟨_, rfl⟩

/-- No agent call lowers what the session has spent. -/
theorem spent_le_answer (call : AgentCall) (now : Instant) :
    b.spent books ≤ b.spent (call.answer b now env books).2 := by
  cases call with
  | interviewer w command =>
      obtain ⟨invalid, h⟩ := callInterviewer_turn b w command env books
      have hle : b.spent books ≤ b.spent (callInterviewer b w command env books).2 := by
        rw [h]
        exact spent_le_guardedTurn
      exact hle
  | assessor command inputs =>
      obtain ⟨invalid, h⟩ := callAssessor_turn b command inputs env books
      have hle : b.spent books ≤ b.spent (callAssessor b command inputs env books).2 := by
        rw [h]
        exact spent_le_guardedTurn
      exact hle

/-- No step lowers what the session has spent. -/
theorem spent_le_after (s : Booked) (c : BookedChoice) :
    b.spent s.books ≤ b.spent (s.after b c) := by
  cases c with
  | post text => exact le_refl (b.spent s.books)
  | run i now env =>
      rw [Booked.after, Booked.answer]
      cases s.call? (.run i now env) with
      | none => exact le_refl (b.spent s.books)
      | some call => exact spent_le_answer call now

end Spending

section Steps
variable [Scalars] {b : BookedService} {s s' : Booked} {c : BookedChoice} {out : List Effect}

/-- What a step of the service with its books is. -/
theorem bookedStep_cases (h : bookedStep b s c = .ok (s', out)) :
    (∃ text, c = .post text ∧ out = [] ∧
      s' = ⟨{ s.world with tasks := s.world.tasks ++ [.load (.postTurn text)] }, s.books⟩) ∨
    ∃ i now env task p, c = .run i now env ∧ s.world.tasks[i]? = some task ∧
      taskStep b.svc s.world.row (s.answer b i now env).1 task = some p ∧ out = p.effects ∧
      s' = ⟨⟨p.row, s.world.decisions ++ p.decisions, s.world.tasks.set i p.task ++ p.spawned⟩,
        (s.answer b i now env).2⟩ := by
  obtain ⟨hshell, hbooks⟩ := bookedStep_ok b h
  cases s' with
  | mk world books =>
      subst hbooks
      cases c with
      | post text =>
          rcases shellStep_cases b.svc hshell with
            ⟨text', hc, hworld, hout⟩ | ⟨i, o, task, p, hc, -, -, -, -⟩
          · cases hc
            refine Or.inl ⟨text, rfl, hout, ?_⟩
            rw [← hworld]
            rfl
          · cases hc
      | run i now env =>
          rcases shellStep_cases b.svc hshell with
            ⟨text', hc, -, -⟩ | ⟨j, o, task, p, hc, ht, hp, hworld, hout⟩
          · cases hc
          · cases hc
            refine Or.inr ⟨i, now, env, task, p, rfl, ht, hp, hout, ?_⟩
            rw [← hworld]
            rfl

/-- The answer of an interviewer call that a task makes. -/
theorem answer_of_call {i : Nat} {now : Instant} {env : TurnEnv} {d : Drive} {mark : Nat}
    {command : Command} {commands : List Command} {followUps : List Event} {call : RunInterviewer}
    (ht : s.world.tasks[i]? = some (.execute d mark (command :: commands) followUps))
    (hcall : command.call? = some call) :
    s.answer b i now env = (⟨now, (callInterviewer b d.working call env s.books).1, .raised⟩,
      (callInterviewer b d.working call env s.books).2) := by
  have hc : s.call? (.run i now env) = some (.interviewer d.working call) := by
    rw [Booked.call?, ht, Option.bind_some, ShellTask.agentCall?, hcall]
    rfl
  rw [Booked.answer, hc]
  rfl

end Steps

section SmallBooks

theorem version_ne : "gemini-2.5-flash-001" ≠ "" := by decide

/-- A text that a backend returns at once. -/
def smallReply (text : String) : RawBackendResult :=
  ⟨text, 1000, 2000, "gemini-2.5-flash", "gemini-2.5-flash-001", flash_ne, version_ne⟩

/-- An attempt whose calls all end alike, with nobody else around. -/
def smallAttempt (reply : Reply) (up : Bool) : CallEnv where
  backend := .ok ⟨fun _ _ => reply, fun _ => false⟩
  latencyMs := 800
  traceId := ⟨1⟩
  createdAt := 0
  up := up
  arriving_nonneg := fun _ hr => absurd hr List.not_mem_nil

/-- A backend that returns a text at both attempts, and one that does not answer. -/
def replying (text : String) (up : Bool) : CallEnv := smallAttempt (.result (smallReply text)) up

def hanging (up : Bool) : CallEnv := smallAttempt .timeout up

theorem replying_candid (text : String) (up : Bool) : (replying text up).Candid := by
  intro backend hbackend call n message h
  cases hbackend
  cases h

/-- A turn with the same environment around both attempts. -/
def smallTurnEnv (attempt : CallEnv) : TurnEnv where
  first := attempt
  second := attempt
  waiting_nonneg := fun _ hr => absurd hr List.not_mem_nil

/-- What the interviewer is to return. -/
def smallQuestion : Fields :=
  [("utterance", .str "Joins?"), ("internal_move_executed", .str "ask_seed")]

def smallQuestionText : String :=
  "\x7b\"utterance\": \"Joins?\", \"internal_move_executed\": \"ask_seed\"\x7d"

/-- A runtime whose parser knows that text too. -/
def questionRuntime : Runtime :=
  { smallRuntime with
    loads := fun text =>
      if text = smallQuestionText then .value (.obj smallQuestion) else smallRuntime.loads text }

/-- The agents with their contracts and their output models. -/
def smallAgents : Agents where
  runtime := questionRuntime
  settings := ⟨5 / 10000⟩
  interviewer := ⟨"v0001", "Ask the next question.", Agents.interviewerSchema, fun _ => "{}",
    fun parsed =>
      parsed.bind (fun doc => @InterviewerOutput.modelValidate Scalars.strict (.obj doc))⟩
  assessor := ⟨"v0003", "Score the answer.", Agents.assessorSchema, fun _ => "{}",
    fun parsed => parsed.bind (fun doc => @AssessorOutput.modelValidate Scalars.strict (.obj doc))⟩

/-- The small interview, with a ceiling that one answer exceeds. -/
def smallBooked : BookedService := ⟨smallService, smallAgents, 5 / 10000⟩

/-- A task takes a number of steps, with the same environment around its calls. -/
def bookedSteps (steps task : Nat) (env : TurnEnv) : List BookedChoice :=
  List.replicate steps (.run task 1000000 env)

abbrev SmallBooked : List (Taken Booked BookedChoice Effect) → Booked → Prop :=
  Run (@bookedStep Scalars.strict smallBooked) (opening smallBooked smallInput 0)

abbrev smallBookedRecord (cs : List BookedChoice) :
    Except Blocked (List (Taken Booked BookedChoice Effect) × Booked) :=
  record (@bookedStep Scalars.strict smallBooked) (opening smallBooked smallInput 0) cs

end SmallBooks

end TechScreen
