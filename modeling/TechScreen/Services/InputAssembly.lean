import TechScreen.Agents.PayloadSize
import TechScreen.Services.BookedShell
import TechScreen.Services.NodeIds
import TechScreen.Services.PriorTurns

/-!
# The Requests of the Shell

Whether the requests that the shell builds for its agents satisfy their models. The
inputs always do. The request does not when the payload is longer than a request may
carry, and then nothing is caught: the transition has been persisted, the call is
outstanding, and every further try fails as well.

The shell looks at no length. What it takes is a bound on the plan and on the turns of
the stored row together, in the characters that they are written with.

## Main definitions

* `BookedService.Pinned`: The agents have the prompts and the payloads of the service.
* `AgentCall.Assembles`: The request of a call can be built.
* `Unwedged`: Every call that is due can be made.
* `Roomy`: What is stored fits into a request.

## Theorems

* `assembles_interviewer_iff`, `assembles_assessor_iff`: When a call can be made.
* `tasks_assembling`: What is due was stored.
* `unwedged_iff_roomy`: When no session is wedged.
* `long_plan_wedges`: A plan whose first question is never asked.
-/

namespace TechScreen

open Lib Lib.JsonText Llm Agents

section Assembly

/-- The agents have prompts that fit a request, and are sent what the wrappers write. What
    the assessor is sent takes three levels below the recursion limit. -/
structure BookedService.Pinned (b : BookedService) (repr : ℚ → Literal) : Prop where
  interviewerPrompt : 1 ≤ b.agents.interviewer.systemPrompt.length ∧
    b.agents.interviewer.systemPrompt.length ≤ 64000
  assessorPrompt : 1 ≤ b.agents.assessor.systemPrompt.length ∧
    b.agents.assessor.systemPrompt.length ≤ 64000
  interviewerPayload : ∀ inputs,
    b.agents.interviewer.userPayload inputs = serializeUserPayload repr inputs
  assessorPayload : ∀ inputs h room, 3 ≤ room →
    (ofShell inputs h).toUserPayload room = .ok (b.agents.assessor.userPayload inputs)

variable [Scalars] (b : BookedService)

/-- The inputs of an agent call satisfy their model. -/
def AgentCall.Valid : AgentCall → Prop
  | .interviewer w command => (interviewerInputs b.svc w command).recentTurns.length ≤ 8 ∧
      ∀ turn ∈ (interviewerInputs b.svc w command).recentTurns, turn.2 ≠ ""
  | .assessor _ inputs => inputs.competencyFocus ≠ ""

/-- The request of an agent call. -/
def AgentCall.request : AgentCall → Except Unexpected ModelCallRequest
  | .interviewer w command => turnRequest b.agents.interviewer ⟨"interviewer", interviewer_ne⟩
      b.svc.sessionId (interviewerInputs b.svc w command)
  | .assessor _ inputs => turnRequest b.agents.assessor ⟨"assessor", assessor_ne⟩
      b.svc.sessionId inputs

/-- An agent call can be made: its inputs and its request satisfy their models. -/
def AgentCall.Assembles (call : AgentCall) : Prop :=
  call.Valid b ∧ ∃ request, call.request b = .ok request

/-- Every agent call that the next step of a task makes can be made, and so can the one
    that the stored session waits for. -/
structure Unwedged (w : World) : Prop where
  calls : ∀ task ∈ w.tasks, ∀ call, task.agentCall? = some call → call.Assembles b
  pending : ∀ c, w.row.state.pendingCommand = some (.runInterviewer c) →
    (AgentCall.interviewer w.row c).Assembles b

/-- The stored session fits into the request that it waits for. -/
def RoomyRow (repr : ℚ → Literal) (row : Working) : Prop :=
  ∀ c, row.state.pendingCommand = some (.runInterviewer c) →
    interviewerSize repr (interviewerInputs b.svc row c) ≤ 200000

/-- The stored session and every answer that is to be assessed fit into a request. -/
structure Roomy (repr : ℚ → Literal) (w : World) : Prop where
  row : RoomyRow b repr w.row
  answers : ∀ command inputs, .assess command inputs ∈ w.tasks → assessorSize inputs ≤ 200000

end Assembly

section Requests
variable [Scalars] {b : BookedService} {repr : ℚ → Literal}

omit [Scalars] in
/-- A request is built exactly when its payload has a length that one may have. -/
theorem turnRequest_iff {ι α : Type} {texts : AgentTexts ι α}
    {agent : {agent : String // agent ≠ ""}} {sessionId : Uuid} {inputs : ι}
    (hprompt : 1 ≤ texts.systemPrompt.length ∧ texts.systemPrompt.length ≤ 64000) :
    (∃ request, turnRequest texts agent sessionId inputs = .ok request) ↔
      1 ≤ (texts.userPayload inputs).length ∧ (texts.userPayload inputs).length ≤ 200000 := by
  constructor
  · rintro ⟨request, h⟩
    by_contra hlength
    rw [turnRequest, dif_neg (fun hboth => hlength hboth.2)] at h
    cases h
  · intro hlength
    rw [turnRequest, dif_pos ⟨hprompt, hlength⟩]
    exact ⟨_, rfl⟩

omit [Scalars] in
/-- The turns that the interviewer is shown are at most eight, and none is empty. -/
theorem recentTurns_valid (transcript : List TranscriptEntry) :
    (recentTurns transcript).length ≤ 8 ∧ ∀ turn ∈ recentTurns transcript, turn.2 ≠ "" := by
  constructor
  · rw [recentTurns, List.length_map, lastN_length]
    exact Nat.min_le_left _ _
  · intro turn hturn
    obtain ⟨entry, hentry, rfl⟩ := List.mem_map.mp hturn
    exact of_decide_eq_true (List.mem_filter.mp (List.mem_of_mem_drop hentry)).2

/-- An interviewer call can be made exactly when its inputs fit. -/
theorem assembles_interviewer_iff (hb : b.Pinned repr) (w : Working) (c : RunInterviewer) :
    (AgentCall.interviewer w c).Assembles b ↔
      interviewerSize repr (interviewerInputs b.svc w c) ≤ 200000 := by
  have hvalid : (AgentCall.interviewer w c).Valid b := recentTurns_valid w.transcript
  have hsize := length_serializeUserPayload repr (interviewerInputs b.svc w c)
  rw [← hb.interviewerPayload] at hsize
  have hpos : 1 ≤ interviewerSize repr (interviewerInputs b.svc w c) := by
    rw [interviewerSize]
    omega
  have hrequest : (∃ request, (AgentCall.interviewer w c).request b = .ok request) ↔ _ :=
    turnRequest_iff hb.interviewerPrompt
  rw [hsize] at hrequest
  exact ⟨fun h => (hrequest.mp h.2).2, fun h => ⟨hvalid, hrequest.mpr ⟨hpos, h⟩⟩⟩

/-- An assessor call for a competency can be made exactly when its inputs fit. -/
theorem assembles_assessor_iff (hb : b.Pinned repr) (c : RunAssessor) (inputs : AssessorTurnInput)
    (hfocus : inputs.competencyFocus ≠ "") :
    (AgentCall.assessor c inputs).Assembles b ↔ assessorSize inputs ≤ 200000 := by
  have hsize := length_toUserPayload inputs hfocus (le_refl 3)
    (hb.assessorPayload inputs hfocus 3 (le_refl 3))
  have hpos : 1 ≤ assessorSize inputs := by
    rw [assessorSize]
    omega
  have hrequest : (∃ request, (AgentCall.assessor c inputs).request b = .ok request) ↔ _ :=
    turnRequest_iff hb.assessorPrompt
  rw [hsize] at hrequest
  exact ⟨fun h => (hrequest.mp h.2).2, fun h => ⟨hfocus, hrequest.mpr ⟨hpos, h⟩⟩⟩

end Requests

section Tasks
variable [Scalars] {b : BookedService} {repr : ℚ → Literal}

/-- What is known of a task while every row that is stored is roomy: an interviewer call
    that is still to be stored will be the outstanding one, one that has been stored
    fits, and an assessor call names a competency. -/
def ShellTask.Assembling (b : BookedService) (repr : ℚ → Literal) : ShellTask → Prop
  | .assess _ inputs => inputs.competencyFocus ≠ ""
  | .persist d _ commands =>
      (∀ k ∈ commands, ∀ c, k.call? = some c →
        d.working.state.pendingCommand = some (.runInterviewer c)) ∧
      ∀ c, .runAssessor c ∈ commands → c.competencyFocus ≠ ""
  | .execute d _ commands _ =>
      (∀ k ∈ commands, ∀ c, k.call? = some c →
        interviewerSize repr (interviewerInputs b.svc d.working c) ≤ 200000) ∧
      ∀ c, .runAssessor c ∈ commands → c.competencyFocus ≠ ""
  | _ => True

/-- An assessor call is for a competency of the plan, which has a name. -/
theorem focus_ne_of_edge {cfg : OrchestratorConfig} {s s' : SessionState} {e : Event}
    {out : List Command} (hedge : Edge cfg s e s' out) {c : RunAssessor}
    (h : Command.runAssessor c ∈ out) : c.competencyFocus ≠ "" := by
  have hmem : (c.turnId, c.competencyFocus) ∈ scheduled out := mem_scheduled.mpr h
  obtain ⟨-, q, -, -, hnode⟩ := focus_of_edge hedge hmem
  rw [← hnode]
  exact q.nodeId.property

theorem taskStep_assembling {row : Working} {o : Oracle} {task : ShellTask} {p : Progress}
    (hquiet : task.Quiet b.svc) (h : task.Assembling b repr) (hroomy : RoomyRow b repr p.row)
    (hp : taskStep b.svc row o task = some p) :
    p.task.Assembling b repr ∧ ∀ t ∈ p.spawned, t.Assembling b repr := by
  have hnone : ∀ t ∈ ([] : List ShellTask), t.Assembling b repr :=
    fun t ht => absurd ht List.not_mem_nil
  cases move_of_taskStep b.svc hp with
  | crashed | assessed | loaded | admitted | refused | posted | drained | overran | stuck
  | spoken | unspoken | raised | saved => exact ⟨trivial, hnone⟩
  | applied d e queue r hqueue hsteps hr =>
      have hedge := edge_of_transition hr
      exact ⟨⟨fun k hk c hc => pending_of_call hedge hk hc, fun c hc => focus_ne_of_edge hedge hc⟩,
        hnone⟩
  | persisted d e commands =>
      -- The copy is the stored row now, and that fits.
      exact ⟨⟨fun k hk c hc => hroomy c (h.1 k hk c hc), h.2⟩, hnone⟩
  | executed d mark command commands followUps q hone =>
      obtain ⟨hentries, -, hspawned⟩ := executeOne_ok b.svc hone
      refine ⟨⟨fun k hk c hc => ?_, fun c hc => h.2 c (List.mem_cons_of_mem _ hc)⟩,
        fun t ht => ?_⟩
      · -- Where a call is left nothing is said, so the copy is as it was stored.
        rcases hquiet.2.2 with hcalls | ⟨-, hsay⟩
        · rw [hcalls k (List.mem_cons_of_mem _ hk)] at hc
          cases hc
        · have hnil : q.entries = [] := by
            rw [hentries]
            exact hsay command List.mem_cons_self d.working.state
          have hsame : d.working.append q.entries = d.working := by
            rw [hnil, Working.append, List.append_nil]
          rw [hsame]
          exact h.1 k (List.mem_cons_of_mem _ hk) c hc
      · obtain ⟨c, rfl, rfl⟩ := hspawned t ht
        exact h.2 c List.mem_cons_self

/-- While every row that is stored is roomy, what is due was stored. -/
theorem tasks_assembling {planInput : Dict String Json} {start : Instant}
    {ts : List (Taken World Choice Effect)} {w : World}
    (h : Run (shellStep b.svc) (created b.svc planInput start) ts w)
    (hroomy : ∀ t ∈ ts, RoomyRow b repr t.after.row) :
    ∀ task ∈ w.tasks, task.Quiet b.svc ∧ task.Assembling b repr := by
  induction h with
  | nil =>
      intro task htask
      rw [created, List.mem_singleton] at htask
      rw [htask]
      exact ⟨fun e he => absurd he List.not_mem_nil, trivial⟩
  | snoc ts a s c out hrun hab ih =>
      have hold := ih (fun t ht => hroomy t (List.mem_append_left _ ht))
      have hnew : RoomyRow b repr s.row :=
        hroomy ⟨a, c, s, out⟩ (List.mem_append_right _ (List.mem_singleton_self _))
      rcases shellStep_cases b.svc hab with
        ⟨text, _, rfl, _⟩ | ⟨i, o, task, p, _, ht, hp, rfl, _⟩
      · exact forall_tasks_posted hold ⟨trivial, trivial⟩
      · obtain ⟨hquiet, hassembling⟩ := hold task (List.mem_of_getElem? ht)
        obtain ⟨hquiet', hspawned⟩ := taskStep_quiet b.svc hquiet hp
        obtain ⟨hassembling', hspawned'⟩ := taskStep_assembling hquiet hassembling hnew hp
        exact forall_tasks_moved hold ⟨hquiet', hassembling'⟩
          (fun t htask => ⟨hspawned t htask, hspawned' t htask⟩)

end Tasks

section Runs
variable [Scalars] {b : BookedService} {repr : ℚ → Literal}

omit [Scalars] in
/-- An agent call is the assessment of an answer, or the first of the commands that are
    being executed. -/
theorem call_cases {task : ShellTask} {call : AgentCall} (h : task.agentCall? = some call) :
    (∃ c inputs, task = .assess c inputs ∧ call = .assessor c inputs) ∨
    ∃ d mark k commands followUps c, task = .execute d mark (k :: commands) followUps ∧
      k.call? = some c ∧ call = .interviewer d.working c := by
  cases task with
  | assess c inputs =>
      cases h
      exact Or.inl ⟨c, inputs, rfl, rfl⟩
  | execute d mark commands followUps =>
      cases commands with
      | nil => cases h
      | cons k commands =>
          obtain ⟨c, hcall, rfl⟩ := Option.map_eq_some_iff.mp h
          exact Or.inr ⟨d, mark, k, commands, followUps, c, rfl, hcall, rfl⟩
  | _ => cases h

/-- In a run whose rows and answers all fit, every call can be made that is due at its
    end. -/
theorem unwedged_of_roomy (hb : b.Pinned repr) {planInput : Dict String Json} {start : Instant}
    {ts : List (Taken Booked BookedChoice Effect)} {s : Booked}
    (h : Run (bookedStep b) (opening b planInput start) ts s)
    (hroomy : ∀ t ∈ ts, Roomy b repr t.after.world) (hend : Roomy b repr s.world) :
    Unwedged b s.world := by
  have hrows : ∀ t ∈ ts.map (shown b), RoomyRow b repr t.after.row := by
    intro t ht
    obtain ⟨t', ht', rfl⟩ := List.mem_map.mp ht
    exact (hroomy t' ht').row
  have htasks := tasks_assembling (shell_of_booked b h) hrows
  constructor
  · intro task htask call hcall
    have hassembling := (htasks task htask).2
    rcases call_cases hcall with
      ⟨c, inputs, rfl, rfl⟩ | ⟨d, mark, k, commands, followUps, c, rfl, hk, rfl⟩
    · exact (assembles_assessor_iff hb c inputs hassembling).mpr (hend.answers c inputs htask)
    · exact (assembles_interviewer_iff hb d.working c).mpr
        (hassembling.1 k List.mem_cons_self c hk)
  · exact fun c hc => (assembles_interviewer_iff hb s.world.row c).mpr (hend.row c hc)

/-- Where every call can be made that is due, what is stored fits. -/
theorem roomy_of_unwedged (hb : b.Pinned repr) {w : World} (h : Unwedged b w) :
    Roomy b repr w where
  row c hc := (assembles_interviewer_iff hb w.row c).mp (h.pending c hc)
  answers c inputs htask := by
    have hcall := h.calls _ htask _ rfl
    exact (assembles_assessor_iff hb c inputs hcall.1).mp hcall

/-- A run never wedges the session, and every request in it can be built, exactly when all
    that it stores fits into one. -/
theorem unwedged_iff_roomy (hb : b.Pinned repr) {planInput : Dict String Json} {start : Instant}
    {ts : List (Taken Booked BookedChoice Effect)} {s : Booked}
    (h : Run (bookedStep b) (opening b planInput start) ts s) :
    (∀ t ∈ ts, Unwedged b t.after.world) ↔ ∀ t ∈ ts, Roomy b repr t.after.world := by
  constructor
  · exact fun hall t ht => roomy_of_unwedged hb (hall t ht)
  · intro hall t ht
    obtain ⟨us, vs, hsplit⟩ := List.append_of_mem ht
    obtain ⟨hbefore, hstep⟩ := h.split us t vs hsplit
    refine unwedged_of_roomy hb (hbefore.snoc us t.before t.after t.event t.out hstep)
      (fun u hu => ?_) (hall t ht)
    rcases List.mem_append.mp hu with hu | hu
    · exact hall u (hsplit ▸ List.mem_append_left _ hu)
    · rw [List.mem_singleton.mp hu]
      exact hall t ht

end Runs

section SmallAssembly

theorem isNumber_zero : isNumber "0.0".toList = true := by decide

/-- The inputs of the small interview have no floats. -/
def smallRepr (_ : ℚ) : Literal := ⟨"0.0".toList, isNumber_zero⟩

/-- The small interview, whose agents are sent what the wrappers write. -/
def pinnedBooked : BookedService where
  svc := smallService
  agents := { smallAgents with
    interviewer := { smallAgents.interviewer with userPayload := serializeUserPayload smallRepr }
    assessor := { smallAgents.assessor with
      userPayload := fun inputs => String.ofList (assessorTree inputs).render } }
  ceiling := 5 / 10000

theorem pinned_pinnedBooked : pinnedBooked.Pinned smallRepr where
  interviewerPrompt := by decide
  assessorPrompt := by decide
  interviewerPayload _ := rfl
  assessorPayload inputs h room hroom := by
    rw [AssessorTurnInput.toUserPayload, Dumps.dumps, encode_shell inputs h hroom]
    rfl

abbrev PinnedRun (planInput : Dict String Json) :
    List (Taken Booked BookedChoice Effect) → Booked → Prop :=
  Run (@bookedStep Scalars.strict pinnedBooked) (opening pinnedBooked planInput 0)

/-- Checking that what is stored fits. -/
def roomyCheck (w : World) : Bool :=
  (match w.row.state.pendingCommand with
    | some (.runInterviewer c) => decide (interviewerSize smallRepr
        (@interviewerInputs pinnedBooked.svc Scalars.strict w.row c) ≤ 200000)
    | _ => true) &&
  w.tasks.all (fun
    | .assess _ inputs => decide (assessorSize inputs ≤ 200000)
    | _ => true)

theorem roomy_of_check {w : World} (h : roomyCheck w = true) :
    @Roomy Scalars.strict pinnedBooked smallRepr w := by
  obtain ⟨hrow, htasks⟩ := Bool.and_eq_true_iff.mp h
  refine @Roomy.mk Scalars.strict _ _ _ ?_ ?_
  · intro c hc
    rw [hc] at hrow
    simpa only [decide_eq_true_eq] using hrow
  · intro command inputs htask
    simpa only [decide_eq_true_eq] using List.all_eq_true.mp htasks _ htask

/-- The creation of a session, and its first candidate turn until the first question is
    due. -/
def smallAsking : List BookedChoice :=
  bookedSteps 7 0 (smallTurnEnv (replying smallQuestionText true)) ++ .post "ready" ::
    bookedSteps 4 1 (smallTurnEnv (replying smallQuestionText true))

theorem unwedged_small : ∃ ts s, PinnedRun smallInput ts s ∧
    s.world.tasks.any (fun task => task.agentCall?.isSome) = true ∧
    ∀ t ∈ ts, @Unwedged Scalars.strict pinnedBooked t.after.world := by
  have hrec : (record (@bookedStep Scalars.strict pinnedBooked)
      (opening pinnedBooked smallInput 0) smallAsking).map (fun r =>
        (r.2.world.tasks.any (fun task => task.agentCall?.isSome),
          r.1.all (fun t => roomyCheck t.after.world)))
      = .ok (true, true) := by decide +kernel
  rcases exists_run_of_record _ _ _ _ _ hrec with ⟨ts, s, hrun, hproj⟩
  simp only [Prod.mk.injEq] at hproj
  refine ⟨ts, s, hrun, hproj.1, ?_⟩
  exact (@unwedged_iff_roomy Scalars.strict pinnedBooked smallRepr pinned_pinnedBooked smallInput 0
    ts s hrun).mpr (fun t ht => roomy_of_check (List.all_eq_true.mp hproj.2 t ht))

variable (label : NonEmptyStr)

/-- A competency like those of the small plan, with a name of its own. -/
def labelled : PlannedCompetency := { smallPlan.firstCompetency with labelUk := label }

theorem labelled_ne : [labelled label] ≠ [] := List.cons_ne_nil _ _

/-- The small plan, with one competency. -/
def labelledPlan : PlanSnapshot :=
  { smallPlan with competencies := [labelled label], competencies_ne := labelled_ne label }

theorem labelledKeys_nodup :
    ["plan_version", "competencies", "qa_minutes", "session_max_minutes"].Nodup := by decide

def labelledInput : Dict String Json :=
  ⟨[("plan_version", .int smallPlan.planVersion),
    ("competencies", .arr [@PlannedCompetency.dump Scalars.strict (labelled label)]),
    ("qa_minutes", .int smallPlan.qaMinutes),
    ("session_max_minutes", .int smallPlan.sessionMaxMinutes)], labelledKeys_nodup⟩

theorem labelledPlan_accepted :
    @PlanSnapshot.validatePlan Scalars.strict (.obj (labelledInput label).entries) =
      .ok (labelledPlan label) := by
  have hread := @PlanSnapshot.modelValidate_planPayload Scalars.strict (labelledPlan label)
  have hdoc : Json.obj (labelledInput label).entries =
      @PlanSnapshot.planPayload Scalars.strict (labelledPlan label) := rfl
  unfold PlanSnapshot.validatePlan
  dsimp only
  rw [hdoc, hread]

/-- What the task of the creation holds when the session has been opened. -/
def labelledOpened : Drive :=
  ⟨⟨opened (initialState smallId (labelledInput label) .committed) (labelledPlan label) 0, []⟩,
    [], 1⟩

def openingCommands : List Command :=
  [.emitScriptedOpening { turnId := deriveTurnId smallId (turnPath 0) }, .persistState]

def labelledStarted : Booked :=
  ⟨⟨(created smallService (labelledInput label) 0).row, [],
    [.persist (labelledOpened label) (.sessionStarted 0) openingCommands]⟩, {}⟩

theorem labelled_opened :
    @transition Scalars.strict (initialState smallId (labelledInput label) .committed)
      (.sessionStarted 0) .committed =
        .ok ⟨(labelledOpened label).working.state, openingCommands⟩ := by
  have hlive : Phase.created ∉ terminalPhases := by decide
  have hplan : @PlanSnapshot.validatePlan Scalars.strict
      (.obj (initialState smallId (labelledInput label) .committed).planInput.entries) =
        .ok (labelledPlan label) := labelledPlan_accepted label
  unfold transition
  rw [if_neg (show (initialState smallId _ _).phase ∉ terminalPhases from hlive)]
  change Except.ok (@onSessionStarted Scalars.strict _ 0) = _
  unfold onSessionStarted
  rw [hplan]
  rfl

/-- The loop goes on with an event that the machine takes. -/
theorem nextEvent_ok [Scalars] {svc : DevSession} {d : Drive} {e : Event} {queue : List Event}
    {r : TransitionResult} (hqueue : d.queue = e :: queue) (hsteps : ¬ d.steps + 1 > maxDriveSteps)
    (hr : transition d.working.state e svc.config = .ok r) :
    nextEvent svc d =
      .persist ⟨{ d.working with state := r.newState }, queue, d.steps + 1⟩ e r.commands := by
  rw [nextEvent, hqueue]
  simp only [hr]
  rw [if_neg hsteps]

theorem labelled_start (env : TurnEnv) : @bookedStep Scalars.strict pinnedBooked
    (opening pinnedBooked (labelledInput label) 0) (.run 0 0 env) =
      .ok (labelledStarted label, []) := by
  have hnext : @nextEvent smallService Scalars.strict
      ⟨(created smallService (labelledInput label) 0).row, [.sessionStarted 0], 0⟩ =
        .persist (labelledOpened label) (.sessionStarted 0) openingCommands := by
    have hsteps : ¬ 0 + 1 > maxDriveSteps := by decide
    exact @nextEvent_ok Scalars.strict smallService
      ⟨(created smallService (labelledInput label) 0).row, [.sessionStarted 0], 0⟩ _ _ _ rfl hsteps
      (labelled_opened label)
  rw [labelledStarted, ← hnext]
  rfl

/-- The rest of the creation, and the first candidate turn until it is stored. -/
def labelledRest : List BookedChoice :=
  bookedSteps 6 0 (smallTurnEnv (replying smallQuestionText true)) ++ .post "ready" ::
    bookedSteps 4 1 (smallTurnEnv (replying smallQuestionText true))

/-- The label of the plan is in what the interviewer is sent. -/
theorem label_le_size (w : Working) (c : RunInterviewer)
    (hplan : w.state.plan = some (labelledPlan label)) : label.val.length ≤
      interviewerSize smallRepr (@interviewerInputs pinnedBooked.svc Scalars.strict w c) := by
  have hlabel : label.val.length ≤ (Tree.str label.val.toList).size := by
    rw [Tree.size, ← String.length_toList]
    exact length_le_quotedSize _
  have hcompetency : (Tree.str label.val.toList).size ≤
      (treeOf smallRepr (@PlannedCompetency.dump Scalars.strict (labelled label))).size :=
    size_le_obj (m := ("label_uk".toList, .str label.val.toList))
      (List.mem_cons_of_mem _ List.mem_cons_self)
  have hcompetencies := size_le_arr (List.mem_singleton_self
    (treeOf smallRepr (@PlannedCompetency.dump Scalars.strict (labelled label))))
  have hplan' : (Tree.arr [treeOf smallRepr
        (@PlannedCompetency.dump Scalars.strict (labelled label))]).size ≤
      (treeOf smallRepr (@PlanSnapshot.planPayload Scalars.strict (labelledPlan label))).size :=
    size_le_obj (m := ("competencies".toList, .arr [treeOf smallRepr
      (@PlannedCompetency.dump Scalars.strict (labelled label))]))
      (List.mem_cons_of_mem _ List.mem_cons_self)
  rw [interviewerSize, interviewerInputs, hplan]
  dsimp only
  omega

theorem longLabel_ne : String.ofList (List.replicate 200001 'a') ≠ "" := by
  intro h
  have hlength := congrArg String.length h
  rw [String.length_ofList, List.length_replicate] at hlength
  cases hlength

/-- A label that is longer than a request may be. -/
def longLabel : NonEmptyStr := ⟨String.ofList (List.replicate 200001 'a'), longLabel_ne⟩

theorem longLabel_length : longLabel.val.length = 200001 := by
  change (String.ofList (List.replicate 200001 'a')).length = 200001
  rw [String.length_ofList, List.length_replicate]

/-- A request of a candidate that the interface accepts. -/
def BookedChoice.accepted : BookedChoice → Bool
  | .post text => decide (1 ≤ text.length ∧ text.length ≤ 8000)
  | .run _ _ _ => true

/-- A plan is accepted whose first question is asked for and can never be asked. -/
theorem long_plan_wedges : pinnedBooked.Pinned smallRepr ∧
    (@PlanSnapshot.validatePlan Scalars.strict (.obj (labelledInput longLabel).entries)).isOk ∧
    ∃ ts s, PinnedRun (labelledInput longLabel) ts s ∧
      (∀ t ∈ ts, t.event.accepted = true) ∧ s.world.row.state.awaiting = some .interviewer ∧
      ¬ @Unwedged Scalars.strict pinnedBooked s.world := by
  refine ⟨pinned_pinnedBooked, by rw [labelledPlan_accepted]; rfl, ?_⟩
  have hrec : (record (@bookedStep Scalars.strict pinnedBooked) (labelledStarted longLabel)
      labelledRest).map (fun r => (r.2.world.row.state.awaiting,
        r.2.world.row.state.pendingCommand.any
          (fun c => (Command.reissuePendingCommand c).call?.isSome),
        r.2.world.row.state.plan.isSome, r.1.all (fun t => t.event.accepted))) =
      .ok (some .interviewer, true, true, true) := by decide +kernel
  rcases exists_run_of_record _ _ _ _ _ hrec with ⟨ts, s, hrest, hproj⟩
  simp only [Prod.mk.injEq] at hproj
  obtain ⟨hawaiting, hpending, hplan, haccepted⟩ := hproj
  have hrun := Run.cons
    (labelled_start longLabel (smallTurnEnv (replying smallQuestionText true))) hrest
  refine ⟨_, s, hrun, List.forall_mem_cons.mpr ⟨rfl, List.all_eq_true.mp haccepted⟩, hawaiting,
    fun hunwedged => ?_⟩
  -- The stored plan is the one that was accepted, and it is in every request.
  obtain ⟨ms, hms⟩ := @stored_state_reachable Scalars.strict smallService _ _ _ _
    (@shell_of_booked Scalars.strict pinnedBooked _ _ _ hrun)
  obtain ⟨p, hp⟩ := Option.isSome_iff_exists.mp hplan
  have hlabelled : p = labelledPlan longLabel :=
    @SessionRun.plan_eq Scalars.strict _ _ _ _ _ _ (labelledPlan_accepted longLabel) hms p hp
  rw [hlabelled] at hp
  cases hc : s.world.row.state.pendingCommand with
  | none =>
      rw [hc] at hpending
      cases hpending
  | some command =>
      cases command with
      | runInterviewer c =>
          have hfits := (@assembles_interviewer_iff Scalars.strict pinnedBooked smallRepr
            pinned_pinnedBooked s.world.row c).mp
              (@Unwedged.pending Scalars.strict _ _ hunwedged c hc)
          have hlong := label_le_size longLabel s.world.row c hp
          rw [longLabel_length] at hlong
          omega
      | emitScriptedOpening | emitScriptedClosing | deliverUtterance =>
          rw [hc] at hpending
          cases hpending

end SmallAssembly

end TechScreen
