import TechScreen.Services.Obligations

/-!
# Crashes and Recovery

A crash takes all tasks away and leaves the rows of the database. Recovery loads
the session row and drives `Reconnected`, which makes the machine repeat the one
outbound command that its state remembers.

That brings back every utterance and every interviewer call. It brings back
neither an assessment, which lives in the memory of the process once it has been
scheduled, nor the decision of a session that is terminal before it was
recorded: these two are never made up for, whatever happens afterwards.

## Main definitions

* `recovering`: The service that comes back after a crash.
* `Recovers`: No effect of a persisted transition stays undone.

## Theorems

* `assess_of_recovering`: Later assessments are for later candidate turns.
* `decisions_of_terminal`: A terminal session records nothing more.
* `crash_consistency`: When a crash can be recovered from.
* `crash_loses_assessment`: A crash that cannot.
-/

namespace TechScreen

open Lib

section Definitions
variable (svc : DevSession)

/-- After a crash only the rows are left; recovery loads the session row and
    drives `Reconnected`. -/
def recovering (w : World) (now : Instant) : World :=
  { w with tasks := [.load (.feed (.reconnected now))] }

/-- The recovery goes on by itself, with agent calls that end as they may. -/
def alone (may : Oracle → Prop) (c : Choice) : Prop := ∃ o, c = .run 0 o ∧ may o

/-- No effect of a persisted transition stays undone after a crash. A pending
    assessment is scheduled again in some continuation, for the turn that it was
    for; a decision that was asked for is recorded in some continuation; a
    delivered utterance gets into the stored transcript by the recovery itself,
    whatever the agents do; and so does an outstanding interviewer call get
    made, as long as the cost guard lets it through. -/
structure Recovers [Scalars] (outs : List Effect) (w : World) (now : Instant) : Prop where
  assessments : ∀ c, .runAssessor c ∈ requested outs →
    c.turnId ∈ w.row.state.tech.pendingAssessments →
    ∃ ts w' inputs, Run (shellStep svc) (recovering w now) ts w' ∧
      (∀ text now', .candidateTurnReceived c.turnId text now' ∉ accepted (outputs ts)) ∧
      .assess c inputs ∈ w'.tasks
  decisions : ∀ c, .recordDecision c ∈ requested outs →
    ∃ ts w', Run (shellStep svc) (recovering w now) ts w' ∧
      recordedReason w.row.state c ∈ w'.decisions
  utterances : ∀ c, .deliverUtterance c ∈ requested outs →
    Inevitable (shellStep svc) (alone (fun _ => True))
      (fun _ w' => ⟨.interviewer, c.utterance, some c.turnId⟩ ∈ w'.row.transcript) []
      (recovering w now)
  calls : ∀ c, w.row.state.pendingCommand = some (.runInterviewer c) →
    Inevitable (shellStep svc) (alone (fun o => o.interviewer.called = true))
      (fun outs _ => ∃ inputs, .interviewerCalled c inputs ∈ outs) [] (recovering w now)

end Definitions

section Lost
variable [Scalars] (svc : DevSession) {w w' : World} {now : Instant}
  {ts : List (Taken World Choice Effect)}

/-- The assessments that a task is about to make or to schedule are for certain
    turns. -/
def ShellTask.AssessesOnly (turns : Uuid → Prop) : ShellTask → Prop
  | .assess c _ => turns c.turnId
  | .persist _ e commands => ∀ c, .runAssessor c ∈ commands →
      ∃ text now, e = .candidateTurnReceived c.turnId text now
  | .execute _ _ commands _ => ∀ c, .runAssessor c ∈ commands → turns c.turnId
  | _ => True

omit [Scalars] in
theorem ShellTask.AssessesOnly.mono {turns turns' : Uuid → Prop} {task : ShellTask}
    (h : task.AssessesOnly turns) (hmono : ∀ turn, turns turn → turns' turn) :
    task.AssessesOnly turns' := by
  cases task with
  | assess c inputs => exact hmono _ h
  | execute d mark commands followUps => exact fun c hc => hmono _ (h c hc)
  | persist d e commands => exact h
  | _ => exact trivial

/-- The turns of the accepted candidate turns. -/
def turnsOf (outs : List Effect) (turn : Uuid) : Prop :=
  ∃ text now, .candidateTurnReceived turn text now ∈ accepted outs

omit [Scalars] in
theorem turnsOf_append (xs ys : List Effect) (turn : Uuid) :
    turnsOf (xs ++ ys) turn ↔ turnsOf xs turn ∨ turnsOf ys turn := by
  simp only [turnsOf, accepted_append, List.mem_append, exists_or]

/-- A step of a task schedules assessments of accepted turns only. -/
theorem taskStep_assesses {row : Working} {o : Oracle} {task : ShellTask} {p : Progress}
    {outs : List Effect} (hold : task.AssessesOnly (turnsOf outs))
    (h : taskStep svc row o task = some p) :
    p.task.AssessesOnly (turnsOf (outs ++ p.effects)) ∧
      ∀ t ∈ p.spawned, t.AssessesOnly (turnsOf (outs ++ p.effects)) := by
  have hmono : ∀ turn, turnsOf outs turn → turnsOf (outs ++ p.effects) turn :=
    fun turn hturn => (turnsOf_append outs p.effects turn).mpr (Or.inl hturn)
  constructor
  · cases move_of_taskStep svc h with
    | crashed | assessed | loaded | admitted | refused | posted | drained | overran | stuck
    | spoken | unspoken | raised | saved => exact trivial
    | applied d e queue r hqueue hsteps hr =>
        exact fun c hc => runAssessor_of_edge (edge_of_transition hr) hc
    | persisted d e commands =>
        intro c hc
        rcases hold c hc with ⟨text, now, rfl⟩
        exact (turnsOf_append _ _ _).mpr (Or.inr ⟨text, now, List.mem_singleton_self _⟩)
    | executed d mark command commands followUps q hone =>
        exact fun c hc => hmono _ (hold c (List.mem_cons_of_mem command hc))
  · intro t ht
    rcases spawned_of_taskStep svc ht h with ⟨d, mark, c, commands, followUps, rfl, rfl⟩
    exact hmono _ (hold c List.mem_cons_self)

/-- After a crash every assessment that is scheduled is for a candidate turn that
    is accepted after the crash. -/
theorem assess_of_recovering (h : Run (shellStep svc) (recovering w now) ts w') :
    ∀ task ∈ w'.tasks, task.AssessesOnly (turnsOf (outputs ts)) := by
  induction h with
  | nil =>
      intro task htask
      rw [recovering, List.mem_singleton] at htask
      rw [htask]
      exact trivial
  | snoc ts a b c out _ hab ih =>
      rw [outputs_snoc]
      have hmono : ∀ turn, turnsOf (outputs ts) turn → turnsOf (outputs ts ++ out) turn :=
        fun turn hturn => (turnsOf_append _ _ turn).mpr (Or.inl hturn)
      rcases shellStep_cases svc hab with
        ⟨text, _, rfl, rfl⟩ | ⟨i, o, task, p, _, ht, hp, rfl, rfl⟩
      · exact forall_tasks_posted (fun t htask => (ih t htask).mono hmono) trivial
      · rcases taskStep_assesses svc (ih task (List.mem_of_getElem? ht)) hp with ⟨hmoved, hnew⟩
        exact forall_tasks_moved (fun t htask => (ih t htask).mono hmono) hmoved hnew

/-- The task has nothing to execute. -/
def ShellTask.AsksNothing : ShellTask → Prop
  | .persist _ _ commands => commands = []
  | .execute _ _ commands _ => commands = []
  | _ => True

/-- On a terminal copy a task asks for nothing, and records nothing. -/
theorem taskStep_of_terminal {row : Working} {o : Oracle} {task : ShellTask} {p : Progress}
    (hstate : task.StateHas (fun s => ¬ live s)) (hasks : task.AsksNothing)
    (h : taskStep svc row o task = some p) : p.task.AsksNothing ∧ p.decisions = [] := by
  have hdecisions : p.decisions = [] := by
    rw [List.eq_nil_iff_forall_not_mem]
    intro reason hreason
    rcases decision_of_taskStep svc hreason h with ⟨d, mark, c, commands, followUps, rfl, _⟩
    exact absurd hasks (List.cons_ne_nil _ _)
  refine ⟨?_, hdecisions⟩
  cases move_of_taskStep svc h with
  | crashed | assessed | loaded | admitted | refused | posted | drained | overran | stuck
  | spoken | unspoken | saved => exact trivial
  | applied d e queue r hqueue hsteps hr =>
      have hsink := (step_eq_ok_iff _ _ _ _ _).mp (step_of_terminal svc.config (hstate _ rfl) e)
      have hsame := hr.symm.trans hsink
      rw [Except.ok.injEq] at hsame
      exact congrArg TransitionResult.commands hsame
  | persisted d e commands => exact hasks
  | raised | executed => exact absurd hasks (List.cons_ne_nil _ _)

/-- After a crash in a terminal session no decision is ever recorded. -/
theorem decisions_of_terminal (hdead : ¬ live w.row.state)
    (h : Run (shellStep svc) (recovering w now) ts w') : w'.decisions = w.decisions := by
  have hsink : ∀ s e r, ¬ live s → transition s e svc.config = .ok r → ¬ live r.newState := by
    intro s e r hs hr
    have hsame := hr.symm.trans ((step_eq_ok_iff _ _ _ _ _).mp
      (step_of_terminal svc.config hs e))
    rw [Except.ok.injEq] at hsame
    rw [hsame]
    exact hs
  refine (h.invariant (fun b => b.decisions = w.decisions ∧ ¬ live b.row.state ∧
    ∀ task ∈ b.tasks, task.StateHas (fun s => ¬ live s) ∧ task.AsksNothing)
    ⟨rfl, hdead, ?_⟩ (fun a c b out ha hab => ?_)).1
  · intro task htask
    rw [recovering, List.mem_singleton] at htask
    rw [htask]
    exact ⟨stateHas_none rfl, trivial⟩
  · rcases ha with ⟨hdecisions, hrow, htasks⟩
    rcases shellStep_cases svc hab with
      ⟨text, _, rfl, _⟩ | ⟨i, o, task, p, _, ht, hp, rfl, _⟩
    · exact ⟨hdecisions, hrow, forall_tasks_posted htasks ⟨stateHas_none rfl, trivial⟩⟩
    · rcases htasks task (List.mem_of_getElem? ht) with ⟨hstate, hasks⟩
      rcases taskStep_states svc _ hsink hrow hstate hp with ⟨hrow', hstate'⟩
      rcases taskStep_of_terminal svc hstate hasks hp with ⟨hasks', hnone⟩
      refine ⟨?_, hrow', forall_tasks_moved htasks ⟨hstate', hasks'⟩ (fun t htask => ?_)⟩
      · change a.decisions ++ p.decisions = w.decisions
        rw [hnone, List.append_nil, hdecisions]
      · rcases taskStep_spawned svc hp t htask with ⟨c, inputs, rfl⟩
        exact ⟨stateHas_none rfl, trivial⟩

end Lost

section Repeated
variable [Scalars] (svc : DevSession) {may : Oracle → Prop} {Q : List Effect → World → Prop}

/-- One step of a recovery that goes on by itself. -/
theorem inevitable_step {outs : List Effect} {row : Working} {decisions : List String}
    {task : ShellTask}
    (h : ∀ o, may o → ∃ p, taskStep svc row o task = some p ∧
      Inevitable (shellStep svc) (alone may) Q (outs ++ p.effects)
        ⟨p.row, decisions ++ p.decisions, p.task :: p.spawned⟩) :
    Inevitable (shellStep svc) (alone may) Q outs ⟨row, decisions, [task]⟩ := by
  have hne : Nonempty Progress := ⟨{ row := row, task := task }⟩
  choose! f hf using h
  refine Inevitable.later _ _ (fun c => match c with
    | .run _ o => (⟨(f o).row, decisions ++ (f o).decisions, (f o).task :: (f o).spawned⟩,
        (f o).effects)
    | .post _ => (⟨row, decisions, [task]⟩, [])) ?_ ?_
  · rintro c ⟨o, rfl, ho⟩
    have hstep := (hf o ho).1
    simp only [shellStep, List.getElem?_cons_zero, hstep, List.set_cons_zero, List.cons_append,
      List.nil_append]
  · rintro c ⟨o, rfl, ho⟩
    exact (hf o ho).2

/-- A step whose outcome does not depend on the environment. -/
theorem inevitable_const {outs : List Effect} {row : Working} {decisions : List String}
    {task : ShellTask} (p : Progress) (hp : ∀ o, taskStep svc row o task = some p)
    (h : Inevitable (shellStep svc) (alone may) Q (outs ++ p.effects)
      ⟨p.row, decisions ++ p.decisions, p.task :: p.spawned⟩) :
    Inevitable (shellStep svc) (alone may) Q outs ⟨row, decisions, [task]⟩ :=
  inevitable_step svc (fun o _ => ⟨p, hp o, h⟩)

/-- Recovery gets to the point where the outstanding command is repeated. -/
theorem inevitable_reissue {w : World} {now : Instant} {c : PendingCommand}
    (hlive : live w.row.state) (hpending : w.row.state.pendingCommand = some c)
    (h : Inevitable (shellStep svc) (alone may) Q
      [.accepted (.reconnected now) [.reissuePendingCommand c, .persistState]]
      ⟨w.row, w.decisions, [.execute ⟨w.row, [], 1⟩ w.row.transcript.length
        [.reissuePendingCommand c, .persistState] []]⟩) :
    Inevitable (shellStep svc) (alone may) Q [] (recovering w now) := by
  have htrans : transition w.row.state (.reconnected now) svc.config
      = .ok ⟨w.row.state, [.reissuePendingCommand c, .persistState]⟩ := by
    rw [transition, if_neg hlive]
    simp only [onReconnected, hpending]
  have hnext : nextEvent svc ⟨w.row, [.reconnected now], 0⟩ = .persist ⟨w.row, [], 1⟩
      (.reconnected now) [.reissuePendingCommand c, .persistState] := by
    simp only [nextEvent, htrans, maxDriveSteps]
    rfl
  refine inevitable_const svc
    ⟨w.row, .loadTranscript (.feed (.reconnected now)) w.row.state, [], [], []⟩ (fun o => rfl) ?_
  refine inevitable_const svc ⟨w.row, .drive ⟨w.row, [.reconnected now], 0⟩, [], [], []⟩
    (fun o => rfl) ?_
  refine inevitable_const svc ⟨w.row, _, [], [], []⟩ (fun o => by rw [taskStep, hnext]) ?_
  refine inevitable_const svc ⟨w.row, _, [], [], _⟩ (fun o => rfl) ?_
  simp only [List.append_nil, List.nil_append]
  exact h

/-- Executing a command that speaks adds its entries, whatever the environment
    supplies. -/
theorem executePending_speaks (w : Working) {c : PendingCommand}
    (h : c.entries svc w.state ≠ []) :
    ∃ followUps : Oracle → List Event, ∀ o, executePending svc w o c
      = .ok { entries := c.entries svc w.state, followUps := followUps o } := by
  cases c with
  | runInterviewer c => exact absurd rfl h
  | emitScriptedClosing c => exact ⟨fun o => [.timerTick o.now], fun o => rfl⟩
  | emitScriptedOpening c => exact ⟨fun _ => [], fun o => rfl⟩
  | deliverUtterance c => exact ⟨fun _ => [], fun o => rfl⟩

/-- What the stored state would repeat gets into the stored transcript. -/
theorem inevitable_entry {w : World} {now : Instant} {x : TranscriptEntry}
    (h : FromPending svc w.row.state x) :
    Inevitable (shellStep svc) (alone may) (fun _ w' => x ∈ w'.row.transcript) []
      (recovering w now) := by
  rcases h with ⟨hlive, c, hpending, hx⟩
  have hspeaks : c.entries svc w.row.state ≠ [] := List.ne_nil_of_mem hx
  rcases executePending_speaks svc w.row hspeaks with ⟨followUps, hexecute⟩
  have hlen : (w.row.append (c.entries svc w.row.state)).transcript.length
      ≠ w.row.transcript.length := by
    rw [Working.append, List.length_append]
    have hpos := List.length_pos_of_ne_nil hspeaks
    omega
  refine inevitable_reissue svc hlive hpending (inevitable_step svc (fun o _ => ?_))
  refine ⟨⟨w.row, .execute ⟨w.row.append (c.entries svc w.row.state), [], 1⟩
    w.row.transcript.length [.persistState] (followUps o), [], [],
    callsMade svc w.row o (.reissuePendingCommand c)⟩, ?_, ?_⟩
  · rw [taskStep, executeOne, hexecute o]
    rfl
  · refine inevitable_const svc ⟨w.row, .execute ⟨w.row.append (c.entries svc w.row.state), [], 1⟩
      w.row.transcript.length [] (followUps o), [], [], []⟩ (fun o' => ?_) ?_
    · simp only [taskStep, executeOne, callsMade, Command.call?, Working.append, List.append_nil]
    · refine inevitable_const svc ⟨w.row, .save ⟨w.row.append (c.entries svc w.row.state), [], 1⟩
        w.row.transcript.length (followUps o), [], [], []⟩ (fun o' => ?_) ?_
      · rw [taskStep, if_pos hlen]
      · refine inevitable_const svc ⟨w.row.append (c.entries svc w.row.state), _, [], [], []⟩
          (fun o' => rfl) (Inevitable.now _ _ ?_)
        exact List.mem_append_right _ hx

/-- An outstanding interviewer call is made again. -/
theorem inevitable_call {w : World} {now : Instant} {c : RunInterviewer}
    (hlive : live w.row.state) (hpending : w.row.state.pendingCommand = some (.runInterviewer c)) :
    Inevitable (shellStep svc) (alone (fun o => o.interviewer.called = true))
      (fun outs _ => ∃ inputs, .interviewerCalled c inputs ∈ outs) [] (recovering w now) := by
  refine inevitable_reissue svc hlive hpending (inevitable_step svc (fun o ho => ?_))
  have hcall : callsMade svc w.row o (.reissuePendingCommand (.runInterviewer c))
      = [.interviewerCalled c (interviewerInputs svc w.row c)] := by
    simp only [callsMade, Command.call?, ho, if_true]
  have hmade : ∀ outs b, Inevitable (shellStep svc)
      (alone (fun o => o.interviewer.called = true))
      (fun outs _ => ∃ inputs, .interviewerCalled c inputs ∈ outs)
      (outs ++ callsMade svc w.row o (.reissuePendingCommand (.runInterviewer c))) b := by
    intro outs b
    refine Inevitable.now _ _ ⟨interviewerInputs svc w.row c, ?_⟩
    rw [hcall]
    exact List.mem_append_right _ (List.mem_singleton_self _)
  rw [taskStep]
  cases executeOne svc w.row o (.reissuePendingCommand (.runInterviewer c)) with
  | error x => exact ⟨_, rfl, hmade _ _⟩
  | ok q => exact ⟨_, rfl, hmade _ _⟩

end Repeated

/-- A state that remembers a command is not terminal. -/
theorem StateInv.live_of_pending {cfg : OrchestratorConfig} {s : SessionState}
    (h : StateInv cfg s) {c : PendingCommand} (hc : s.pendingCommand = some c) : live s := by
  intro hdead
  have hp := h.phase
  simp only [terminalPhases, List.mem_cons, List.not_mem_nil, or_false] at hdead
  rcases hdead with hs | hs
  · rw [PhaseInv, hs] at hp
    rw [hp.2.2] at hc
    exact absurd hc (by simp)
  · rw [PhaseInv, hs] at hp
    rw [hp.2] at hc
    exact absurd hc (by simp)

section Consistency
variable [Scalars] (svc : DevSession) {planInput : Dict String Json} {start : Instant}
  {ts : List (Taken World Choice Effect)} {w : World} {now : Instant}

/-- A crash while an assessment is pending is not recovered from. -/
theorem not_recovers_of_pending (h : Run (shellStep svc) (created svc planInput start) ts w)
    (hts : Sequential ts) (hpending : w.row.state.tech.pendingAssessments ≠ []) :
    ¬ Recovers svc (outputs ts) w now := by
  intro hrec
  rcases (machine_of_upToDate svc h (upToDate_of_sequential svc h hts)).2 with
    ⟨ms, hms, _, houtputs⟩
  rcases List.exists_mem_of_ne_nil _ hpending with ⟨turn, hturn⟩
  rcases hms.pending_requested turn hturn with ⟨c, hc, rfl⟩
  rw [houtputs] at hc
  rcases hrec.assessments c hc hturn with ⟨us, w', inputs, hrun, hfresh, hassess⟩
  rcases assess_of_recovering svc hrun _ hassess with ⟨text, now', haccepted⟩
  exact hfresh text now' haccepted

/-- A crash between the end of a session and its decision is not recovered
    from. -/
theorem not_recovers_of_undecided (h : Run (shellStep svc) (created svc planInput start) ts w)
    (hts : Sequential ts) (hdead : ¬ live w.row.state) (hnone : w.decisions = []) :
    ¬ Recovers svc (outputs ts) w now := by
  intro hrec
  rcases (machine_of_upToDate svc h (upToDate_of_sequential svc h hts)).2 with
    ⟨ms, hms, _, houtputs⟩
  rcases hms.decision_of_terminal hdead with ⟨c, hc, _⟩
  rw [houtputs] at hc
  rcases hrec.decisions c hc with ⟨us, w', hrun, hreason⟩
  rw [decisions_of_terminal svc hdead hrun, hnone] at hreason
  exact absurd hreason List.not_mem_nil

end Consistency

/-- At every point of a run in which calls and tasks are executed one after
    another, a crash is recovered from exactly when the stored state has no
    pending assessment, and is not terminal with its decision unrecorded. -/
theorem crash_consistency [Scalars] (svc : DevSession) (planInput : Dict String Json)
    (start now : Instant) (ts : List (Taken World Choice Effect)) (w : World)
    (h : Run (shellStep svc) (created svc planInput start) ts w) (hts : Sequential ts) :
    Recovers svc (outputs ts) w now ↔
      w.row.state.tech.pendingAssessments = [] ∧ (live w.row.state ∨ w.decisions ≠ []) := by
  rcases (machine_of_upToDate svc h (upToDate_of_sequential svc h hts)).2 with
    ⟨ms, hms, _, houtputs⟩
  constructor
  · intro hrec
    refine ⟨by_contra (fun hne => not_recovers_of_pending svc h hts hne hrec), ?_⟩
    by_contra hneither
    rw [not_or, ne_eq, not_not] at hneither
    exact not_recovers_of_undecided svc h hts hneither.1 hneither.2 hrec
  · rintro ⟨hpending, hdecided⟩
    refine ⟨fun c _ hturn => ?_, fun c hc => ?_, fun c hc => ?_, fun c hc => ?_⟩
    · rw [hpending] at hturn
      exact absurd hturn List.not_mem_nil
    · rcases hdecided with hlive | hne
      · rw [← houtputs] at hc
        exact absurd hlive (hms.terminal_of_decision hc)
      · exact ⟨[], recovering w now, Run.nil, decision_recorded svc h hts hne hc⟩
    · rcases delivered_stored_or_pending svc h hts hc with hstored | hrepeat
      · exact Inevitable.now _ _ hstored
      · exact inevitable_entry svc hrepeat
    · exact inevitable_call svc (hms.stateInv.live_of_pending hc) hc

section SmallCrash

/-- Calls and tasks are executed one after another, as a check sees it. -/
def sequentially (ts : List (Taken World Choice Effect)) : Bool :=
  ts.all (fun t => (List.range t.before.tasks.length).all (fun j =>
    (t.before.tasks[j]?.all ShellTask.rests) ||
      match t.event with
      | .run i _ => i = j
      | .post _ => false))

theorem sequential_of_check {ts : List (Taken World Choice Effect)}
    (h : sequentially ts = true) : Sequential ts := by
  intro t ht j task htask
  have hj : j < t.before.tasks.length := (List.getElem?_eq_some_iff.mp htask).1
  have hone := List.all_eq_true.mp (List.all_eq_true.mp h t ht) j (List.mem_range.mpr hj)
  rw [Bool.or_eq_true, htask] at hone
  rcases hone with hrests | hmoves
  · exact Or.inl hrests
  · cases hevent : t.event with
    | post text =>
        rw [hevent] at hmoves
        exact absurd hmoves Bool.false_ne_true
    | run i o =>
        rw [hevent] at hmoves
        exact Or.inr ⟨o, by rw [of_decide_eq_true hmoves]⟩

/-- The small interview up to the first reply: nothing is pending, and recovery
    brings back everything. -/
theorem crash_consistency_small : ∃ ts w, SmallShell ts w ∧ Sequential ts ∧
    w.row.transcript.map TranscriptEntry.text = [openingScriptPath, "ready"] ∧
    w.row.state.pendingCommand.isSome = true ∧
    @Recovers smallService Scalars.strict (outputs ts) w 9000000 := by
  have hrec : (smallShellRecord (smallOpening.take 18)).map (fun r => (sequentially r.1,
      r.2.row.transcript.map TranscriptEntry.text, r.2.row.state.pendingCommand.isSome,
      r.2.row.state.tech.pendingAssessments, decide (live r.2.row.state)))
        = .ok (true, [openingScriptPath, "ready"], true, [], true) := by decide +kernel
  rcases exists_run_of_record _ _ _ _ _ hrec with ⟨ts, w, hrun, hproj⟩
  simp only [Prod.mk.injEq] at hproj
  have hseq := sequential_of_check hproj.1
  exact ⟨ts, w, hrun, hseq, hproj.2.1, hproj.2.2.1,
    (@crash_consistency Scalars.strict smallService smallInput 0 9000000 ts w hrun hseq).mpr
      ⟨hproj.2.2.2.1, Or.inl (of_decide_eq_true hproj.2.2.2.2)⟩⟩

/-- The first answer has been replied to and its assessment is under way when the
    process dies: the assessment is never made. -/
theorem crash_loses_assessment : ∃ ts w, SmallShell ts w ∧ Sequential ts ∧
    ∀ now, ¬ @Recovers smallService Scalars.strict (outputs ts) w now := by
  have hrec : (smallShellRecord (smallOpening ++ .post "an answer"
      :: goes 15 2 (answering 2000000 "Why?" "sql" 0))).map (fun r => (sequentially r.1,
        r.2.row.state.tech.pendingAssessments.isEmpty)) = .ok (true, false) := by decide +kernel
  rcases exists_run_of_record _ _ _ _ _ hrec with ⟨ts, w, hrun, hproj⟩
  simp only [Prod.mk.injEq] at hproj
  have hseq := sequential_of_check hproj.1
  refine ⟨ts, w, hrun, hseq, fun now => ?_⟩
  refine @not_recovers_of_pending Scalars.strict smallService smallInput 0 ts w now hrun hseq ?_
  intro hnil
  rw [hnil] at hproj
  exact absurd hproj.2 (by simp)

end SmallCrash

end TechScreen
