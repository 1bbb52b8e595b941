import TechScreen.Services.Halt

/-!
# The Ceiling

What a session has spent is looked at twice before a model is called: the guard
of the shell looks at it before an agent call, and the wrapper before each of
the two attempts. When the guard finds the ceiling reached, the session is
aborted for its cost. What the wrapper finds comes back as an error like any
other, and so it counts as a failure of the interviewer: the first one leads to
a second call, which the guard refuses, as nothing that has been spent is given
back. Only the second failure of a move aborts the session, and then as a fatal
error of the agent.

So a breach ends as the ceiling as long as no second call for a move gets past
the guard and is then refused by the wrapper.

## Main definitions

* `Event.breach`: The event reports that the ceiling is reached.
* `exceeds`: An agent call ends with the wrapper's budget error.
* `crossed`: The second call for a move finds the budget spent.
* `EndsAsCeiling`: What a breach comes to.

## Theorems

* `stored_of_taskStep`: What becomes of the stored state in a step.
* `operator_of_costCeiling`: The decision of a session aborted for its cost.
* `decided_of_run`: A decision that was asked for is recorded, or under way.
* `mild_step`, `mild_of_uncrossed`: Which failures a task has still to report.
* `spent_step`, `spent_of_run`: What holds once the budget is found spent.
* `ceiling_of_uncrossed`: When a breach ends as the ceiling.
* `crossed_retry_is_fatal`: A breach that ends as an agent's failure.
-/

namespace TechScreen

open Lib Llm

section Breaches

/-- The event reports that the ceiling has been reached. -/
def Event.breach : Event → Bool
  | .operatorAbort .costCeiling _ => true
  | .interviewerFailed _ kind _ => kind = "SessionBudgetExceeded"
  | .assessmentFailed _ kind _ => kind = "SessionBudgetExceeded"
  | _ => false

/-- The event does not abort a session as an agent's failure. Failures of these
    kinds are the first ones of their moves. -/
def Event.Mild (P : String → Prop) (s : SessionState) : Event → Prop
  | .interviewerFailed _ kind _ => P kind → s.interviewerFailureStreak < 1
  | .operatorAbort reason _ => reason = .costCeiling
  | _ => True

/-- The events that a task has still to get stored. -/
def ShellTask.events : ShellTask → List Event
  | .load (.feed e) => [e]
  | .loadTranscript (.feed e) _ => [e]
  | .drive d => d.queue
  | .persist d e _ => e :: d.queue
  | .execute d _ _ followUps => d.queue ++ followUps
  | .save d _ followUps => d.queue ++ followUps
  | _ => []

theorem ShellTask.events_of_rests {task : ShellTask} (h : task.rests = true) :
    task.events = [] := by
  cases task with
  | assess command inputs => rfl
  | done => rfl
  | failed x => rfl
  | _ => exact absurd h Bool.false_ne_true

/-- No task has an event to report that is not mild. -/
def World.Mild (P : String → Prop) (w : World) : Prop :=
  ∀ task ∈ w.tasks, ∀ e ∈ task.events, e.Mild P w.row.state

end Breaches

section Transitions
variable [Scalars] {cfg : OrchestratorConfig} {s s' : SessionState} {e : Event}
  {out : List Command}

/-- A session gets to a terminal phase with a decision, and without a call. -/
theorem decision_of_edge (hedge : Edge cfg s e s' out) (hlive : live s) (hdead : ¬ live s') :
    (∃ c, .recordDecision c ∈ out) ∧ ∀ x ∈ out, x.call? = none := by
  -- An edge into a phase that is still live is not the last one.
  have hkept : s'.phase = s.phase → False := by
    intro hphase
    refine hdead ?_
    unfold live
    rw [hphase]
    exact hlive
  have hopen : ∀ phase, phase ∉ terminalPhases → s'.phase = phase → False := by
    intro phase hphase heq
    refine hdead ?_
    unfold live
    rw [heq]
    exact hphase
  cases hedge with
  -- Two edges end a session, and both ask for its decision.
  | completed e hphase =>
      refine ⟨⟨_, List.mem_cons_of_mem _ List.mem_cons_self⟩, fun x hx => ?_⟩
      simp only [List.mem_cons, List.not_mem_nil, or_false] at hx
      rcases hx with rfl | rfl <;> rfl
  | aborted e reason decision persist hlive' hturn =>
      refine ⟨⟨⟨decision⟩, List.mem_cons_self⟩, fun x hx => ?_⟩
      cases persist <;> simp [abort] at hx
      · rw [hx]
        rfl
      · rcases hx with rfl | rfl <;> rfl
  | ignored e hidle => exact (hkept rfl).elim
  | opened now plan hphase hplan => exact (hopen .intro (by decide) rfl).elim
  | entered turnId text now plan hphase hplan => exact (hopen .tech (by decide) rfl).elim
  | finished turnId text now a hphase hawaiting hleaves hlast =>
      exact (hopen .qa (by decide) rfl).elim
  | cutShort now plan hphase hplan hover => exact (hopen .qa (by decide) rfl).elim
  | closed e activity hphase => exact (hopen .close (by decide) rfl).elim
  | assessed forTurnId output now hlive' hpending =>
      refine (hkept ?_).elim
      rw [onAssessmentCompleted, if_neg (not_not.mpr hpending)]
  | assessmentFailed forTurnId errorKind now hlive' hpending =>
      refine (hkept ?_).elim
      rw [onAssessmentFailed, if_neg (not_not.mpr hpending)]
  | _ => exact (hkept rfl).elim

/-- A session that is aborted for its cost has asked for the operator's decision. -/
theorem operator_of_costCeiling {sessionId : Uuid} {planInput : Dict String Json}
    {ms : List (Taken SessionState Event Command)} (h : SessionRun cfg sessionId planInput ms s)
    (hs : s.abortReason = some .costCeiling) : .recordDecision ⟨.operator⟩ ∈ outputs ms := by
  induction h with
  | nil => cases hs
  | snoc ms a b e out hrun hab ih =>
      rw [outputs_snoc, List.mem_append]
      have htaken := (step_eq_ok_iff cfg a b e out).mp hab
      by_cases hlive : live a
      · right
        have hinv : StateInv cfg b := SessionRun.stateInv (hrun.snoc ms a b e out hab)
        have hcause := abortedBy_of_transition htaken hlive
          (hinv.abortReason.mp (by rw [hs]; rfl))
        generalize hr : (⟨b, out⟩ : TransitionResult) = r at hcause
        have hreason : r.newState.abortReason = some .costCeiling := by
          rw [← hr]
          exact hs
        have hout : out = r.commands := congrArg TransitionResult.commands hr
        rw [hout]
        cases hcause with
        | operator reason now => exact List.mem_cons_self
        | plan now => cases hreason
        | silence now => cases hreason
        | agent turnId errorKind now hstreak => cases hreason
      · -- The session was over before.
        have hsame := step_of_terminal cfg hlive e
        rw [hab, Except.ok.injEq, Prod.mk.injEq] at hsame
        rw [hsame.1] at hs
        exact Or.inl (ih hs)

/-- A mild event does not make a session end as an agent's failure. -/
theorem fatal_of_transition {r : TransitionResult} (hinv : StateInv cfg r.newState)
    (h : transition s e cfg = .ok r) (hmild : e.Mild (fun _ => True) s)
    (hfatal : r.newState.abortReason = some .fatalAgentError) :
    s.abortReason = some .fatalAgentError := by
  by_cases hlive : live s
  · have hcause := abortedBy_of_transition h hlive (hinv.abortReason.mp (by rw [hfatal]; rfl))
    cases hcause with
    | operator reason now =>
        have hreason : reason = .costCeiling := hmild
        rw [hreason] at hfatal
        cases hfatal
    | agent turnId errorKind now hstreak =>
        have hfirst := hmild trivial
        omega
    | plan now => cases hfatal
    | silence now => cases hfatal
  · have hsink := (step_eq_ok_iff cfg s s e []).mp (step_of_terminal cfg hlive e)
    rw [hsink, Except.ok.injEq] at h
    rw [← h] at hfatal
    exact hfatal

/-- What a breach aborts it aborts as the ceiling, if the failures that report it
    are first ones. -/
theorem costCeiling_of_breach {r : TransitionResult} (h : transition s e cfg = .ok r)
    (hlive : live s) (hbreach : e.breach = true)
    (hmild : e.Mild (fun kind => kind = "SessionBudgetExceeded") s)
    (hdead : Aborted r.newState) : r.newState.abortReason = some .costCeiling := by
  cases abortedBy_of_transition h hlive hdead with
  | operator reason now =>
      have hreason : reason = .costCeiling := hmild
      rw [hreason]
      rfl
  | agent turnId errorKind now hstreak =>
      have hfirst := hmild (of_decide_eq_true hbreach)
      omega
  | plan now => cases hbreach
  | silence now => cases hbreach

end Transitions

section Steps
variable [Scalars] (svc : DevSession)

/-- The stored state stays as it is, or a task stores an event and the commands
    that the stored state has for it. -/
theorem stored_of_taskStep {row : Working} {o : Oracle} {task : ShellTask} {p : Progress}
    (hmatch : task.state? ≠ none → task.Matches svc row) (h : taskStep svc row o task = some p) :
    p.row.state = row.state ∨ ∃ d e commands, task = .persist d e commands ∧
      p.task = .execute d d.working.transcript.length commands [] ∧
      transition row.state e svc.config = .ok ⟨p.row.state, commands⟩ := by
  cases hw : task.writes with
  | false => exact Or.inl (congrArg Working.state (taskStep_row svc hw h))
  | true =>
      have hm := hmatch (ShellTask.state?_of_writes hw)
      cases task with
      | persist d e commands =>
          cases h
          exact Or.inr ⟨d, e, commands, rfl, rfl, hm.1⟩
      | save d mark followUps =>
          cases h
          exact Or.inl hm.1
      | _ => exact absurd hw Bool.false_ne_true

/-- An event that a task has to store it had before, or it is what has become of
    a call, or it is harmless. -/
theorem events_of_taskStep {row : Working} {o : Oracle} {task : ShellTask} {p : Progress}
    (h : taskStep svc row o task = some p) {e : Event} (he : e ∈ p.task.events) :
    e ∈ task.events ∨ (∀ P s, e.Mild P s) ∨
      ∃ d mark command commands followUps call, task = .execute d mark (command :: commands)
        followUps ∧ command.call? = some call ∧ runInterviewer o call = .ok e := by
  cases move_of_taskStep svc h with
  | crashed | refused | drained | overran | stuck | raised => exact absurd he List.not_mem_nil
  | assessed command inputs e' hcall =>
      rw [List.mem_singleton.mp he]
      refine Or.inr (Or.inl fun P s => ?_)
      unfold runAssessor at hcall
      split at hcall <;> cases hcall
      · rfl
      · exact trivial
      · exact trivial
      · exact trivial
  | loaded errand =>
      cases errand with
      | feed e' => exact Or.inl he
      | postTurn text => exact absurd he List.not_mem_nil
  | admitted e' state => exact Or.inl he
  | posted text state turnId hlive hopen hid =>
      rw [List.mem_singleton.mp he]
      exact Or.inr (Or.inl fun P s => trivial)
  | applied d e' queue r hqueue hsteps hr =>
      have hmem : e ∈ d.queue := by
        rw [hqueue]
        exact he
      exact Or.inl hmem
  | persisted d e' commands =>
      change e ∈ d.queue ++ [] at he
      rw [List.append_nil] at he
      exact Or.inl (List.mem_cons_of_mem e' he)
  | spoken | unspoken | saved => exact Or.inl he
  | executed d mark command commands followUps q hone =>
      change e ∈ d.queue ++ (followUps ++ q.followUps) at he
      rw [← List.append_assoc, List.mem_append] at he
      rcases he with he | he
      · exact Or.inl he
      right
      cases hcall : command.call? with
      | some call =>
          rw [executeOne_of_call svc hcall] at hone
          cases hr : runInterviewer o call with
          | error x =>
              rw [hr] at hone
              cases hone
          | ok e' =>
              rw [hr] at hone
              cases hone
              rw [List.mem_singleton.mp he]
              exact Or.inr ⟨d, mark, command, commands, followUps, call, rfl, hcall, hr⟩
      | none =>
          -- Only a closing script gives an event without a call.
          obtain ⟨-, rfl⟩ := followUps_of_no_call svc hone hcall e he
          exact Or.inl fun P s => trivial

/-- What a task has still to report stays mild, as long as the calls report
    nothing else. -/
theorem mild_step {P : String → Prop} {a b : World} {c : Choice} {out : List Effect}
    (hmatch : ∀ (i : Nat) (task : ShellTask), a.tasks[i]? = some task → task.state? ≠ none →
      task.Matches svc a.row)
    (hpaced : ∀ task ∈ a.tasks, task.Paced)
    (hmover : ∀ (j : Nat) (task : ShellTask), a.tasks[j]? = some task →
      task.rests = true ∨ ∃ o, c = .run j o)
    (hcalls : ∀ i o d mark command commands followUps call e, c = .run i o →
      a.tasks[i]? = some (.execute d mark (command :: commands) followUps) →
      command.call? = some call → runInterviewer o call = .ok e → e.Mild P a.row.state)
    (hw : a.Mild P) (h : shellStep svc a c = .ok (b, out)) : b.Mild P := by
  rcases shellStep_cases svc h with
    ⟨text, rfl, rfl, rfl⟩ | ⟨i, o, task, p, rfl, ht, hp, rfl, rfl⟩
  · intro task htask e he
    rcases List.mem_append.mp htask with htask | htask
    · exact hw task htask e he
    · rw [List.mem_singleton.mp htask] at he
      exact absurd he List.not_mem_nil
  · -- The other tasks rest, so that only the one that moves has anything to report.
    have hmem := List.mem_of_getElem? ht
    have hrest : ∀ (j : Nat) (u : ShellTask), j ≠ i → a.tasks[j]? = some u → u.rests = true := by
      intro j u hji hu
      rcases hmover j u hu with hrests | ⟨o', hrun⟩
      · exact hrests
      · cases hrun
        exact absurd rfl hji
    obtain ⟨hself, hothers⟩ := rests_moved p.task ht hrest (taskStep_spawned svc hp)
    intro u hu e he
    obtain ⟨j, hj⟩ := List.mem_iff_getElem?.mp hu
    by_cases hji : j = i
    · rw [hji] at hj
      cases Option.some.inj (hself.symm.trans hj)
      rcases stored_of_taskStep svc (hmatch i task ht) hp with
        hsame | ⟨d, e', commands, rfl, htask, -⟩
      · change e.Mild P p.row.state
        rw [hsame]
        rcases events_of_taskStep svc hp he with
          hold | hharmless | ⟨d, mark, command, commands, followUps, call, rfl, hcall, hr⟩
        · exact hw task hmem e hold
        · exact hharmless P a.row.state
        · exact hcalls i o d mark command commands followUps call e rfl ht hcall hr
      · -- The event that has just been stored was the only one.
        have hqueue : d.queue = [] := (hpaced _ hmem).1
        rw [htask] at he
        change e ∈ d.queue ++ [] at he
        rw [hqueue] at he
        exact absurd he List.not_mem_nil
    · rw [ShellTask.events_of_rests (hothers j u hji hj)] at he
      exact absurd he List.not_mem_nil

end Steps

section Decisions
variable [Scalars] (svc : DevSession)

/-- The task is about to record a decision, and calls nobody before. -/
def ShellTask.Deciding : ShellTask → Prop
  | .execute _ _ commands _ => (∃ c, .recordDecision c ∈ commands) ∧ ∀ x ∈ commands, x.call? = none
  | _ => False

/-- A task that is about to record a decision records it, or still is. -/
theorem taskStep_deciding {row : Working} {o : Oracle} {task : ShellTask} {p : Progress}
    (hdeciding : task.Deciding) (h : taskStep svc row o task = some p) :
    p.decisions ≠ [] ∨ p.task.Deciding := by
  cases move_of_taskStep svc h with
  | spoken d mark followUps hmark =>
      obtain ⟨⟨c, hc⟩, -⟩ := hdeciding
      exact absurd hc List.not_mem_nil
  | unspoken d mark followUps hmark =>
      obtain ⟨⟨c, hc⟩, -⟩ := hdeciding
      exact absurd hc List.not_mem_nil
  | raised d mark command commands followUps x hone =>
      exact absurd (hdeciding.2 command List.mem_cons_self) (call_of_executeOne_error svc hone)
  | executed d mark command commands followUps q hone =>
      obtain ⟨⟨c, hc⟩, hcalls⟩ := hdeciding
      rcases List.mem_cons.mp hc with rfl | hc
      · cases hone
        exact Or.inl (List.cons_ne_nil _ _)
      · exact Or.inr ⟨⟨c, hc⟩, fun x hx => hcalls x (List.mem_cons_of_mem command hx)⟩
  | crashed | assessed | loaded | admitted | refused | posted | drained | overran | stuck
  | applied | persisted | saved => exact absurd hdeciding id

/-- The decision of a terminal session is recorded, or a task is about to do so. -/
theorem decided_of_run {planInput : Dict String Json} {now : Instant}
    {ts : List (Taken World Choice Effect)} {w : World}
    (h : Run (shellStep svc) (created svc planInput now) ts w) (hts : Sequential ts)
    (hdead : ¬ live w.row.state) : w.decisions ≠ [] ∨ ∃ task ∈ w.tasks, task.Deciding := by
  induction h with
  | nil =>
      refine absurd ?_ hdead
      change Phase.created ∉ terminalPhases
      decide
  | snoc ts a b c out hrun hab ih =>
      have hpre : Sequential ts := fun t ht => hts t (List.mem_append_left _ ht)
      rcases shellStep_cases svc hab with
        ⟨text, rfl, rfl, rfl⟩ | ⟨i, o, task, p, rfl, ht, hp, rfl, rfl⟩
      · -- A post changes nothing but the list of tasks.
        rcases ih hpre hdead with hdecided | ⟨task, htask, hdeciding⟩
        · exact Or.inl hdecided
        · exact Or.inr ⟨task, List.mem_append_left _ htask, hdeciding⟩
      · have hmatch : task.state? ≠ none → task.Matches svc a.row :=
          matches_of_sequential svc hrun hpre ht
        have hself : p.task ∈ a.tasks.set i p.task ++ p.spawned :=
          List.mem_append_left _ (List.mem_set (List.getElem?_eq_some_iff.mp ht).1 p.task)
        by_cases hlive : live a.row.state
        · -- The step has stored the event that ends the session.
          rcases stored_of_taskStep svc hmatch hp with hsame | ⟨d, e, commands, -, htask, hr⟩
          · rw [hsame] at hdead
            exact absurd hlive hdead
          · refine Or.inr ⟨p.task, hself, ?_⟩
            rw [htask]
            exact decision_of_edge (edge_of_transition hr) hlive hdead
        · -- It had ended before: the task that is about to record it moves, or it waits.
          rcases ih hpre hlive with hdecided | ⟨u, hu, hdeciding⟩
          · exact Or.inl (List.append_ne_nil_of_left_ne_nil hdecided _)
          · obtain ⟨j, hj⟩ := List.mem_iff_getElem?.mp hu
            by_cases hji : j = i
            · rw [hji, ht] at hj
              cases hj
              rcases taskStep_deciding svc hdeciding hp with hnow | hstill
              · exact Or.inl (List.append_ne_nil_of_right_ne_nil _ hnow)
              · exact Or.inr ⟨p.task, hself, hstill⟩
            · refine Or.inr ⟨u, List.mem_append_left _ (List.mem_of_getElem? (i := j) ?_),
                hdeciding⟩
              rw [List.getElem?_set_ne (Ne.symm hji)]
              exact hj

/-- When everything has finished, a session that is aborted for its cost has
    recorded just that. -/
theorem recorded_of_costCeiling {planInput : Dict String Json} {now : Instant}
    {ts : List (Taken World Choice Effect)} {w : World}
    (h : Run (shellStep svc) (created svc planInput now) ts w) (hts : Sequential ts)
    (hw : w.settled) (hreason : w.row.state.abortReason = some .costCeiling) :
    "cost_ceiling" ∈ w.decisions ∧ ∀ reason ∈ w.decisions, reason = "cost_ceiling" := by
  obtain ⟨ms, hms, -, houtputs⟩ :=
    (machine_of_upToDate svc h (upToDate_of_sequential svc h hts)).2
  have hdead : ¬ live w.row.state :=
    not_live_of_aborted ((SessionRun.stateInv hms).abortReason.mp (by rw [hreason]; rfl))
  have hasked := operator_of_costCeiling hms hreason
  have hdecided : w.decisions ≠ [] := by
    rcases decided_of_run svc h hts hdead with hdecided | ⟨task, htask, hdeciding⟩
    · exact hdecided
    · have hover := hw task htask
      cases task with
      | execute d mark commands followUps => exact absurd hover Bool.false_ne_true
      | _ => exact absurd hdeciding id
  have hvalue : recordedReason w.row.state ⟨.operator⟩ = "cost_ceiling" := by
    rw [recordedReason, hreason]
    rfl
  constructor
  · rw [← hvalue]
    exact decision_recorded svc h hts hdecided (by rw [← houtputs]; exact hasked)
  · intro reason hmem
    obtain ⟨c, hc, hrecorded⟩ := (settling_of_sequential svc h hts).recorded reason hmem
    obtain ⟨c₀, -, honly⟩ := hms.decision_of_terminal hdead
    rw [← houtputs] at hc
    rw [hrecorded, honly c hc, ← honly ⟨.operator⟩ hasked, hvalue]

omit [Scalars] in
theorem agentFailure_of_recorded {s : SessionState} {c : RecordDecision}
    (h : "agent_failure" = recordedReason s c) : c = ⟨.agentFailure⟩ := by
  cases c with
  | mk reason =>
      cases reason with
      | agentFailure => rfl
      | operator =>
          unfold recordedReason at h
          cases hreason : s.abortReason with
          | none =>
              rw [hreason] at h
              exact absurd h (by decide)
          | some r =>
              rw [hreason] at h
              cases r <;> exact absurd h (by decide)
      | planInvalid => exact absurd (show "agent_failure" = "plan_invalid" from h) (by decide)
      | timeout => exact absurd (show "agent_failure" = "timeout" from h) (by decide)
      | completed => exact absurd (show "agent_failure" = "completed" from h) (by decide)

/-- A session that has recorded an agent's failure was aborted for one. -/
theorem fatal_of_recorded {planInput : Dict String Json} {now : Instant}
    {ts : List (Taken World Choice Effect)} {w : World}
    (h : Run (shellStep svc) (created svc planInput now) ts w) (hts : Sequential ts)
    (hmem : "agent_failure" ∈ w.decisions) :
    w.row.state.abortReason = some .fatalAgentError := by
  obtain ⟨ms, hms, -, houtputs⟩ :=
    (machine_of_upToDate svc h (upToDate_of_sequential svc h hts)).2
  obtain ⟨c, hc, hrecorded⟩ := (settling_of_sequential svc h hts).recorded _ hmem
  rw [← houtputs] at hc
  rw [agentFailure_of_recorded hrecorded] at hc
  exact (fatal_of_agentFailure hms hc).2

end Decisions

section Spending
variable [Scalars] (b : BookedService)

/-- The flag is on when a step asks for it. -/
def BookedChoice.enforced : BookedChoice → Bool
  | .post _ => true
  | .run _ _ env => env.enforced

/-- No backend of the step raises the wrapper's budget error. -/
def BookedChoice.Candid : BookedChoice → Prop
  | .post _ => True
  | .run _ _ env => env.Candid

omit [Scalars] in
def CallOutcome.exceeded {α : Type} : CallOutcome α → Bool
  | .wrapperError kind => kind = "SessionBudgetExceeded"
  | _ => false

/-- The agent call of the step ends with the wrapper's budget error. -/
def exceeds (t : Taken Booked BookedChoice Effect) : Bool :=
  match t.event with
  | .post _ => false
  | .run i now env =>
      (t.before.answer b i now env).1.interviewer.exceeded ||
        (t.before.answer b i now env).1.assessor.exceeded

/-- The step is the second call for a move, and an attempt of it finds the
    budget spent. -/
def crossed (t : Taken Booked BookedChoice Effect) : Bool :=
  match t.event with
  | .post _ => false
  | .run i now env =>
      match t.before.call? (.run i now env) with
      | none => false
      | some call => degraded t && (call.attempts b env t.before.books).any (fun a =>
          decide (b.agents.settings.llmBudgetPerSessionUsd ≤ checkedTotal a.1 a.2.1 a.2.2))

/-- A session that a breach aborts is aborted for its cost. A budget error of the
    wrapper does not make it end as an agent's failure. And when everything has
    finished, a session that is aborted for its cost has recorded so. -/
structure EndsAsCeiling (ts : List (Taken Booked BookedChoice Effect)) (s : Booked) : Prop where
  aborts : ∀ t ∈ ts, ∀ e commands, .accepted e commands ∈ t.out → e.breach = true →
    live t.before.world.row.state → Aborted t.after.world.row.state →
      t.after.world.row.state.abortReason = some .costCeiling
  surfaces : (∃ t ∈ ts, exceeds b t = true ∧ live t.before.world.row.state) →
    s.world.row.state.abortReason ≠ some .fatalAgentError ∧ "agent_failure" ∉ s.world.decisions
  recorded : s.world.settled → s.world.row.state.abortReason = some .costCeiling →
    "cost_ceiling" ∈ s.world.decisions ∧
      ∀ reason ∈ s.world.decisions, reason = "cost_ceiling"

variable {b}

/-- The guard refuses a call when the ceiling is reached. -/
theorem refused_of_spent {env : TurnEnv} {books : Books} (w : Working) (command : RunInterviewer)
    (henforced : env.enforced = true) (h : b.ceiling ≤ b.spent books) :
    (callInterviewer b w command env books).1 = .budgetExceeded := by
  have hwaiting : b.spent books ≤ b.spent (books.receive env.waiting) := spent_le_receive
  obtain ⟨e, he⟩ := guard_of_spent henforced (le_trans h hwaiting)
  unfold callInterviewer guardedTurn
  dsimp only
  rw [he]

/-- A step whose call ends with the budget error. -/
theorem exceeds_cases {t : Taken Booked BookedChoice Effect} (h : exceeds b t = true) :
    ∃ i now env, t.event = .run i now env ∧
      ((∃ d mark command commands followUps call,
        t.before.world.tasks[i]? = some (.execute d mark (command :: commands) followUps) ∧
        command.call? = some call ∧
        (callInterviewer b d.working call env t.before.books).1 =
          .wrapperError "SessionBudgetExceeded") ∨
      ∃ command inputs, t.before.world.tasks[i]? = some (.assess command inputs) ∧
        (callAssessor b command inputs env t.before.books).1 =
          .wrapperError "SessionBudgetExceeded") := by
  -- Of all the outcomes, only this one counts as the budget error.
  have hkind : ∀ {α : Type} {outcome : CallOutcome α}, outcome.exceeded = true →
      outcome = .wrapperError "SessionBudgetExceeded" := by
    intro α outcome houtcome
    cases outcome with
    | wrapperError kind => rw [of_decide_eq_true houtcome]
    | _ => cases houtcome
  unfold exceeds at h
  cases hevent : t.event with
  | post text =>
      rw [hevent] at h
      cases h
  | run i now env =>
      rw [hevent] at h
      refine ⟨i, now, env, rfl, ?_⟩
      dsimp only at h
      unfold Booked.answer at h
      -- The call that the step makes tells which task has made it.
      cases hc : t.before.call? (.run i now env) with
      | none =>
          rw [hc] at h
          cases h
      | some call =>
          rw [hc] at h
          rw [Booked.call?] at hc
          cases ht : t.before.world.tasks[i]? with
          | none =>
              rw [ht] at hc
              cases hc
          | some task =>
              rw [ht, Option.bind_some] at hc
              cases task with
              | assess command inputs =>
                  cases hc
                  exact Or.inr ⟨command, inputs, rfl, hkind h⟩
              | execute d mark commands followUps =>
                  cases commands with
                  | nil => cases hc
                  | cons command commands =>
                      rw [ShellTask.agentCall?, Option.map_eq_some_iff] at hc
                      obtain ⟨c, hcall, rfl⟩ := hc
                      have hor : ((callInterviewer b d.working c env t.before.books).1.exceeded ||
                        false) = true := h
                      rw [Bool.or_false] at hor
                      exact Or.inl ⟨d, mark, command, commands, followUps, c, rfl, hcall,
                        hkind hor⟩
              | _ => cases hc

/-- After a call that has found the budget spent, it is. -/
theorem spent_of_exceeds {t : Taken Booked BookedChoice Effect}
    (hstep : bookedStep b t.before t.event = .ok (t.after, t.out)) (hcandid : t.event.Candid)
    (h : exceeds b t = true) :
    b.agents.settings.llmBudgetPerSessionUsd ≤ b.spent t.after.books := by
  obtain ⟨i, now, env, hevent, hcall⟩ := exceeds_cases h
  rw [hevent] at hcandid
  have hbooks := (bookedStep_ok b hstep).2
  rw [hevent] at hbooks
  rw [hbooks, Booked.after]
  rcases hcall with
    ⟨d, mark, command, commands, followUps, call, ht, hcall, hbudget⟩ |
      ⟨command, inputs, ht, hbudget⟩
  · rw [answer_of_call ht hcall]
    obtain ⟨invalid, hturn⟩ := callInterviewer_turn b d.working call env t.before.books
    dsimp only
    rw [hturn] at hbudget ⊢
    exact (spent_of_exceeded hcandid hbudget).2
  · have hanswer : t.before.answer b i now env = (⟨now, .raised,
        (callAssessor b command inputs env t.before.books).1⟩,
          (callAssessor b command inputs env t.before.books).2) := by
      have hc : t.before.call? (.run i now env) = some (.assessor command inputs) := by
        rw [Booked.call?, ht, Option.bind_some, ShellTask.agentCall?]
      rw [Booked.answer, hc]
      rfl
    rw [hanswer]
    obtain ⟨invalid, hturn⟩ := callAssessor_turn b command inputs env t.before.books
    dsimp only
    rw [hturn] at hbudget ⊢
    exact (spent_of_exceeded hcandid hbudget).2

end Spending

section Runs
variable [Scalars] {b : BookedService} {planInput : Dict String Json} {start : Instant}
  {ts : List (Taken Booked BookedChoice Effect)} {t : Taken Booked BookedChoice Effect}

theorem sequential_left {us vs : List (Taken Booked BookedChoice Effect)}
    (h : Sequential ((us ++ vs).map (shown b))) : Sequential (us.map (shown b)) := by
  rw [List.map_append] at h
  exact fun t ht => h t (List.mem_append_left _ ht)

theorem sequential_right {us vs : List (Taken Booked BookedChoice Effect)}
    (h : Sequential ((us ++ vs).map (shown b))) : Sequential (vs.map (shown b)) := by
  rw [List.map_append] at h
  exact fun t ht => h t (List.mem_append_right _ ht)

/-- A step of a sequential run keeps what the tasks have still to report mild, as
    long as its call does not report anything else. -/
theorem mild_of_step {P : String → Prop}
    (h : Run (bookedStep b) (opening b planInput start) ts t.before)
    (hstep : bookedStep b t.before t.event = .ok (t.after, t.out))
    (hts : Sequential ((ts ++ [t]).map (shown b)))
    (hcalls : ∀ i now env d mark command commands followUps call e, t.event = .run i now env →
      t.before.world.tasks[i]? = some (.execute d mark (command :: commands) followUps) →
      command.call? = some call → d.working.state = t.before.world.row.state →
      runInterviewer ⟨now, (callInterviewer b d.working call env t.before.books).1, .raised⟩ call =
        .ok e → e.Mild P t.before.world.row.state)
    (hmild : t.before.world.Mild P) : t.after.world.Mild P := by
  have hrun : Run (shellStep b.svc) (created b.svc planInput start) _ t.before.world :=
    shell_of_booked b h
  -- Each task works on a copy that is the row, since the run is sequential.
  have hmatch : ∀ (i : Nat) (task : ShellTask), t.before.world.tasks[i]? = some task →
      task.state? ≠ none → task.Matches b.svc t.before.world.row :=
    fun i task ht => matches_of_sequential b.svc hrun (sequential_left hts) ht
  refine mild_step b.svc hmatch (fun task htask => ((paced_of_run b.svc hrun).2 task htask).2)
    (sequential_right hts (shown b t) List.mem_cons_self) ?_ hmild
    (bookedStep_ok b hstep).1
  intro i o d mark command commands followUps call e hchoice ht hcall hr
  -- What the oracle is told is what the call has answered.
  change t.before.choice b t.event = .run i o at hchoice
  cases hevent : t.event with
  | post text =>
      rw [hevent] at hchoice
      cases hchoice
  | run j now env =>
      rw [hevent] at hchoice
      cases hchoice
      rw [answer_of_call ht hcall] at hr
      exact hcalls i now env d mark command commands followUps call e hevent ht hcall
        (hmatch i _ ht (Option.some_ne_none _)).1 hr

/-- A call whose budget error would be a second failure has been crossed. -/
theorem first_of_exceeded {i : Nat} {now : Instant} {env : TurnEnv} {d : Drive} {mark : Nat}
    {command : Command} {commands : List Command} {followUps : List Event} {call : RunInterviewer}
    (hevent : t.event = .run i now env) (hcandid : t.event.Candid)
    (ht : t.before.world.tasks[i]? = some (.execute d mark (command :: commands) followUps))
    (hcall : command.call? = some call)
    (hbudget : (callInterviewer b d.working call env t.before.books).1 =
      .wrapperError "SessionBudgetExceeded") (huncrossed : crossed b t = false) :
    d.working.state.interviewerFailureStreak < 1 := by
  by_contra hstreak
  have hc : t.before.call? (.run i now env) = some (.interviewer d.working call) := by
    rw [Booked.call?, ht, Option.bind_some, ShellTask.agentCall?, hcall]
    rfl
  -- A second failure would be one of a move that has failed before.
  have hdegraded : degraded t = true := by
    unfold degraded
    rw [hevent]
    dsimp only
    rw [ht]
    dsimp only
    rw [hcall, Option.isSome_some, Bool.true_and, decide_eq_true_iff]
    omega
  unfold crossed at huncrossed
  rw [hevent] at huncrossed
  dsimp only at huncrossed
  rw [hc] at huncrossed
  dsimp only at huncrossed
  rw [hdegraded, Bool.true_and, List.any_eq_false] at huncrossed
  -- Then some attempt finds the budget spent, and the step is crossed after all.
  obtain ⟨invalid, hturn⟩ := callInterviewer_turn b d.working call env t.before.books
  rw [hturn] at hbudget
  rw [hevent] at hcandid
  obtain ⟨a, ha, hspent⟩ := (spent_of_exceeded hcandid hbudget).1
  exact huncrossed a ha (decide_eq_true hspent)

/-- The budget errors that a task has still to report are first failures. -/
theorem mild_of_uncrossed {s : Booked} (h : Run (bookedStep b) (opening b planInput start) ts s)
    (hts : Sequential (ts.map (shown b))) (hcandid : ∀ t ∈ ts, t.event.Candid)
    (huncrossed : ∀ t ∈ ts, crossed b t = false) :
    s.world.Mild (fun kind => kind = "SessionBudgetExceeded") := by
  induction h with
  | nil =>
      intro task htask e he
      rw [opening, created, List.mem_singleton] at htask
      rw [htask] at he
      rw [List.mem_singleton.mp he]
      exact trivial
  | snoc ts a s c out hrun hab ih =>
      have hpre : Sequential (ts.map (shown b)) := sequential_left hts
      have hold := ih hpre (fun t ht => hcandid t (List.mem_append_left _ ht))
        (fun t ht => huncrossed t (List.mem_append_left _ ht))
      have hlast : ⟨a, c, s, out⟩ ∈ ts ++ [⟨a, c, s, out⟩] :=
        List.mem_append_right _ List.mem_cons_self
      refine mild_of_step (t := ⟨a, c, s, out⟩) hrun hab hts ?_ hold
      intro i now env d mark command commands followUps call e hevent ht hcall hstate hr
      -- Only the budget error of the wrapper is counted, and that one is a first failure.
      unfold runInterviewer at hr
      dsimp only at hr
      cases houtcome : (callInterviewer b d.working call env a.books).1 with
      | budgetExceeded =>
          rw [houtcome] at hr
          cases hr
          rfl
      | outputInvalid =>
          rw [houtcome] at hr
          cases hr
          exact fun hkind => absurd hkind (by decide)
      | wrapperError kind =>
          rw [houtcome] at hr
          cases hr
          intro hkind
          rw [hkind] at houtcome
          have hfirst := first_of_exceeded hevent (hcandid _ hlast) ht hcall houtcome
            (huncrossed ⟨a, c, s, out⟩ hlast)
          rwa [hstate] at hfirst
      | output value =>
          rw [houtcome] at hr
          cases hr
          exact trivial
      | raised =>
          rw [houtcome] at hr
          cases hr

variable (b)

/-- The session has spent its budget, and no failure that is still to be reported
    is a second one. -/
structure Spent (s : Booked) : Prop where
  reached : b.ceiling ≤ b.spent s.books
  mild : s.world.Mild (fun _ => True)
  reason : s.world.row.state.abortReason ≠ some .fatalAgentError

variable {b}

/-- Nothing that is spent is given back, and the guard refuses every further call. -/
theorem spent_step (h : Run (bookedStep b) (opening b planInput start) ts t.before)
    (hstep : bookedStep b t.before t.event = .ok (t.after, t.out))
    (hts : Sequential ((ts ++ [t]).map (shown b))) (henforced : t.event.enforced = true)
    (hspent : Spent b t.before) : Spent b t.after := by
  obtain ⟨hshell, hbooks⟩ := bookedStep_ok b hstep
  refine ⟨?_, ?_, fun hfatal => hspent.reason ?_⟩
  · rw [hbooks]
    exact le_trans hspent.reached (spent_le_after t.before t.event)
  · refine mild_of_step h hstep hts ?_ hspent.mild
    intro i now env d mark command commands followUps call e hevent ht hcall hstate hr
    rw [hevent] at henforced
    rw [refused_of_spent d.working call henforced hspent.reached] at hr
    cases hr
    rfl
  · -- The reason: what has been stored was mild, and so is not fatal.
    have hrun : Run (shellStep b.svc) (created b.svc planInput start) _ t.before.world :=
      shell_of_booked b h
    have hpre : Sequential (ts.map (shown b)) := sequential_left hts
    rcases shellStep_cases b.svc hshell with
      ⟨text, -, hworld, -⟩ | ⟨i, o, task, p, -, ht, hp, hworld, -⟩
    · rw [hworld] at hfatal
      exact hfatal
    · rw [hworld] at hfatal
      rcases stored_of_taskStep b.svc (matches_of_sequential b.svc hrun hpre ht) hp with
        hsame | ⟨d, e, commands, rfl, -, hr⟩
      · rwa [hsame] at hfatal
      · have hinv : StateInv b.svc.config p.row.state := by
          have hafter : Run (shellStep b.svc) (created b.svc planInput start) _ t.after.world :=
            shell_of_booked b (h.snoc ts t.before t.after t.event t.out hstep)
          obtain ⟨ms, hms⟩ := stored_state_reachable b.svc hafter
          rw [hworld] at hms
          exact SessionRun.stateInv hms
        exact fatal_of_transition hinv hr
          (hspent.mild _ (List.mem_of_getElem? ht) e List.mem_cons_self) hfatal

/-- A call of a live session that ends with the budget error leaves it spent. -/
theorem spent_of_exceeding (h : Run (bookedStep b) (opening b planInput start) ts t.before)
    (hstep : bookedStep b t.before t.event = .ok (t.after, t.out))
    (hceiling : b.ceiling = b.agents.settings.llmBudgetPerSessionUsd)
    (hts : Sequential ((ts ++ [t]).map (shown b))) (hcandid : t.event.Candid)
    (hmild : t.after.world.Mild (fun kind => kind = "SessionBudgetExceeded"))
    (hexceeds : exceeds b t = true) (hlive : live t.before.world.row.state) :
    Spent b t.after := by
  have hrun : Run (shellStep b.svc) (created b.svc planInput start) _ t.before.world :=
    shell_of_booked b h
  have hreached : b.ceiling ≤ b.spent t.after.books := by
    rw [hceiling]
    exact spent_of_exceeds hstep hcandid hexceeds
  obtain ⟨i, now, env, hevent, hcalls⟩ := exceeds_cases hexceeds
  rcases bookedStep_cases hstep with
    ⟨text, hpost, -, -⟩ | ⟨i', now', env', task, p, hevent', ht, hp, -, hafter⟩
  · rw [hevent] at hpost
    cases hpost
  · rw [hevent] at hevent'
    cases hevent'
    -- The call itself leaves the row alone.
    have hrow : t.after.world.row.state = p.row.state := by rw [hafter]
    have hfinish : p.row = t.before.world.row → (∀ e ∈ p.task.events,
        e.Mild (fun _ => True) t.after.world.row.state) → Spent b t.after := by
      intro hkept hevents
      refine ⟨hreached, fun u hu e he => ?_, fun hfatal => ?_⟩
      · obtain ⟨j, hj⟩ := List.mem_iff_getElem?.mp hu
        rw [hafter] at hj
        obtain ⟨hself, hothers⟩ := rests_moved p.task ht
          (rests_of_sequential hevent (sequential_right hts)) (taskStep_spawned b.svc hp)
        by_cases hji : j = i
        · rw [hji] at hj
          cases Option.some.inj (hself.symm.trans hj)
          exact hevents e he
        · rw [ShellTask.events_of_rests (hothers j u hji hj)] at he
          exact absurd he List.not_mem_nil
      · obtain ⟨ms, hms⟩ := stored_state_reachable b.svc hrun
        have hinv := SessionRun.stateInv hms
        rw [hrow, hkept] at hfatal
        have haborted : Aborted t.before.world.row.state :=
          hinv.abortReason.mp (by rw [hfatal]; rfl)
        exact not_live_of_aborted haborted hlive
    rcases hcalls with
      ⟨d, mark, command, commands, followUps, call, ht', hcall, hbudget⟩ |
        ⟨command, inputs, ht', hbudget⟩
    · cases Option.some.inj (ht.symm.trans ht')
      have hfailed : runInterviewer (t.before.answer b i now env).1 call =
          .ok (.interviewerFailed call.turnId "SessionBudgetExceeded" now) := by
        rw [answer_of_call ht hcall, runInterviewer, hbudget]
      rw [taskStep_of_call b.svc hcall hfailed] at hp
      cases hp
      refine hfinish rfl (fun e he => ?_)
      obtain ⟨hnone, -, -, -⟩ :=
        ((paced_of_run b.svc hrun).2 _ (List.mem_of_getElem? ht)).2.of_call hcall
      have hself : e.Mild (fun kind => kind = "SessionBudgetExceeded")
          t.after.world.row.state := by
        refine hmild _ ?_ e he
        rw [hafter]
        refine List.mem_append_left _ (List.mem_set (List.getElem?_eq_some_iff.mp ht).1 _)
      change e ∈ d.queue ++ (followUps ++ _) at he
      rw [← List.append_assoc, hnone, List.nil_append, List.mem_singleton] at he
      rw [he] at hself ⊢
      exact fun _ => hself rfl
    · cases Option.some.inj (ht.symm.trans ht')
      have hc : t.before.call? (.run i now env) = some (.assessor command inputs) := by
        rw [Booked.call?, ht, Option.bind_some, ShellTask.agentCall?]
      have hfailed : runAssessor (t.before.answer b i now env).1 command =
          .ok (.assessmentFailed command.turnId "SessionBudgetExceeded" now) := by
        rw [Booked.answer, hc]
        change runAssessor ⟨now, .raised,
          (callAssessor b command inputs env t.before.books).1⟩ command = _
        rw [runAssessor, hbudget]
      rw [taskStep, hfailed] at hp
      cases hp
      refine hfinish rfl (fun e he => ?_)
      rw [List.mem_singleton.mp he]
      exact trivial

/-- Once a call of the live session has ended with the budget error, the session
    stays spent. -/
theorem spent_of_run {s : Booked} (h : Run (bookedStep b) (opening b planInput start) ts s)
    (hceiling : b.ceiling = b.agents.settings.llmBudgetPerSessionUsd)
    (hts : Sequential (ts.map (shown b))) (henforced : ∀ t ∈ ts, t.event.enforced = true)
    (hcandid : ∀ t ∈ ts, t.event.Candid) (huncrossed : ∀ t ∈ ts, crossed b t = false)
    (hexceeds : ∃ t ∈ ts, exceeds b t = true ∧ live t.before.world.row.state) : Spent b s := by
  induction h with
  | nil =>
      obtain ⟨t, ht, -⟩ := hexceeds
      exact absurd ht List.not_mem_nil
  | snoc ts a s c out hrun hab ih =>
      have hlast : ⟨a, c, s, out⟩ ∈ ts ++ [⟨a, c, s, out⟩] :=
        List.mem_append_right _ List.mem_cons_self
      obtain ⟨t, ht, hexceeding, hlive⟩ := hexceeds
      rcases List.mem_append.mp ht with ht | ht
      · have hpre : Sequential (ts.map (shown b)) := sequential_left hts
        have hold := ih hpre (fun t ht => henforced t (List.mem_append_left _ ht))
          (fun t ht => hcandid t (List.mem_append_left _ ht))
          (fun t ht => huncrossed t (List.mem_append_left _ ht)) ⟨t, ht, hexceeding, hlive⟩
        exact spent_step (t := ⟨a, c, s, out⟩) hrun hab hts (henforced _ hlast) hold
      · rw [List.mem_singleton.mp ht] at hexceeding hlive
        have hmild := mild_of_uncrossed (hrun.snoc ts a s c out hab) hts hcandid huncrossed
        exact spent_of_exceeding (t := ⟨a, c, s, out⟩) hrun hab hceiling hts (hcandid _ hlast) hmild
          hexceeding hlive

end Runs

/-- In a sequential run in which the ceiling is enforced and is the budget of the
    agents, every breach ends as the ceiling, as long as no attempt of a second
    call for a move finds the budget spent, and no backend raises the budget error
    itself. -/
theorem ceiling_of_uncrossed [Scalars] (b : BookedService) (planInput : Dict String Json)
    (now : Instant) (ts : List (Taken Booked BookedChoice Effect)) (s : Booked)
    (hceiling : b.ceiling = b.agents.settings.llmBudgetPerSessionUsd)
    (h : Run (bookedStep b) (opening b planInput now) ts s)
    (hts : Sequential (ts.map (shown b))) (henforced : ∀ t ∈ ts, t.event.enforced = true)
    (hcandid : ∀ t ∈ ts, t.event.Candid) (huncrossed : ∀ t ∈ ts, crossed b t = false) :
    EndsAsCeiling b ts s := by
  have hrun : Run (shellStep b.svc) (created b.svc planInput now) _ s.world :=
    shell_of_booked b h
  refine ⟨fun t ht e commands he hbreach hlive hdead => ?_, fun hexceeds => ?_,
    fun hw hreason => ?_⟩
  · -- A breach that is accepted ends the session: the prefix before it is mild.
    obtain ⟨us, vs, hsplit⟩ := List.append_of_mem ht
    obtain ⟨hbefore, hstep⟩ := h.split us t vs hsplit
    rw [hsplit] at hts
    have hpre : Sequential (us.map (shown b)) := sequential_left hts
    have hleft : ∀ u ∈ us, u ∈ ts := fun u hu => by
      rw [hsplit]
      exact List.mem_append_left _ hu
    have hmild := mild_of_uncrossed hbefore hpre (fun u hu => hcandid u (hleft u hu))
      (fun u hu => huncrossed u (hleft u hu))
    rcases bookedStep_cases hstep with
      ⟨text, -, hout, -⟩ | ⟨i, at', env, task, p, hevent, htask, hp, hout, hafter⟩
    · rw [hout] at he
      exact absurd he List.not_mem_nil
    · rw [hout] at he
      obtain ⟨d, rfl⟩ := accepted_of_taskStep b.svc hp he
      have hmatch : (ShellTask.persist d e commands).Matches b.svc t.before.world.row :=
        matches_of_sequential b.svc (shell_of_booked b hbefore) hpre htask (Option.some_ne_none _)
      cases hp
      rw [hafter] at hdead ⊢
      exact costCeiling_of_breach hmatch.1 hlive hbreach
        (hmild _ (List.mem_of_getElem? htask) e List.mem_cons_self) hdead
  · -- A budget error of a call leaves the total at the ceiling for good.
    have hspent := spent_of_run h hceiling hts henforced hcandid huncrossed hexceeds
    exact ⟨hspent.reason, fun hmem => hspent.reason (fatal_of_recorded b.svc hrun hts hmem)⟩
  · exact recorded_of_costCeiling b.svc hrun hts hw hreason

section SmallBreach

/-- The first answer to the first call of a move is not what was asked for, and
    uses the budget up. -/
def smallBreach : List BookedChoice :=
  bookedSteps 7 0 (smallTurnEnv (replying smallQuestionText true)) ++ .post "ready" ::
    bookedSteps 19 1 (smallTurnEnv (replying "oops" true))

theorem smallBreach_candid : ∀ c ∈ smallBreach, c.Candid := by
  intro c hc
  rcases List.mem_append.mp hc with hc | hc
  · rw [List.eq_of_mem_replicate hc]
    exact ⟨replying_candid _ _, replying_candid _ _⟩
  · rcases List.mem_cons.mp hc with rfl | hc
    · exact trivial
    · rw [List.eq_of_mem_replicate hc]
      exact ⟨replying_candid _ _, replying_candid _ _⟩

theorem ceiling_of_uncrossed_smallBreach : ∃ ts s, SmallBooked ts s ∧ s.world.settled ∧
    ts.any (@exceeds Scalars.strict smallBooked) = true ∧
    s.world.row.state.abortReason = some .costCeiling ∧
    @EndsAsCeiling Scalars.strict smallBooked ts s := by
  have hrec : (smallBookedRecord smallBreach).map (fun r =>
      (r.2.world.tasks.all ShellTask.over, r.1.any (@exceeds Scalars.strict smallBooked),
        sequentially (r.1.map (@shown Scalars.strict smallBooked)),
        r.1.all (fun t => t.event.enforced),
        r.1.all (fun t => !@crossed Scalars.strict smallBooked t),
        decide (r.2.world.row.state.abortReason = some .costCeiling)))
        = .ok (true, true, true, true, true, true) := by decide +kernel
  rcases exists_run_of_events _ _ _ _ _ hrec with ⟨ts, s, hrun, hevents, hproj⟩
  simp only [Prod.mk.injEq] at hproj
  obtain ⟨hover, hexceeds, hseq, henforced, huncrossed, hreason⟩ := hproj
  have hcandid : ∀ t ∈ ts, t.event.Candid := fun t ht =>
    smallBreach_candid t.event (hevents ▸ List.mem_map_of_mem ht)
  refine ⟨ts, s, hrun, settled_of_all hover, hexceeds, of_decide_eq_true hreason, ?_⟩
  exact @ceiling_of_uncrossed Scalars.strict smallBooked smallInput 0 ts s rfl hrun
    (sequential_of_check hseq) (List.all_eq_true.mp henforced) hcandid
    (fun t ht => Bool.eq_false_of_not_eq_true' (List.all_eq_true.mp huncrossed t ht))

/-- The first call of a move gets no answer. The first answer to the second one is
    not what was asked for, and uses the budget up. -/
def smallCrossing : List BookedChoice :=
  bookedSteps 7 0 (smallTurnEnv (replying smallQuestionText true)) ++ .post "ready" ::
    bookedSteps 5 1 (smallTurnEnv (hanging true)) ++
    bookedSteps 14 1 (smallTurnEnv (replying "oops" true))

/-- The guard lets the second call for a move pass, and the wrapper refuses its
    second attempt: the session ends as an agent's failure. -/
theorem crossed_retry_is_fatal : ∃ ts s, SmallBooked ts s ∧
    Sequential (ts.map (@shown Scalars.strict smallBooked)) ∧
    (∀ t ∈ ts, t.event.enforced = true) ∧ s.world.settled ∧
    s.world.row.state.abortReason = some .fatalAgentError ∧
    s.world.decisions = ["agent_failure"] ∧ ¬ @EndsAsCeiling Scalars.strict smallBooked ts s := by
  have hrec : (smallBookedRecord smallCrossing).map (fun r =>
      (r.2.world.tasks.all ShellTask.over,
        r.1.any (fun t => @exceeds Scalars.strict smallBooked t &&
          decide (live t.before.world.row.state)),
        sequentially (r.1.map (@shown Scalars.strict smallBooked)),
        r.1.all (fun t => t.event.enforced),
        decide (r.2.world.row.state.abortReason = some .fatalAgentError),
        decide (r.2.world.decisions = ["agent_failure"])))
        = .ok (true, true, true, true, true, true) := by decide +kernel
  rcases exists_run_of_record _ _ _ _ _ hrec with ⟨ts, s, hrun, hproj⟩
  simp only [Prod.mk.injEq] at hproj
  obtain ⟨hover, hexceeds, hseq, henforced, hreason, hdecisions⟩ := hproj
  have hfatal : s.world.row.state.abortReason = some .fatalAgentError := of_decide_eq_true hreason
  refine ⟨ts, s, hrun, sequential_of_check hseq, List.all_eq_true.mp henforced,
    settled_of_all hover, hfatal, of_decide_eq_true hdecisions, ?_⟩
  rintro ⟨-, hsurfaces, -⟩
  obtain ⟨t, ht, hboth⟩ := List.any_eq_true.mp hexceeds
  rw [Bool.and_eq_true] at hboth
  exact (hsurfaces ⟨t, ht, hboth.1, of_decide_eq_true hboth.2⟩).1 hfatal

end SmallBreach

end TechScreen
