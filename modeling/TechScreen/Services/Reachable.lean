import TechScreen.Services.Serial

/-!
# The Shell and the Machine

What the runs of the service have to do with the runs of the machine. However
the tasks interleave, the stored state and the copy of every task is a state
that the machine reaches, so what holds of all reachable states holds of them.
In an up-to-date run more is true: the stored state is the end of the machine's
run over the accepted events, and the commands that were asked for are that
run's outputs.

The runs in which calls and tasks are executed one after another are up to
date.

## Main definitions

* `ShellTask.state?`: The machine state in a task's copy.
* `Sequential`: One call or task at a time.
* `requested`: The commands of the accepted events.

## Theorems

* `shell_states`: What transitions keep holds of every copy.
* `stored_state_reachable`: The stored state is a state of the machine.
* `load_document`: Decoding the stored document gives the state back.
* `upToDate_of_sequential`: Sequential runs are up to date.
* `machine_of_upToDate`: Up-to-date runs are runs of the machine.
-/

namespace TechScreen

open Lib

section States

/-- The machine state in the copy of a task that holds one. -/
def ShellTask.state? : ShellTask → Option SessionState
  | .loadTranscript _ s => some s
  | .drive d => some d.working.state
  | .persist d _ _ => some d.working.state
  | .execute d _ _ _ => some d.working.state
  | .save d _ _ => some d.working.state
  | .assess _ _ => none
  | .load _ => none
  | .done => none
  | .failed _ => none

/-- A property of states that holds of a task's copy. -/
def ShellTask.StateHas (P : SessionState → Prop) (task : ShellTask) : Prop :=
  ∀ s, task.state? = some s → P s

theorem stateHas_some {P : SessionState → Prop} {task : ShellTask} {s : SessionState}
    (h : task.state? = some s) (hs : P s) : task.StateHas P := by
  intro s' hs'
  rw [h, Option.some.injEq] at hs'
  rw [← hs']
  exact hs

theorem stateHas_none {P : SessionState → Prop} {task : ShellTask} (h : task.state? = none) :
    task.StateHas P := by
  intro s hs
  rw [h] at hs
  exact absurd hs (by simp)

variable [Scalars] (svc : DevSession) (P : SessionState → Prop)

/-- What transitions keep is kept by every step of a task, in the row and in its
    copy. -/
theorem taskStep_states
    (hP : ∀ s e r, P s → transition s e svc.config = .ok r → P r.newState) {row : Working}
    {o : Oracle} {task : ShellTask} {p : Progress} (hrow : P row.state) (htask : task.StateHas P)
    (h : taskStep svc row o task = some p) : P p.row.state ∧ p.task.StateHas P := by
  cases move_of_taskStep svc h with
  | crashed | assessed | refused | drained | overran | stuck | raised =>
      exact ⟨hrow, stateHas_none rfl⟩
  | loaded errand => exact ⟨hrow, stateHas_some rfl hrow⟩
  | admitted e state => exact ⟨hrow, stateHas_some rfl (htask state rfl)⟩
  | posted text state => exact ⟨hrow, stateHas_some rfl (htask state rfl)⟩
  | applied d e queue r hqueue hsteps hr =>
      -- The copy takes a transition, which keeps the property.
      exact ⟨hrow, stateHas_some rfl (hP _ e r (htask _ rfl) hr)⟩
  | persisted | saved =>
      -- The row becomes the copy.
      exact ⟨htask _ rfl, stateHas_some rfl (htask _ rfl)⟩
  | spoken | unspoken | executed => exact ⟨hrow, stateHas_some rfl (htask _ rfl)⟩

/-- The rule for every interleaving: what holds at the start and is kept by
    transitions holds of the stored state and of every copy of it. -/
theorem shell_states {planInput : Dict String Json} {now : Instant}
    {ts : List (Taken World Choice Effect)} {w : World}
    (hP : ∀ s e r, P s → transition s e svc.config = .ok r → P r.newState)
    (h0 : P (initialState svc.sessionId planInput svc.config))
    (h : Run (shellStep svc) (created svc planInput now) ts w) :
    P w.row.state ∧ ∀ task ∈ w.tasks, task.StateHas P := by
  refine h.invariant (fun w => P w.row.state ∧ ∀ task ∈ w.tasks, task.StateHas P) ⟨h0, ?_⟩
    (fun a c b out ha hab => ?_)
  · intro task htask
    rw [created, List.mem_singleton] at htask
    rw [htask]
    exact stateHas_some rfl h0
  · rcases shellStep_cases svc hab with
      ⟨text, _, rfl, _⟩ | ⟨i, o, task, p, _, ht, hp, rfl, _⟩
    · exact ⟨ha.1, forall_tasks_posted ha.2 (stateHas_none rfl)⟩
    · rcases taskStep_states svc P hP ha.1 (ha.2 task (List.mem_of_getElem? ht)) hp with
        ⟨hrow, hmoved⟩
      refine ⟨hrow, forall_tasks_moved ha.2 hmoved (fun t htask => ?_)⟩
      rcases taskStep_spawned svc hp t htask with ⟨c, inputs, rfl⟩
      exact stateHas_none rfl

omit P in
/-- The rule for tasks: what holds of the creation, of requests and of assessor
    tasks, and is kept when a task moves, holds of every task of every run. -/
theorem shell_tasks {planInput : Dict String Json} {now : Instant} {Q : ShellTask → Prop}
    (hcreated : Q (.drive ⟨⟨initialState svc.sessionId planInput svc.config, []⟩,
      [.sessionStarted now], 0⟩))
    (hpost : ∀ text, Q (.load (.postTurn text))) (hassess : ∀ c inputs, Q (.assess c inputs))
    (hstep : ∀ us a o task p, Run (shellStep svc) (created svc planInput now) us a →
      task ∈ a.tasks → taskStep svc a.row o task = some p → Q task → Q p.task)
    {ts : List (Taken World Choice Effect)} {w : World}
    (h : Run (shellStep svc) (created svc planInput now) ts w) : ∀ task ∈ w.tasks, Q task := by
  induction h with
  | nil =>
      intro task htask
      rw [created, List.mem_singleton] at htask
      rw [htask]
      exact hcreated
  | snoc ts a b c out hrun hab ih =>
      rcases shellStep_cases svc hab with
        ⟨text, _, rfl, _⟩ | ⟨i, o, task, p, _, ht, hp, rfl, _⟩
      · exact forall_tasks_posted ih (hpost text)
      · have hmem := List.mem_of_getElem? ht
        have hmoved := hstep ts a o task p hrun hmem hp (ih task hmem)
        refine forall_tasks_moved ih hmoved (fun t htask => ?_)
        rcases taskStep_spawned svc hp t htask with ⟨c, inputs, rfl⟩
        exact hassess c inputs

/-- However the tasks interleave, the stored state is a state of the machine. -/
theorem stored_state_reachable {planInput : Dict String Json} {now : Instant}
    {ts : List (Taken World Choice Effect)} {w : World}
    (h : Run (shellStep svc) (created svc planInput now) ts w) :
    ∃ ms, SessionRun svc.config svc.sessionId planInput ms w.row.state := by
  refine (shell_states svc (fun s => ∃ ms, SessionRun svc.config svc.sessionId planInput ms s)
    (fun s e r hs hr => ?_) ⟨[], Run.nil⟩ h).1
  rcases hs with ⟨ms, hms⟩
  exact ⟨_, hms.snoc ms s r.newState e r.commands
    ((step_eq_ok_iff svc.config s r.newState e r.commands).mpr hr)⟩

/-- A load decodes the stored document to the very state that was persisted. -/
theorem load_document {planInput : Dict String Json} {now : Instant}
    {ts : List (Taken World Choice Effect)} {w : World}
    (h : Run (shellStep svc) (created svc planInput now) ts w) :
    decodeSessionState (encodeSessionState w.row.state) svc.config.stateSchemaVersion
      = .ok w.row.state := by
  have hversion : w.row.state.stateSchemaVersion = svc.config.stateSchemaVersion :=
    (shell_states svc (fun s => s.stateSchemaVersion = svc.config.stateSchemaVersion)
      (fun s e r hs hr =>
        (stateSchemaVersion_of_edge svc.config (edge_of_transition hr)).trans hs) rfl h).1
  rw [← hversion]
  exact decodeSessionState_encode w.row.state

end States

section OneAtATime

/-- The task has not started, or is over. -/
def ShellTask.rests : ShellTask → Bool
  | .assess _ _ => true
  | .done => true
  | .failed _ => true
  | _ => false

/-- Calls and tasks are executed one after another: whenever something happens,
    every task that is under way is the one that moves. -/
def Sequential (ts : List (Taken World Choice Effect)) : Prop :=
  ∀ t ∈ ts, ∀ j task, t.before.tasks[j]? = some task →
    task.rests = true ∨ ∃ o, t.event = .run j o

theorem ShellTask.state?_of_rests {task : ShellTask} (h : task.rests = true) :
    task.state? = none := by
  cases task with
  | assess command inputs => rfl
  | done => rfl
  | failed error => rfl
  | _ => exact absurd h Bool.false_ne_true

theorem ShellTask.state?_of_writes {task : ShellTask} (h : task.writes = true) :
    task.state? ≠ none := by
  cases task with
  | persist d e commands => exact Option.some_ne_none _
  | save d mark followUps => exact Option.some_ne_none _
  | _ => exact absurd h Bool.false_ne_true

variable [Scalars] (svc : DevSession)

/-- A copy comes from a copy, or from a look at the row. -/
theorem reads_of_taskStep {row : Working} {o : Oracle} {task : ShellTask} {p : Progress}
    (hholds : p.task.state? ≠ none) (h : taskStep svc row o task = some p) :
    task.reads = true ∨ task.state? ≠ none := by
  cases move_of_taskStep svc h with
  | crashed | assessed => exact absurd rfl hholds
  | loaded errand => exact Or.inl rfl
  | admitted | refused | posted | drained | overran | stuck | applied | persisted | spoken
  | unspoken | raised | executed | saved => exact Or.inr (Option.some_ne_none _)

/-- When calls and tasks are executed one after another, the run is up to date:
    every task that holds a copy holds a current one, and there is at most one. -/
theorem sequential_run {planInput : Dict String Json} {now : Instant}
    {ts : List (Taken World Choice Effect)} {w : World}
    (h : Run (shellStep svc) (created svc planInput now) ts w) (hts : Sequential ts) :
    UpToDate ts ∧
      (∀ j task, w.tasks[j]? = some task → task.state? ≠ none →
        Current World.row looks (fun i => i = 0) ts j) ∧
      ∀ (j k : Nat) (t u : ShellTask), w.tasks[j]? = some t → w.tasks[k]? = some u →
        t.rests = false →
        u.rests = false → j = k := by
  induction h with
  | nil =>
      have hzero : ∀ j task, (created svc planInput now).tasks[j]? = some task → j = 0 := by
        intro j task htask
        cases j with
        | zero => rfl
        | succ j => simp only [created, List.getElem?_cons_succ, List.getElem?_nil,
            reduceCtorEq] at htask
      refine ⟨fun us t vs hts' => ?_, fun j task htask _ => ?_, fun j k t u ht hu _ _ => ?_⟩
      · simp only [List.nil_eq, List.append_eq_nil_iff, reduceCtorEq, and_false] at hts'
      · rw [current_nil]
        exact hzero j task htask
      · rw [hzero j t ht, hzero k u hu]
  | snoc ts a b c out hrun hab ih =>
      -- By induction on the run; the mover is the only task that is under way.
      rcases ih (fun t ht => hts t (List.mem_append_left _ ht)) with ⟨hdate, hcurrent, _⟩
      have hmover := hts ⟨a, c, b, out⟩ (List.mem_append_right _ (List.mem_singleton_self _))
      rcases shellStep_cases svc hab with
        ⟨text, rfl, rfl, rfl⟩ | ⟨i, o, task, p, rfl, ht, hp, hb, rfl⟩
      · have hrest : ∀ (j : Nat) (t : ShellTask), a.tasks[j]? = some t → t.rests = true := by
          intro j t htask
          rcases hmover j t htask with hrests | ⟨o, hevent⟩
          · exact hrests
          · exact absurd hevent (by simp)
        have hnew : ∀ (j : Nat) (t : ShellTask),
            (a.tasks ++ [ShellTask.load (.postTurn text)])[j]? = some t →
            t.rests = true ∨ (j = a.tasks.length ∧ t = .load (.postTurn text)) := by
          intro j t htask
          rcases Nat.lt_or_ge j a.tasks.length with hlt | hge
          · rw [List.getElem?_append_left hlt] at htask
            exact Or.inl (hrest j t htask)
          · rw [List.getElem?_append_right hge, List.getElem?_singleton] at htask
            split at htask
            · next hzero =>
                rw [Option.some.injEq] at htask
                exact Or.inr ⟨by omega, htask.symm⟩
            · exact absurd htask (by simp)
        refine ⟨(undisturbed_snoc _ _ _ _ _ _).mpr ⟨hdate, fun i hi => ?_⟩,
          fun j t htask hholds => ?_, fun j k t u htask hu hj hk => ?_⟩
        · rcases hi with ⟨o, task, hevent, _⟩
          exact absurd hevent (by simp)
        · rcases hnew j t htask with hrests | ⟨_, rfl⟩
          · exact absurd (ShellTask.state?_of_rests hrests) hholds
          · exact absurd rfl hholds
        · rcases hnew j t htask with hrests | ⟨hj', _⟩
          · exact absurd (hj.symm.trans hrests) Bool.false_ne_true
          · rcases hnew k u hu with hrests | ⟨hk', _⟩
            · exact absurd (hk.symm.trans hrests) Bool.false_ne_true
            · rw [hj', hk']
      · have hrest : ∀ (j : Nat) (t : ShellTask), j ≠ i → a.tasks[j]? = some t →
            t.rests = true := by
          intro j t hji htask
          rcases hmover j t htask with hrests | ⟨o', hevent⟩
          · exact hrests
          · rw [Choice.run.injEq] at hevent
            exact absurd hevent.1.symm hji
        have hnew : ∀ (j : Nat) (t : ShellTask), b.tasks[j]? = some t →
            (j = i ∧ t = p.task) ∨ t.rests = true := by
          intro j t htask
          rw [hb] at htask
          rcases getElem?_moved ht htask with hmoved | ⟨hji, htask⟩ | htask
          · exact Or.inl hmoved
          · exact Or.inr (hrest j t hji htask)
          · rcases taskStep_spawned svc hp t htask with ⟨c, inputs, rfl⟩
            exact Or.inr rfl
        refine ⟨(undisturbed_snoc _ _ _ _ _ _).mpr ⟨hdate, fun j hj => ?_⟩,
          fun j t htask hholds => ?_, fun j k t u htask hu hj hk => ?_⟩
        · rcases hj with ⟨o', task', hevent, htask', hwrites⟩
          exact hcurrent j task' htask' (ShellTask.state?_of_writes hwrites)
        · rcases hnew j t htask with ⟨rfl, rfl⟩ | hrests
          · rw [current_snoc]
            -- A task that writes has looked at the row in this step, and one that does not leaves
            -- it.
            cases hw : task.writes with
            | true => exact Or.inl ⟨o, task, rfl, ht, Or.inr hw⟩
            | false =>
                rcases reads_of_taskStep svc hholds hp with hr | hstate
                · exact Or.inl ⟨o, task, rfl, ht, Or.inl hr⟩
                · refine Or.inr ⟨hcurrent j task ht hstate, ?_⟩
                  rw [Keeps, hb]
                  exact taskStep_row svc hw hp
          · exact absurd (ShellTask.state?_of_rests hrests) hholds
        · rcases hnew j t htask with ⟨hji, _⟩ | hrests
          · rcases hnew k u hu with ⟨hki, _⟩ | hrests
            · rw [hji, hki]
            · exact absurd (hk.symm.trans hrests) Bool.false_ne_true
          · exact absurd (hj.symm.trans hrests) Bool.false_ne_true

theorem upToDate_of_sequential {planInput : Dict String Json} {now : Instant}
    {ts : List (Taken World Choice Effect)} {w : World}
    (h : Run (shellStep svc) (created svc planInput now) ts w) (hts : Sequential ts) :
    UpToDate ts := (sequential_run svc h hts).1

end OneAtATime

section Machine

/-- The commands of the accepted events, in order. -/
def requested (effects : List Effect) : List Command :=
  effects.flatMap (fun
    | .accepted _ commands => commands
    | _ => [])

theorem requested_append (xs ys : List Effect) :
    requested (xs ++ ys) = requested xs ++ requested ys :=
  List.flatMap_append

/-- Where nothing is accepted nothing is asked for. -/
theorem requested_eq_nil {effects : List Effect} (h : accepted effects = []) :
    requested effects = [] := by
  rw [requested, List.flatMap_eq_nil_iff]
  intro x hx
  cases x with
  | accepted e commands =>
      rw [accepted, List.filterMap_eq_nil_iff] at h
      exact absurd (h _ hx) (by simp)
  | interviewerCalled command inputs => rfl
  | assessorCalled command inputs => rfl

variable [Scalars] (svc : DevSession)

/-- The machine's run that a run of the service amounts to. -/
def Follows (planInput : Dict String Json) (outs : List Effect) (w : World) : Prop :=
  ∃ ms, SessionRun svc.config svc.sessionId planInput ms w.row.state ∧
    ms.map Taken.event = accepted outs ∧ outputs ms = requested outs

theorem follows_step {planInput : Dict String Json} {start : Working}
    {outs outs' out : List Effect} {a b : World} {c : Choice} {C : Nat → Prop}
    (hcoherent : Coherent svc start outs' a C) (hcommits : ∀ i, commits i ⟨a, c, b, out⟩ → C i)
    (h : Follows svc planInput outs a) (hstep : shellStep svc a c = .ok (b, out)) :
    Follows svc planInput (outs ++ out) b := by
  have hcalm : b.row.state = a.row.state → accepted out = [] →
      Follows svc planInput (outs ++ out) b := by
    intro hstate hout
    rcases h with ⟨ms, hrun, hevents, houtputs⟩
    refine ⟨ms, ?_, ?_, ?_⟩
    · rw [hstate]
      exact hrun
    · rw [accepted_append, hout, List.append_nil, hevents]
    · rw [requested_append, requested_eq_nil hout, List.append_nil, houtputs]
  rcases shellStep_cases svc hstep with
    ⟨text, rfl, rfl, rfl⟩ | ⟨i, o, task, p, rfl, ht, hp, rfl, rfl⟩
  · exact hcalm rfl rfl
  · have hquiet := hcoherent.quiet task (List.mem_of_getElem? ht)
    cases hw : task.writes with
    | false =>
        refine hcalm ?_ (taskStep_owes svc hquiet hw hp).2
        exact congrArg Working.state (taskStep_row svc hw hp)
    | true =>
        have hmatch := hcoherent.inStep i task ht (hcommits i ⟨o, task, rfl, ht, hw⟩)
        cases task with
        | persist d e commands =>
            cases hp
            rcases h with ⟨ms, hrun, hevents, houtputs⟩
            have hone := (step_eq_ok_iff svc.config _ _ _ _).mpr hmatch.1
            refine ⟨_, hrun.snoc ms _ d.working.state e commands hone, ?_, ?_⟩
            · rw [List.map_append, hevents, accepted_append]
              rfl
            · rw [outputs_snoc, houtputs, requested_append]
              simp only [requested, List.flatMap_cons, List.flatMap_nil, List.append_nil]
        | save d mark followUps =>
            cases hp
            exact hcalm hmatch.1 rfl
        | _ => exact absurd hw Bool.false_ne_true

/-- In an up-to-date run the stored state is the end of the machine's run over
    the accepted events, and the machine's outputs are the requested commands. -/
theorem machine_of_upToDate {planInput : Dict String Json} {now : Instant}
    {ts : List (Taken World Choice Effect)} {w : World}
    (h : Run (shellStep svc) (created svc planInput now) ts w) (hts : UpToDate ts) :
    Coherent svc (created svc planInput now).row (outputs ts) w
        (Current World.row looks (fun i => i = 0) ts) ∧
      Follows svc planInput (outputs ts) w := by
  refine Run.copies_invariant World.row looks commits (fun i => i = 0)
    (fun outs w C => Coherent svc (created svc planInput now).row outs w C ∧
      Follows svc planInput outs w)
    ⟨coherent_created, [], Run.nil, rfl, rfl⟩ (fun outs C a c b out ha hstep hcommits => ?_) h hts
  exact ⟨coherent_step ha.1 hstep hcommits, follows_step svc ha.1 hcommits ha.2 hstep⟩

end Machine

end TechScreen
