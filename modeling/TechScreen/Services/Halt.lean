import TechScreen.Services.BookedShell

/-!
# Unaudited Calls

A model call whose trace row is refused ends with an error that is meant to halt
the session. The shell makes no difference between this error and any other: it
tells the machine that the interviewer has failed, or that the assessment has.
The machine repeats a move that has failed once, and it goes on without an
assessment. So what halts the session is the second failure in a row.

From then on, as long as calls and tasks are executed one after another, nothing
is asked of the interviewer and nothing is said to the candidate, and the session
ends as aborted.

## Main definitions

* `loses`: A trace row of an attempt of the step is refused.
* `degraded`, `late`: The repetition of a move; a call after the end.
* `Heeded`: The first row that is refused is one of these.
* `Halts`: Nothing is asked and nothing is said after a refused row.

## Theorems

* `halted_step`, `doomed_step`: What one step preserves of a halted session.
* `halting_run`: A session that is about to halt does.
* `halts_of_heeded`: When a refused row halts the session.
* `first_loss_continues`: A refused row after which the interview goes on.
-/

namespace TechScreen

open Lib Llm

section Halting
variable (svc : DevSession)

def PendingCommand.utters : PendingCommand → Bool
  | .deliverUtterance _ => true
  | _ => false

/-- The command delivers an utterance. -/
def Command.utters : Command → Bool
  | .deliverUtterance _ => true
  | .reissuePendingCommand c => c.utters
  | _ => false

/-- The command asks nothing of the interviewer and says nothing to the
    candidate, and nothing comes of it. -/
def Command.Silent (c : Command) : Prop := c.followsUp = false ∧ c.utters = false

/-- The step executes the command. -/
def Executes (t : Taken World Choice Effect) (c : Command) : Prop :=
  ∃ i o d mark commands followUps, t.event = .run i o ∧
    t.before.tasks[i]? = some (.execute d mark (c :: commands) followUps)

/-- The commands that a task has left are silent. -/
def ShellTask.Silent : ShellTask → Prop
  | .persist _ _ commands => ∀ c ∈ commands, c.Silent
  | .execute _ _ commands _ => ∀ c ∈ commands, c.Silent
  | _ => True

def Aborted (s : SessionState) : Prop := s.phase = .aborted

instance (s : SessionState) : Decidable (Aborted s) :=
  inferInstanceAs (Decidable (s.phase = .aborted))

/-- The task works on an aborted copy, or on none. -/
def ShellTask.Halted (task : ShellTask) : Prop := task.StateHas Aborted ∧ task.Silent

/-- The session is over: the row says so, and so does every copy. -/
def World.Halted (w : World) : Prop := Aborted w.row.state ∧ ∀ task ∈ w.tasks, task.Halted

/-- The one event that the copy waits for is the second failure of its move. -/
structure Failing (d : Drive) (events : List Event) : Prop where
  one : ∃ c kind now, events = [.interviewerFailed c.turnId kind now] ∧
    Calling d.working.state c
  streak : 1 ≤ d.working.state.interviewerFailureStreak
  ladder : OnLadder d.working.state
  steps : (d.steps : Int) ≤ 1 + d.working.state.interviewerFailureStreak

/-- The task is about to abort the session. -/
def ShellTask.Doomed : ShellTask → Prop
  | .execute d _ commands followUps =>
      Failing d (d.queue ++ followUps) ∧ ∀ c ∈ commands, c.Silent
  | .save d _ followUps => Failing d (d.queue ++ followUps)
  | .drive d => Failing d d.queue
  | .persist d _ commands => Aborted d.working.state ∧ ∀ c ∈ commands, c.Silent
  | _ => False

/-- A task is about to abort the session, and no other one is under way. -/
def World.Doomed (w : World) : Prop :=
  ∃ (i : Nat) (task : ShellTask), w.tasks[i]? = some task ∧ task.Doomed ∧
    ∀ (j : Nat) (u : ShellTask), j ≠ i → w.tasks[j]? = some u → u.rests = true

/-- What a step executes and what it asks for is silent. -/
structure Hushed (t : Taken World Choice Effect) : Prop where
  executed : ∀ c, Executes t c → c.Silent
  asked : ∀ e commands, .accepted e commands ∈ t.out → ∀ c ∈ commands, c.Silent

theorem silent_abort (s : SessionState) (reason : AbortReason) (decision : DecisionReason) :
    ∀ c ∈ (abort s reason decision true).commands, c.Silent := by
  intro c hc
  have hcommands : (abort s reason decision true).commands
      = [.recordDecision ⟨decision⟩, .persistState] := rfl
  rw [hcommands] at hc
  simp only [List.mem_cons, List.not_mem_nil, or_false] at hc
  rcases hc with rfl | rfl
  · exact ⟨rfl, rfl⟩
  · exact ⟨rfl, rfl⟩

theorem ShellTask.halted_of_rests {task : ShellTask} (h : task.rests = true) : task.Halted := by
  refine ⟨stateHas_none (ShellTask.state?_of_rests h), ?_⟩
  cases task with
  | persist d e commands => cases h
  | execute d mark commands followUps => cases h
  | _ => exact trivial

variable [Scalars]

omit [Scalars] in
theorem not_live_of_aborted {s : SessionState} (h : Aborted s) : ¬ live s := by
  intro hlive
  refine hlive ?_
  rw [h]
  decide

/-- An aborted session ignores every event. -/
theorem transition_of_aborted {cfg : OrchestratorConfig} {s : SessionState} {e : Event}
    {r : TransitionResult} (h : Aborted s) (hr : transition s e cfg = .ok r) : r = ⟨s, []⟩ := by
  have hsink := (step_eq_ok_iff cfg s s e []).mp
    (step_of_terminal cfg (not_live_of_aborted h) e)
  exact Except.ok.inj (hr.symm.trans hsink)

/-- A silent command is executed without an event. -/
theorem executeOne_of_silent {w : Working} {o : Oracle} {c : Command} (h : c.Silent) :
    ∃ q, executeOne svc w o c = .ok q ∧ q.followUps = [] := by
  cases hone : executeOne svc w o c with
  | error x => exact absurd (Command.call_of_quiet h.1) (call_of_executeOne_error svc hone)
  | ok q =>
      have hlength := (followUps_of_executeOne svc hone).1
      rw [h.1, if_neg Bool.false_ne_true] at hlength
      exact ⟨q, rfl, List.eq_nil_of_length_eq_zero (Nat.le_zero.mp hlength)⟩

/-- A task that does not store an event accepts none. -/
theorem accepted_of_taskStep {row : Working} {o : Oracle} {task : ShellTask} {p : Progress}
    {e : Event} {commands : List Command} (h : taskStep svc row o task = some p)
    (he : .accepted e commands ∈ p.effects) : ∃ d, task = .persist d e commands := by
  have hcalls : ∀ w command, Effect.accepted e commands ∉ callsMade svc w o command := by
    intro w command hc
    unfold callsMade at hc
    split at hc
    · split at hc
      · cases List.mem_singleton.mp hc
      · exact absurd hc List.not_mem_nil
    · exact absurd hc List.not_mem_nil
  cases move_of_taskStep svc h with
  | persisted d e' commands' =>
      cases List.mem_singleton.mp he
      exact ⟨d, rfl⟩
  | crashed command inputs x hcall => cases List.mem_singleton.mp he
  | assessed command inputs e' hcall =>
      dsimp only at he
      split at he
      · cases List.mem_singleton.mp he
      · exact absurd he List.not_mem_nil
  | raised | executed => exact absurd he (hcalls _ _)
  | loaded | admitted | refused | posted | drained | overran | stuck | applied | spoken
  | unspoken | saved => exact absurd he List.not_mem_nil

/-- A task that is over stays over. -/
theorem taskStep_halted {row : Working} {o : Oracle} {task : ShellTask} {p : Progress}
    (hrow : Aborted row.state) (hhalted : task.Halted) (h : taskStep svc row o task = some p) :
    Aborted p.row.state ∧ p.task.Halted ∧
      ∀ e commands, .accepted e commands ∈ p.effects → ∀ c ∈ commands, c.Silent := by
  have hkeep : ∀ s e r, Aborted s → transition s e svc.config = .ok r → Aborted r.newState := by
    intro s e r hs hr
    rw [transition_of_aborted hs hr]
    exact hs
  obtain ⟨hstate, hsilent⟩ := hhalted
  obtain ⟨hrow', hstate'⟩ := taskStep_states svc Aborted hkeep hrow hstate h
  refine ⟨hrow', ⟨hstate', ?_⟩, ?_⟩
  · cases move_of_taskStep svc h with
    | crashed | assessed | loaded | admitted | refused | posted | drained | overran | stuck
    | spoken | unspoken | raised | saved => exact trivial
    | applied d e queue r hqueue hsteps hr =>
        -- An aborted copy takes the event without a command.
        rw [transition_of_aborted (hstate _ rfl) hr]
        exact fun c hc => absurd hc List.not_mem_nil
    | persisted d e commands => exact hsilent
    | executed d mark command commands followUps q hone =>
        exact fun c hc => hsilent c (List.mem_cons_of_mem command hc)
  · intro e commands he
    obtain ⟨d, rfl⟩ := accepted_of_taskStep svc h he
    exact hsilent

/-- A session that is over stays over, whoever moves. -/
theorem halted_step {a b : World} {c : Choice} {out : List Effect} (hw : a.Halted)
    (h : shellStep svc a c = .ok (b, out)) : b.Halted ∧ Hushed ⟨a, c, b, out⟩ := by
  obtain ⟨hrow, htasks⟩ := hw
  rcases shellStep_cases svc h with
    ⟨text, rfl, rfl, rfl⟩ | ⟨i, o, task, p, rfl, ht, hp, rfl, rfl⟩
  · refine ⟨⟨hrow, forall_tasks_posted htasks ⟨stateHas_none rfl, trivial⟩⟩, fun c hc => ?_,
      fun e commands he => ?_⟩
    · obtain ⟨i, o, d, mark, commands, followUps, hevent, -⟩ := hc
      cases hevent
    · exact absurd he List.not_mem_nil
  · have hmem := List.mem_of_getElem? ht
    obtain ⟨hrow', hmoved, hasked⟩ := taskStep_halted svc hrow (htasks task hmem) hp
    refine ⟨⟨hrow', forall_tasks_moved htasks hmoved (fun t htask => ?_)⟩, fun c hc => ?_, hasked⟩
    · rcases taskStep_spawned svc hp t htask with ⟨c, inputs, rfl⟩
      exact ⟨stateHas_none rfl, trivial⟩
    · obtain ⟨j, o', d, mark, commands, followUps, hevent, htask⟩ := hc
      cases hevent
      have hsilent := (htasks _ (List.mem_of_getElem? htask)).2
      exact hsilent c List.mem_cons_self

omit [Scalars] in
/-- The tasks after a step of the only one that is under way. -/
theorem rests_moved {a : World} {i : Nat} {task : ShellTask} (task' : ShellTask)
    {spawned : List ShellTask} (ht : a.tasks[i]? = some task)
    (hrest : ∀ (j : Nat) (u : ShellTask), j ≠ i → a.tasks[j]? = some u → u.rests = true)
    (hspawned : ∀ t ∈ spawned, ∃ c inputs, t = .assess c inputs) :
    (a.tasks.set i task' ++ spawned)[i]? = some task' ∧
      ∀ (j : Nat) (u : ShellTask), j ≠ i → (a.tasks.set i task' ++ spawned)[j]? = some u →
        u.rests = true := by
  have hlt : i < a.tasks.length := (List.getElem?_eq_some_iff.mp ht).1
  constructor
  · rw [List.getElem?_append_left (by rw [List.length_set]; exact hlt), List.getElem?_set_self hlt]
  · intro j u hji hu
    rcases getElem?_moved ht hu with ⟨heq, -⟩ | ⟨-, hold⟩ | hnew
    · exact absurd heq hji
    · exact hrest j u hji hold
    · obtain ⟨c, inputs, rfl⟩ := hspawned u hnew
      rfl

/-- The task that is about to abort the session gets on with it. -/
theorem taskStep_doomed {row : Working} {o : Oracle} {task : ShellTask} {p : Progress}
    (hdoomed : task.Doomed) (h : taskStep svc row o task = some p) :
    (p.task.Doomed ∨ Aborted p.row.state ∧ p.task.Halted) ∧
      ∀ e commands, .accepted e commands ∈ p.effects → ∀ c ∈ commands, c.Silent := by
  cases task with
  -- The failure is applied, and the transition aborts.
  | drive d =>
      obtain ⟨⟨c, kind, now, hqueue, hcalling⟩, hstreak, hladder, hsteps⟩ := hdoomed
      cases h
      have hr : transition d.working.state (.interviewerFailed c.turnId kind now) svc.config = _ :=
        transition_of_failed hcalling kind now
      rw [if_pos hstreak] at hr
      refine ⟨Or.inl ?_, fun e commands he => absurd he List.not_mem_nil⟩
      rw [nextEvent_of_single svc hqueue hladder hsteps hr]
      exact ⟨rfl, silent_abort _ _ _⟩
  -- The aborted state is stored, and only silent commands are left.
  | persist d e commands =>
      obtain ⟨haborted, hsilent⟩ := hdoomed
      cases h
      refine ⟨Or.inr ⟨haborted, stateHas_some rfl haborted, hsilent⟩, fun e' commands' he => ?_⟩
      cases List.mem_singleton.mp he
      exact hsilent
  | execute d mark commands followUps =>
      obtain ⟨hfailing, hsilent⟩ := hdoomed
      cases commands with
      | nil =>
          rw [taskStep] at h
          split at h
          · cases h
            exact ⟨Or.inl hfailing, fun e commands he => absurd he List.not_mem_nil⟩
          · cases h
            exact ⟨Or.inl ⟨hfailing.one, hfailing.streak, hfailing.ladder, hfailing.steps⟩,
              fun e commands he => absurd he List.not_mem_nil⟩
      | cons command commands =>
          have hone := hsilent command List.mem_cons_self
          obtain ⟨q, hq, hnone⟩ := executeOne_of_silent svc (w := d.working) (o := o) hone
          -- Silent commands call nobody.
          have hcalls : callsMade svc d.working o command = [] := by
            unfold callsMade
            rw [Command.call_of_quiet hone.1]
          rw [taskStep, hq] at h
          cases h
          rw [hcalls]
          refine ⟨Or.inl ⟨?_, fun c hc => hsilent c (List.mem_cons_of_mem command hc)⟩,
            fun e commands he => absurd he List.not_mem_nil⟩
          rw [hnone, List.append_nil]
          exact ⟨hfailing.one, hfailing.streak, hfailing.ladder, hfailing.steps⟩
  | save d mark followUps =>
      cases h
      exact ⟨Or.inl ⟨hdoomed.one, hdoomed.streak, hdoomed.ladder, hdoomed.steps⟩,
        fun e commands he => absurd he List.not_mem_nil⟩
  | _ => exact absurd hdoomed id

omit [Scalars] in
theorem ShellTask.rests_of_doomed {task : ShellTask} (h : task.Doomed) : task.rests = false := by
  cases task with
  | drive d => rfl
  | persist d e commands => rfl
  | execute d mark commands followUps => rfl
  | save d mark followUps => rfl
  | _ => exact absurd h id

/-- A session that is about to be aborted still is, or is over. -/
theorem doomed_step {a b : World} {c : Choice} {out : List Effect} (hw : a.Doomed)
    (hmover : ∀ (j : Nat) (task : ShellTask), a.tasks[j]? = some task →
      task.rests = true ∨ ∃ o, c = .run j o)
    (h : shellStep svc a c = .ok (b, out)) :
    (b.Doomed ∨ b.Halted) ∧ Hushed ⟨a, c, b, out⟩ := by
  obtain ⟨i, task, ht, hdoomed, hrest⟩ := hw
  -- The task is the one that moves.
  rcases hmover i task ht with hrests | ⟨o, rfl⟩
  · exact absurd (hrests.symm.trans (ShellTask.rests_of_doomed hdoomed)) (by simp)
  · rcases shellStep_cases svc h with
      ⟨text, hevent, -, -⟩ | ⟨j, o', task', p, hevent, ht', hp, rfl, rfl⟩
    · cases hevent
    · cases hevent
      rw [ht] at ht'
      cases ht'
      obtain ⟨hmoved, hasked⟩ := taskStep_doomed svc hdoomed hp
      obtain ⟨hself, hothers⟩ := rests_moved p.task ht hrest (taskStep_spawned svc hp)
      refine ⟨?_, fun c hc => ?_, hasked⟩
      · rcases hmoved with hstill | ⟨hrow, hhalted⟩
        · exact Or.inl ⟨i, p.task, hself, hstill, hothers⟩
        · refine Or.inr ⟨hrow, fun t htask => ?_⟩
          obtain ⟨j, hj⟩ := List.mem_iff_getElem?.mp htask
          by_cases hji : j = i
          · rw [hji] at hj
            cases Option.some.inj (hself.symm.trans hj)
            exact hhalted
          · exact ShellTask.halted_of_rests (hothers j t hji hj)
      · obtain ⟨j, o', d, mark, commands, followUps, hevent, htask⟩ := hc
        cases hevent
        cases Option.some.inj (ht.symm.trans htask)
        exact hdoomed.2 c List.mem_cons_self

/-- A session that is about to be aborted, or is over, asks nothing and says
    nothing any more, as long as calls and tasks are executed one after another. -/
theorem halting_run {a b : World} {ts : List (Taken World Choice Effect)}
    (h : Run (shellStep svc) a ts b) (hw : a.Doomed ∨ a.Halted) (hts : Sequential ts) :
    (b.Doomed ∨ b.Halted) ∧ ∀ t ∈ ts, Hushed t := by
  induction h with
  | nil => exact ⟨hw, fun t ht => absurd ht List.not_mem_nil⟩
  | snoc ts a' b' c out hrun hab ih =>
      obtain ⟨hstill, hhushed⟩ := ih (fun t ht => hts t (List.mem_append_left _ ht))
      have hmover := hts ⟨a', c, b', out⟩ (List.mem_append_right _ (List.mem_singleton_self _))
      have hone : (b'.Doomed ∨ b'.Halted) ∧ Hushed ⟨a', c, b', out⟩ := by
        rcases hstill with hdoomed | hhalted
        · exact doomed_step svc hdoomed hmover hab
        · obtain ⟨hb, hhush⟩ := halted_step svc hhalted hab
          exact ⟨Or.inr hb, hhush⟩
      refine ⟨hone.1, fun t ht => ?_⟩
      rcases List.mem_append.mp ht with ht | ht
      · exact hhushed t ht
      · rw [List.mem_singleton.mp ht]
        exact hone.2

omit [Scalars] in
/-- When everything has finished, the session is aborted. -/
theorem aborted_of_settled {w : World} (h : w.Doomed ∨ w.Halted) (hw : w.settled) :
    Aborted w.row.state := by
  rcases h with ⟨i, task, ht, hdoomed, -⟩ | hhalted
  · have hover := hw task (List.mem_of_getElem? ht)
    cases task with
    | done => exact absurd hdoomed id
    | failed x => exact absurd hdoomed id
    | _ => exact absurd hover Bool.false_ne_true
  · exact hhalted.1

end Halting

section Losses
variable [Scalars] (b : BookedService)

/-- A row of an attempt of the step's agent call is refused. -/
def loses (t : Taken Booked BookedChoice Effect) : Bool :=
  match t.event with
  | .post _ => false
  | .run i now env =>
      match t.before.call? (.run i now env) with
      | none => false
      | some call => (call.attempts b env t.before.books).any (fun a =>
          unwritten b.agents (call.context b env) a.1 a.2.1 a.2.2)

omit [Scalars] in
/-- The step is the second call for a move: the first one has failed. -/
def degraded (t : Taken Booked BookedChoice Effect) : Bool :=
  match t.event with
  | .post _ => false
  | .run i _ _ =>
      match t.before.world.tasks[i]? with
      | some (.execute d _ (command :: _) _) =>
          command.call?.isSome && decide (1 ≤ d.working.state.interviewerFailureStreak)
      | _ => false

omit [Scalars] in
/-- The step is an assessor call, and the session has been aborted already. -/
def late (t : Taken Booked BookedChoice Effect) : Bool :=
  match t.event with
  | .post _ => false
  | .run i _ _ =>
      match t.before.world.tasks[i]? with
      | some (.assess _ _) => decide (Aborted t.before.world.row.state)
      | _ => false

/-- The first step that loses a row repeats a move or comes after the end, and
    from then on calls and tasks are executed one after another. -/
def Heeded : List (Taken Booked BookedChoice Effect) → Prop
  | [] => True
  | t :: ts =>
      if loses b t = true then
        (degraded t = true ∨ late t = true) ∧ Sequential ((t :: ts).map (shown b))
      else Heeded ts

/-- Once a row is lost, nothing more is asked of the interviewer and nothing is
    said to the candidate, and the session ends as aborted. -/
structure Halts (ts : List (Taken Booked BookedChoice Effect)) (s : Booked) : Prop where
  hushed : ∀ us t vs, ts = us ++ t :: vs → loses b t = true → ∀ v ∈ vs, Hushed (shown b v)
  aborted : (∃ t ∈ ts, loses b t = true) → s.world.settled → Aborted s.world.row.state

variable {b}

/-- The first step that loses a row. -/
theorem Heeded.first {ts us vs : List (Taken Booked BookedChoice Effect)}
    {t : Taken Booked BookedChoice Effect} (h : Heeded b ts) (hts : ts = us ++ t :: vs)
    (hloses : loses b t = true) : ∃ us' t' vs', ts = us' ++ t' :: vs' ∧ loses b t' = true ∧
      (degraded t' = true ∨ late t' = true) ∧ Sequential ((t' :: vs').map (shown b)) ∧
        vs ⊆ vs' := by
  induction ts generalizing us with
  | nil => exact absurd hts (by simp)
  | cons u ts ih =>
      unfold Heeded at h
      by_cases hu : loses b u = true
      · rw [if_pos hu] at h
        refine ⟨[], u, ts, rfl, hu, h.1, h.2, ?_⟩
        cases us with
        | nil =>
            cases hts
            exact List.Subset.refl _
        | cons u' us =>
            rw [List.cons_append, List.cons.injEq] at hts
            rw [hts.2]
            intro v hv
            exact List.mem_append_right _ (List.mem_cons_of_mem t hv)
      · rw [if_neg hu] at h
        cases us with
        | nil =>
            cases hts
            exact absurd hloses hu
        | cons u' us =>
            rw [List.cons_append, List.cons.injEq] at hts
            obtain ⟨us', t', vs', hsplit, hfirst⟩ := ih h hts.2
            refine ⟨u :: us', t', vs', ?_, hfirst⟩
            rw [hsplit, List.cons_append]

/-- The condition, as a check. -/
def heeds (b : BookedService) : List (Taken Booked BookedChoice Effect) → Bool
  | [] => true
  | t :: ts =>
      if loses b t then (degraded t || late t) && sequentially ((t :: ts).map (shown b))
      else heeds b ts

theorem heeded_of_check {ts : List (Taken Booked BookedChoice Effect)}
    (h : heeds b ts = true) : Heeded b ts := by
  induction ts with
  | nil => exact trivial
  | cons t ts ih =>
      unfold heeds at h
      unfold Heeded
      by_cases ht : loses b t = true
      · rw [if_pos ht, Bool.and_eq_true, Bool.or_eq_true] at h
        rw [if_pos ht]
        exact ⟨h.1, sequential_of_check h.2⟩
      · rw [if_neg ht] at h
        rw [if_neg ht]
        exact ih h

/-- A refused row makes the second call for a move fail. -/
theorem failed_of_loses {t : Taken Booked BookedChoice Effect} {i : Nat} {now : Instant}
    {env : TurnEnv} {d : Drive} {mark : Nat} {command : Command} {commands : List Command}
    {followUps : List Event} {call : RunInterviewer} (hevent : t.event = .run i now env)
    (ht : t.before.world.tasks[i]? = some (.execute d mark (command :: commands) followUps))
    (hcall : command.call? = some call) (h : loses b t = true) :
    (t.before.answer b i now env).1.interviewer = .wrapperError "TraceWriteError" := by
  have hc : t.before.call? (.run i now env) = some (.interviewer d.working call) := by
    rw [Booked.call?, ht, Option.bind_some, ShellTask.agentCall?, hcall]
    rfl
  unfold loses at h
  rw [hevent] at h
  dsimp only at h
  rw [hc] at h
  obtain ⟨a, ha, hlost⟩ := List.any_eq_true.mp h
  rw [answer_of_call ht hcall]
  obtain ⟨invalid, hturn⟩ := callInterviewer_turn b d.working call env t.before.books
  dsimp only
  rw [hturn]
  exact raised_of_unwritten ha hlost

/-- The others rest when the one task that is under way moves. -/
theorem rests_of_sequential {t : Taken Booked BookedChoice Effect}
    {vs : List (Taken World Choice Effect)} {i : Nat} {now : Instant} {env : TurnEnv}
    (hevent : t.event = .run i now env) (hts : Sequential (shown b t :: vs)) (j : Nat)
    (u : ShellTask) (hji : j ≠ i) (hu : t.before.world.tasks[j]? = some u) : u.rests = true := by
  rcases hts (shown b t) List.mem_cons_self j u hu with hrests | ⟨o, hrun⟩
  · exact hrests
  · have hchoice : t.before.choice b t.event = .run j o := hrun
    rw [hevent] at hchoice
    cases hchoice
    exact absurd rfl hji

omit [Scalars] in
/-- A task that makes a call has nothing to say. -/
theorem utters_of_call {svc : DevSession} {d : Drive} {mark : Nat} {command : Command}
    {commands : List Command} {followUps : List Event} {call : RunInterviewer}
    (h : (ShellTask.execute d mark (command :: commands) followUps).Quiet svc)
    (hcall : command.call? = some call) : ∀ c ∈ commands, c.utters = false := by
  rcases h.2.2 with hcalls | ⟨-, hsay⟩
  · rw [hcalls command List.mem_cons_self] at hcall
    cases hcall
  · intro c hc
    have hnil := hsay c (List.mem_cons_of_mem command hc) d.working.state
    cases c with
    | deliverUtterance c => cases hnil
    | reissuePendingCommand c =>
        cases c with
        | deliverUtterance c => cases hnil
        | _ => rfl
    | _ => rfl

/-- The second call for a move that loses a row leaves a task that is about to
    abort the session. -/
theorem doomed_of_degraded {planInput : Dict String Json} {start : Instant}
    {us : List (Taken Booked BookedChoice Effect)} {t : Taken Booked BookedChoice Effect}
    {vs : List (Taken World Choice Effect)} (h : Run (bookedStep b) (opening b planInput start) us
      t.before) (hstep : bookedStep b t.before t.event = .ok (t.after, t.out))
    (hloses : loses b t = true) (hdegraded : degraded t = true)
    (hts : Sequential (shown b t :: vs)) : t.after.world.Doomed := by
  rcases bookedStep_cases hstep with
    ⟨text, hevent, -, -⟩ | ⟨i, now, env, task, p, hevent, ht, hp, -, hafter⟩
  · unfold degraded at hdegraded
    rw [hevent] at hdegraded
    cases hdegraded
  · have hrun : Run (shellStep b.svc) (created b.svc planInput start) _ t.before.world :=
      shell_of_booked b h
    have hmem := List.mem_of_getElem? ht
    obtain ⟨hladder, hpaced⟩ := (paced_of_run b.svc hrun).2 task hmem
    have hquiet := (tasks_redeemable b.svc hrun task hmem).1
    have hrest := rests_of_sequential hevent hts
    unfold degraded at hdegraded
    rw [hevent] at hdegraded
    dsimp only at hdegraded
    rw [ht] at hdegraded
    cases task with
    | execute d mark commands followUps =>
        cases commands with
        | nil => cases hdegraded
        | cons command commands =>
            simp only [Bool.and_eq_true, decide_eq_true_eq, Option.isSome_iff_exists] at hdegraded
            obtain ⟨⟨call, hcall⟩, hstreak⟩ := hdegraded
            -- The call that has lost its row comes back as a failure.
            have hlost := failed_of_loses hevent ht hcall hloses
            obtain ⟨hnone, hquietRest, hcalling, hsteps⟩ := hpaced.of_call hcall
            have hutters := utters_of_call hquiet hcall
            have hfailed : runInterviewer (t.before.answer b i now env).1 call = .ok
                (.interviewerFailed call.turnId "TraceWriteError"
                  (t.before.answer b i now env).1.now) := by
              rw [runInterviewer, hlost]
            rw [taskStep_of_call b.svc hcall hfailed] at hp
            cases hp
            rw [hafter]
            -- This task has the failure to report; all the others rest.
            obtain ⟨hself, hothers⟩ := rests_moved
              (.execute { d with working := d.working.append [] } mark commands (followUps ++
                [.interviewerFailed call.turnId "TraceWriteError"
                  (t.before.answer b i now env).1.now])) ht hrest
              (fun t ht => absurd ht List.not_mem_nil)
            refine ⟨i, _, hself, ⟨⟨⟨call, "TraceWriteError",
              (t.before.answer b i now env).1.now, ?_, hcalling⟩, hstreak,
              hladder d.working.state rfl, hsteps⟩,
              fun c hc => ⟨hquietRest c hc, hutters c hc⟩⟩, hothers⟩
            change d.queue ++ (followUps ++ _) = _
            rw [← List.append_assoc, hnone, List.nil_append]
    | _ => cases hdegraded

/-- An assessor call after the end leaves the session as it is. -/
theorem halted_of_late {t : Taken Booked BookedChoice Effect}
    {vs : List (Taken World Choice Effect)}
    (hstep : bookedStep b t.before t.event = .ok (t.after, t.out)) (hlate : late t = true)
    (hts : Sequential (shown b t :: vs)) : t.after.world.Halted := by
  have hbefore : t.before.world.Halted := by
    unfold late at hlate
    cases hevent : t.event with
    | post text =>
        rw [hevent] at hlate
        cases hlate
    | run i now env =>
        have hrest := rests_of_sequential hevent hts
        rw [hevent] at hlate
        dsimp only at hlate
        cases ht : t.before.world.tasks[i]? with
        | none =>
            rw [ht] at hlate
            cases hlate
        | some task =>
            rw [ht] at hlate
            cases task with
            | assess command inputs =>
                refine ⟨of_decide_eq_true hlate, fun u hu => ?_⟩
                obtain ⟨j, hj⟩ := List.mem_iff_getElem?.mp hu
                by_cases hji : j = i
                · rw [hji, ht] at hj
                  cases hj
                  exact ⟨stateHas_none rfl, trivial⟩
                · exact ShellTask.halted_of_rests (hrest j u hji hj)
            | _ => cases hlate
  exact (halted_step b.svc hbefore (bookedStep_ok b hstep).1).1

end Losses

/-- In a run in which the first refused row is that of the second call for a
    move, or of an assessor call after the session has been aborted, and in which
    calls and tasks are executed one after another from then on, an unaudited
    call halts the session. -/
theorem halts_of_heeded [Scalars] (b : BookedService) (planInput : Dict String Json)
    (now : Instant) (ts : List (Taken Booked BookedChoice Effect)) (s : Booked)
    (h : Run (bookedStep b) (opening b planInput now) ts s) (hts : Heeded b ts) :
    Halts b ts s := by
  have hhalting : ∀ us t vs, ts = us ++ t :: vs → loses b t = true →
      (∀ v ∈ vs, Hushed (shown b v)) ∧ (s.world.Doomed ∨ s.world.Halted) := by
    intro us t vs hsplit hloses
    obtain ⟨us', t', vs', hfirst, hloses', hkind, hseq, hsub⟩ := hts.first hsplit hloses
    obtain ⟨hbefore, hstep⟩ := h.split us' t' vs' hfirst
    have hafter : t'.after.world.Doomed ∨ t'.after.world.Halted := by
      rcases hkind with hdegraded | hlate
      · exact Or.inl (doomed_of_degraded hbefore hstep hloses' hdegraded hseq)
      · exact Or.inr (halted_of_late hstep hlate hseq)
    have hrest : Run (shellStep b.svc) t'.after.world (vs'.map (shown b)) s.world :=
      shell_of_booked b (h.rest us' t' vs' hfirst)
    obtain ⟨hend, hhushed⟩ := halting_run b.svc hrest hafter
      (fun v hv => hseq v (List.mem_cons_of_mem _ hv))
    exact ⟨fun v hv => hhushed _ (List.mem_map_of_mem (hsub hv)), hend⟩
  refine ⟨fun us t vs hsplit hloses => (hhalting us t vs hsplit hloses).1, ?_⟩
  rintro ⟨t, ht, hloses⟩ hsettled
  obtain ⟨us, vs, hsplit⟩ := List.append_of_mem ht
  exact aborted_of_settled (hhalting us t vs hsplit hloses).2 hsettled

section SmallLoss

/-- The first call of a move gets no answer, and the row of the second one is
    refused. -/
def smallLoss : List BookedChoice :=
  bookedSteps 7 0 (smallTurnEnv (replying smallQuestionText true)) ++ .post "ready" ::
    bookedSteps 5 1 (smallTurnEnv (hanging true)) ++
    bookedSteps 14 1 (smallTurnEnv (replying smallQuestionText false))

theorem halts_of_heeded_smallLoss : ∃ ts s, SmallBooked ts s ∧ s.world.settled ∧
    ts.any (@loses Scalars.strict smallBooked) = true ∧
    @Halts Scalars.strict smallBooked ts s := by
  have hrec : (smallBookedRecord smallLoss).map (fun r =>
      (r.2.world.tasks.all ShellTask.over, r.1.any (@loses Scalars.strict smallBooked),
        @heeds Scalars.strict smallBooked r.1)) = .ok (true, true, true) := by decide +kernel
  rcases exists_run_of_record _ _ _ _ _ hrec with ⟨ts, s, hrun, hproj⟩
  simp only [Prod.mk.injEq] at hproj
  exact ⟨ts, s, hrun, settled_of_all hproj.1, hproj.2.1,
    @halts_of_heeded Scalars.strict smallBooked smallInput 0 ts s hrun
      (@heeded_of_check Scalars.strict smallBooked ts hproj.2.2)⟩

/-- The row of the first call of a move is refused. -/
def smallContinuation : List BookedChoice :=
  bookedSteps 7 0 (smallTurnEnv (replying smallQuestionText true)) ++ .post "ready" ::
    bookedSteps 5 1 (smallTurnEnv (replying smallQuestionText false)) ++
    bookedSteps 15 1 (smallTurnEnv (replying smallQuestionText true))

/-- The first call of a move loses its row. The move is asked for again, the
    candidate is told the next question, and the session is not aborted. -/
theorem first_loss_continues : ∃ ts s, SmallBooked ts s ∧
    Sequential (ts.map (@shown Scalars.strict smallBooked)) ∧
    s.world.row.transcript.map TranscriptEntry.text = [openingScriptPath, "ready", "Joins?"] ∧
    ¬ @Halts Scalars.strict smallBooked ts s := by
  have hrec : (smallBookedRecord smallContinuation).map (fun r =>
      (r.2.world.tasks.all ShellTask.over, r.1.any (@loses Scalars.strict smallBooked),
        sequentially (r.1.map (@shown Scalars.strict smallBooked)),
        r.2.world.row.transcript.map TranscriptEntry.text,
        decide (Aborted r.2.world.row.state)))
        = .ok (true, true, true, [openingScriptPath, "ready", "Joins?"], false) := by
    decide +kernel
  rcases exists_run_of_record _ _ _ _ _ hrec with ⟨ts, s, hrun, hproj⟩
  simp only [Prod.mk.injEq] at hproj
  refine ⟨ts, s, hrun, sequential_of_check hproj.2.2.1, hproj.2.2.2.1, ?_⟩
  rintro ⟨-, haborted⟩
  exact of_decide_eq_false hproj.2.2.2.2 (haborted (List.any_eq_true.mp hproj.2.1)
    (settled_of_all hproj.1))

end SmallLoss

end TechScreen
