import Mathlib.Algebra.BigOperators.Group.List.Basic
import TechScreen.Orchestrator.Redelivery
import TechScreen.Services.Serial

/-!
# Turns Posted Again

The service names a candidate turn after the number of candidate turns that are
stored, so a turn that is posted again while the first call is still at work gets
the same name. Each of the two calls takes its transition on a copy of its own.
What the machine promises for repeated turns is promised for the transitions
that the tasks take, in the order in which they take them, whoever takes them.

An assessor task is scheduled for a `RunAssessor` that a transition has asked
for, so there are never more of the first than of the second.

## Main definitions

* `transitionsOf`: The transitions that the tasks of a run take.
* `assessorTasks`: The turns that assessor tasks are scheduled for.

## Theorems

* `step_of_transitionsOf`: They are transitions of the machine.
* `count_assessorTasks_le`: Assessor tasks are asked for by the machine.
* `reposted_once_iff`: When a repeated turn is assessed once.
-/

namespace TechScreen

open Lib

section Transitions
variable [Scalars] (svc : DevSession)

/-- The transition that a task takes at the top of its drive loop. -/
def ShellTask.transition? : ShellTask → Option (Taken SessionState Event Command)
  | .drive d =>
      match nextEvent svc d with
      | .persist d' e commands => some ⟨d.working.state, e, d'.working.state, commands⟩
      | _ => none
  | _ => none

/-- The transition that is taken in a step of the service, on a task's copy. -/
def transitionOf (t : Taken World Choice Effect) : Option (Taken SessionState Event Command) :=
  match t.event with
  | .run i _ => t.before.tasks[i]?.bind (ShellTask.transition? svc)
  | .post _ => none

/-- The transitions that the tasks of a run take, in the order of the steps. -/
def transitionsOf (ts : List (Taken World Choice Effect)) :
    List (Taken SessionState Event Command) :=
  ts.filterMap (transitionOf svc)

/-- A task takes transitions of the machine. -/
theorem step_of_transition? {task : ShellTask} {t : Taken SessionState Event Command}
    (h : task.transition? svc = some t) :
    step svc.config t.before t.event = .ok (t.after, t.out) := by
  cases task with
  | drive d =>
      rw [ShellTask.transition?] at h
      rcases nextEvent_cases svc d with hover | ⟨e, queue, r, _, hr, hnext⟩
      · cases hn : nextEvent svc d with
        | persist d' e commands =>
            rw [hn] at hover
            cases hover
        | assess | load | loadTranscript | drive | execute | save | done | failed =>
            rw [hn] at h
            cases h
      · rw [hnext, Option.some.injEq] at h
        rw [← h]
        exact (step_eq_ok_iff _ _ _ _ _).mpr hr
  | assess | load | loadTranscript | persist | execute | save | done | failed => cases h

theorem step_of_transitionsOf {ts : List (Taken World Choice Effect)} :
    ∀ t ∈ transitionsOf svc ts, step svc.config t.before t.event = .ok (t.after, t.out) := by
  intro t ht
  obtain ⟨u, _, hu⟩ := List.mem_filterMap.mp ht
  unfold transitionOf at hu
  cases hevent : u.event with
  | post text =>
      rw [hevent] at hu
      cases hu
  | run i o =>
      rw [hevent] at hu
      obtain ⟨task, _, htask⟩ := Option.bind_eq_some_iff.mp hu
      exact step_of_transition? svc htask

end Transitions

section Scheduling

/-- The turn that an assessor task is for. -/
def ShellTask.assesses? : ShellTask → Option Uuid
  | .assess c _ => some c.turnId
  | _ => none

/-- The turns whose assessor tasks are scheduled in a run, in order. -/
def assessorTasks (ts : List (Taken World Choice Effect)) : List Uuid :=
  ts.flatMap (fun t =>
    (t.after.tasks.drop t.before.tasks.length).filterMap ShellTask.assesses?)

/-- The turns whose assessor tasks a task has still to schedule. -/
def ShellTask.toSchedule : ShellTask → List Uuid
  | .persist _ _ commands => Docket.keys (scheduled commands)
  | .execute _ _ commands _ => Docket.keys (scheduled commands)
  | _ => []

/-- How often the tasks of the service have still to schedule a turn. -/
def World.toSchedule (w : World) (turn : Uuid) : Nat :=
  (w.tasks.map (fun task => task.toSchedule.count turn)).sum

/-- A task that moves takes its own share along. -/
theorem sum_moved {tasks : List ShellTask} {i : Nat} {task : ShellTask} (f : ShellTask → Nat)
    (hi : tasks[i]? = some task) (task' : ShellTask) :
    ((tasks.set i task').map f).sum + f task = (tasks.map f).sum + f task' := by
  obtain ⟨hi', hget⟩ := List.getElem?_eq_some_iff.mp hi
  have hlt : i < (tasks.map f).length := by
    rw [List.length_map]
    exact hi'
  have hself : (tasks.map f).set i (f task) = tasks.map f := by
    rw [← List.map_set, ← hget, List.set_getElem_self]
  have hafter := List.sum_set (tasks.map f) i (f task')
  have hbefore := List.sum_set (tasks.map f) i (f task)
  rw [hself] at hbefore
  rw [List.map_set]
  simp only [if_pos hlt] at hafter hbefore
  omega

variable [Scalars] (svc : DevSession)

/-- Only a `RunAssessor` schedules a task, and only one. -/
theorem spawned_of_executeOne {w : Working} {o : Oracle} {command : Command} {q : Performed}
    (h : executeOne svc w o command = .ok q) :
    q.spawned.filterMap ShellTask.assesses? = Docket.keys (scheduled [command]) := by
  have hpending : ∀ c : PendingCommand, executePending svc w o c = .ok q → q.spawned = [] := by
    intro c hc
    cases c with
    | runInterviewer c =>
        rw [executePending] at hc
        cases hr : runInterviewer o c with
        | error x =>
            rw [hr] at hc
            cases hc
        | ok e =>
            rw [hr] at hc
            cases hc
            rfl
    | deliverUtterance | emitScriptedOpening | emitScriptedClosing =>
        cases hc
        rfl
  cases command with
  | runInterviewer c =>
      rw [hpending (.runInterviewer c) h]
      rfl
  | reissuePendingCommand c =>
      rw [hpending c h]
      rfl
  | runAssessor | deliverUtterance | emitScriptedOpening | emitScriptedClosing | flagTurnDegraded
  | recordGap | recordDecision | endSession | persistState =>
      cases h
      rfl

/-- What a task schedules it had to schedule, and what it has to schedule a
    transition has asked for. -/
theorem toSchedule_of_taskStep {row : Working} {o : Oracle} {task : ShellTask} {p : Progress}
    (h : taskStep svc row o task = some p) (turn : Uuid) :
    (p.spawned.filterMap ShellTask.assesses?).count turn + p.task.toSchedule.count turn
      ≤ task.toSchedule.count turn
        + ((task.transition? svc).toList.flatMap (fun t => Docket.keys (scheduled t.out))).count
          turn := by
  cases move_of_taskStep svc h with
  | applied d e queue r hqueue hsteps hr =>
      -- The commands of the transition are what is to be scheduled now.
      have hnext : nextEvent svc d
          = .persist ⟨{ d.working with state := r.newState }, queue, d.steps + 1⟩ e r.commands :=
        congrArg Progress.task (Option.some.inj h)
      rw [ShellTask.transition?, hnext]
      simp only [List.filterMap_nil, List.count_nil, Option.toList_some, List.flatMap_cons,
        List.flatMap_nil, List.append_nil, ShellTask.toSchedule, Nat.zero_add, Nat.le_refl]
  | persisted d e commands => exact Nat.le_of_eq (Nat.zero_add _)
  | executed d mark command commands followUps q hone =>
      -- What the command schedules is no longer to be scheduled.
      have hsplit : scheduled (command :: commands)
          = scheduled [command] ++ scheduled commands := scheduled_append [command] commands
      simp only [ShellTask.toSchedule, hsplit, Docket.keys, List.map_append,
        List.count_append, spawned_of_executeOne svc hone]
      exact Nat.le_add_right _ _
  | crashed | assessed | loaded | admitted | refused | posted | drained | overran | stuck
  | spoken | unspoken | raised | saved => exact Nat.zero_le _

variable {svc} {planInput : Dict String Json} {now : Instant}
  {ts : List (Taken World Choice Effect)} {w : World}

/-- The tasks that a step of the service has scheduled, and those it has left to
    schedule, grow with what transitions ask for. -/
theorem toSchedule_of_shellStep {a b : World} {c : Choice} {out : List Effect}
    (h : shellStep svc a c = .ok (b, out)) (turn : Uuid) :
    (assessorTasks [⟨a, c, b, out⟩]).count turn + b.toSchedule turn ≤ a.toSchedule turn
      + (Docket.keys (scheduled (outputs (transitionsOf svc [⟨a, c, b, out⟩])))).count turn := by
  have hone : assessorTasks [⟨a, c, b, out⟩]
      = (b.tasks.drop a.tasks.length).filterMap ShellTask.assesses? := List.append_nil _
  rw [hone]
  rcases shellStep_cases svc h with ⟨text, rfl, rfl, rfl⟩ | ⟨i, o, task, p, rfl, hi, hp, rfl, rfl⟩
  · -- A request that arrives has nothing to schedule yet.
    simp only [World.toSchedule, List.drop_left, List.map_append, List.sum_append]
    exact Nat.le_of_eq (Nat.zero_add _)
  · have hlen : (a.tasks.set i p.task).length = a.tasks.length := List.length_set
    have hnew : (p.spawned.map (fun task => task.toSchedule.count turn)).sum = 0 := by
      refine List.sum_eq_zero (fun n hn => ?_)
      obtain ⟨u, hu, rfl⟩ := List.mem_map.mp hn
      obtain ⟨command, inputs, rfl⟩ := taskStep_spawned svc hp u hu
      rfl
    have hmoved := sum_moved (fun task => task.toSchedule.count turn) hi p.task
    have htask := toSchedule_of_taskStep svc hp turn
    have htaken : outputs (transitionsOf svc [⟨a, .run i o, ⟨p.row, a.decisions ++ p.decisions,
          a.tasks.set i p.task ++ p.spawned⟩, p.effects⟩])
        = (task.transition? svc).toList.flatMap Taken.out := by
      rw [transitionsOf, List.filterMap_cons, List.filterMap_nil, transitionOf]
      simp only [hi, Option.bind_some]
      cases task.transition? svc <;> rfl
    rw [htaken, scheduled, List.filterMap_flatMap, Docket.keys, List.map_flatMap]
    simp only [World.toSchedule, List.drop_left' hlen, List.map_append, List.sum_append, hnew]
    simp only [Docket.keys, scheduled] at htask
    omega

/-- No turn has more assessor tasks than transitions have asked for. -/
theorem count_assessorTasks_le (h : Run (shellStep svc) (created svc planInput now) ts w)
    (turn : Uuid) : (assessorTasks ts).count turn + w.toSchedule turn
      ≤ (Docket.keys (scheduled (outputs (transitionsOf svc ts)))).count turn := by
  induction h with
  | nil => exact Nat.le_refl _
  | snoc ts a b c out _ hab ih =>
      have hstep := toSchedule_of_shellStep hab turn
      have htasks : assessorTasks (ts ++ [⟨a, c, b, out⟩])
          = assessorTasks ts ++ assessorTasks [⟨a, c, b, out⟩] := List.flatMap_append
      have htransitions : transitionsOf svc (ts ++ [⟨a, c, b, out⟩])
          = transitionsOf svc ts ++ transitionsOf svc [⟨a, c, b, out⟩] := List.filterMap_append
      rw [htasks, htransitions, outputs, List.flatMap_append, scheduled_append, Docket.keys,
        List.map_append, List.count_append, List.count_append]
      rw [Docket.keys, outputs] at hstep ih
      omega

end Scheduling

/-- In an event sequence with redeliveries and in every interleaving of calls, no
    turn is assessed twice and no repeated turn uses up anything, exactly if no
    repeated turn is an answer that TECH awaits, in the state or in the copy that
    takes it. -/
theorem reposted_once_iff [Scalars] (svc : DevSession) :
    (∀ sessionId planInput ts s, SessionRun svc.config sessionId planInput ts s →
      (AssessedOnce ts ∧ s.tech.pendingAssessments.Nodup ↔ NoneAwaited ts)) ∧
    ∀ planInput now ts w, Run (shellStep svc) (created svc planInput now) ts w →
      (AssessedOnce (transitionsOf svc ts) ∧ (assessorTasks ts).Nodup
        ↔ NoneAwaited (transitionsOf svc ts)) := by
  constructor
  · intro sessionId planInput ts s h
    have hsteps : ∀ t ∈ ts, step svc.config t.before t.event = .ok (t.after, t.out) := by
      intro t ht
      obtain ⟨_, _, _, hstep⟩ := h.of_mem t ht
      exact hstep
    have hiff := assessedOnce_iff hsteps
    refine ⟨fun hboth => hiff.mp hboth.1, fun hnone => ⟨hiff.mpr hnone, ?_⟩⟩
    -- What is out is what it is known for, and that is a dictionary.
    rw [(h.docket (hnone.once hsteps)).2]
    exact s.tech.assessmentFocus.nodup
  · intro planInput now ts w h
    have hsteps : ∀ t ∈ transitionsOf svc ts, step svc.config t.before t.event
        = .ok (t.after, t.out) := step_of_transitionsOf svc
    have hiff := assessedOnce_iff hsteps
    refine ⟨fun hboth => hiff.mp hboth.1, fun hnone => ⟨hiff.mpr hnone, ?_⟩⟩
    rw [List.nodup_iff_count_le_one]
    intro turn
    have hcount := count_assessorTasks_le h turn
    have honce := List.nodup_iff_count_le_one.mp (hnone.once hsteps) turn
    omega

section SmallService

/-- The answer of the small interview, delivered again once its reply is there. -/
def redelivered : List Event :=
  smallEvents.take 5 ++ [.candidateTurnReceived ⟨101⟩ "an answer" 6000000]

/-- An answer that is posted twice before the first call has stored anything. -/
def postedTwice : List Choice :=
  smallOpening ++ [.post "an answer", .post "an answer"]
    ++ goes 2 2 (answering 2000000 "" "sql" 0) ++ goes 2 3 (answering 2000000 "" "sql" 0)
    ++ goes 3 2 (answering 2000000 "" "sql" 0) ++ goes 3 3 (answering 2000000 "" "sql" 0)

/-- A redelivered answer is assessed again once the next question has been asked,
    and two calls with the same answer schedule it twice. -/
theorem reposted_twice :
    (∃ ts s, SmallRun ts s ∧ Docket.keys (scheduled (outputs ts)) = [⟨101⟩, ⟨101⟩] ∧
      s.tech.pendingAssessments = [⟨101⟩, ⟨101⟩] ∧ ¬ AssessedOnce ts) ∧
    ∃ ts w turn, SmallShell ts w ∧ assessorTasks ts = [turn, turn] ∧
      ¬ AssessedOnce (@transitionsOf Scalars.strict smallService ts) := by
  constructor
  · have hrec : (smallRecord redelivered).map
        (fun r => (Docket.keys (scheduled (outputs r.1)), r.2.tech.pendingAssessments))
        = .ok ([⟨101⟩, ⟨101⟩], [⟨101⟩, ⟨101⟩]) := by decide +kernel
    obtain ⟨ts, s, hrun, hproj⟩ := exists_run_of_record _ _ _ _ _ hrec
    rw [Prod.mk.injEq] at hproj
    refine ⟨ts, s, hrun, hproj.1, hproj.2, fun hall => ?_⟩
    have honce := hall.once
    rw [hproj.1] at honce
    exact absurd honce (by decide)
  · have hrec : (smallShellRecord postedTwice).map (fun r => (assessorTasks r.1,
        Docket.keys (scheduled (outputs (@transitionsOf Scalars.strict smallService r.1)))))
        = .ok ([candidateTurnId smallId 1, candidateTurnId smallId 1],
          [candidateTurnId smallId 1, candidateTurnId smallId 1]) := by decide +kernel
    obtain ⟨ts, w, hrun, hproj⟩ := exists_run_of_record _ _ _ _ _ hrec
    rw [Prod.mk.injEq] at hproj
    refine ⟨ts, w, _, hrun, hproj.1, fun hall => ?_⟩
    have honce := hall.once
    rw [hproj.2, List.nodup_cons] at honce
    exact honce.1 List.mem_cons_self

/-- How many repeated turns are answers that TECH awaits. -/
def awaitedRepeats (ts : List (Taken SessionState Event Command)) : Nat :=
  countAlong (fun done t => t.event.turnId?.any (fun turn => turn ∈ candidateTurns done)
    && awaitsAnswer t.before t.event) [] ts

theorem noneAwaited_of_count {ts : List (Taken SessionState Event Command)}
    (h : awaitedRepeats ts = 0) : NoneAwaited ts := by
  rintro us t vs hts ⟨turn, hmem, hturn⟩
  have hfails := countAlong_eq_zero h us t vs hts
  simp only [List.nil_append, hturn, Option.any_some, hmem, decide_true, Bool.true_and] at hfails
  exact hfails

/-- The same answer, delivered again before its reply, is harmless; and so is a
    call that loads the row when the first one has stored its transition. -/
theorem reposted_once_iff_small :
    (∃ ts s, SmallRun ts s ∧ candidateTurns ts = [⟨100⟩, ⟨101⟩, ⟨101⟩] ∧ AssessedOnce ts) ∧
    ∃ ts w turn, SmallShell ts w ∧ assessorTasks ts = [turn] ∧
      AssessedOnce (@transitionsOf Scalars.strict smallService ts) := by
  constructor
  · have hrec : (smallRecord (smallEvents.take 4
          ++ [.candidateTurnReceived ⟨101⟩ "an answer" 3500000])).map
        (fun r => (candidateTurns r.1, awaitedRepeats r.1))
        = .ok ([⟨100⟩, ⟨101⟩, ⟨101⟩], 0) := by decide +kernel
    obtain ⟨ts, s, hrun, hproj⟩ := exists_run_of_record _ _ _ _ _ hrec
    rw [Prod.mk.injEq] at hproj
    exact ⟨ts, s, hrun, hproj.1, (((@reposted_once_iff Scalars.strict smallService).1 _ _ ts s
      hrun).mpr (noneAwaited_of_count hproj.2)).1⟩
  · have hrec : (smallShellRecord (smallOpening ++ [.post "an answer", .post "an answer"]
          ++ goes 5 2 (answering 2000000 "" "sql" 0)
          ++ goes 2 3 (answering 2000000 "" "sql" 0))).map (fun r => (assessorTasks r.1,
        awaitedRepeats (@transitionsOf Scalars.strict smallService r.1)))
        = .ok ([candidateTurnId smallId 1], 0) := by decide +kernel
    obtain ⟨ts, w, hrun, hproj⟩ := exists_run_of_record _ _ _ _ _ hrec
    rw [Prod.mk.injEq] at hproj
    exact ⟨ts, w, _, hrun, hproj.1, (((@reposted_once_iff Scalars.strict smallService).2 _ _ ts w
      hrun).mpr (noneAwaited_of_count hproj.2)).1⟩

end SmallService

end TechScreen
