import TechScreen.Services.Interleaving

/-!
# Up-to-Date Persists Are Serial

The service with all of its tasks, and what its stored row amounts to. A run is
up to date when every persist is made by a task whose last look at the row, a
load or a persist of its own, still shows what the row holds. In such a run the
row that is left when everything has finished is the replay of the accepted
events in the order in which they were accepted.

The invariant has two sides. Either the row is that replay up to the entries
that one task owes, or the run can no longer finish up to date: a task owes
entries from a stale copy, or two tasks owe entries at once and whichever pays
first makes the other stale.

Nothing in the service makes a run up to date. An assessor task that has loaded
the row just before a candidate turn is answered puts the old row back when it
persists.

## Main definitions

* `looks`, `commits`: The accesses of a task to the row.
* `UpToDate`: The condition on a run.
* `World.owes`: What a task of the service owes.
* `Coherent`: The invariant.
* `Written`: What a step does to the row and to the debts.

## Theorems

* `written_of_step`: Every step of an up-to-date run is one of these.
* `serial_of_upToDate`: No update is lost in an up-to-date run.
* `stale_assessor_overwrites`: A candidate turn that is lost.
-/

namespace TechScreen

open Lib

section Accesses

/-- The task looks at the row in this step: it loads the state, or persists. -/
def looks (i : Nat) (t : Taken World Choice Effect) : Prop :=
  ∃ o task, t.event = .run i o ∧ t.before.tasks[i]? = some task ∧
    (task.reads = true ∨ task.writes = true)

/-- The task persists in this step. -/
def commits (i : Nat) (t : Taken World Choice Effect) : Prop :=
  ∃ o task, t.event = .run i o ∧ t.before.tasks[i]? = some task ∧ task.writes = true

/-- Every persist is made by a task that has looked at the row with no change of
    the row since. The creation of the session starts with what it has stored. -/
def UpToDate (ts : List (Taken World Choice Effect)) : Prop :=
  Undisturbed World.row looks commits (fun i => i = 0) ts

end Accesses

section Steps
variable [Scalars] (svc : DevSession)

/-- What a step of the service is. -/
theorem shellStep_cases {a b : World} {c : Choice} {out : List Effect}
    (h : shellStep svc a c = .ok (b, out)) :
    (∃ text, c = .post text ∧ b = { a with tasks := a.tasks ++ [.load (.postTurn text)] } ∧
      out = []) ∨
    ∃ i o task p, c = .run i o ∧ a.tasks[i]? = some task ∧ taskStep svc a.row o task = some p ∧
      b = ⟨p.row, a.decisions ++ p.decisions, a.tasks.set i p.task ++ p.spawned⟩ ∧
      out = p.effects := by
  cases c with
  | post text =>
      rw [shellStep, Except.ok.injEq, Prod.mk.injEq] at h
      exact Or.inl ⟨text, rfl, h.1.symm, h.2.symm⟩
  | run i o =>
      rw [shellStep] at h
      cases ht : a.tasks[i]? with
      | none => rw [ht] at h; exact absurd h (by simp)
      | some task =>
          cases hp : taskStep svc a.row o task with
          | none => simp only [ht, hp, reduceCtorEq] at h
          | some p =>
              simp only [ht, hp, Except.ok.injEq, Prod.mk.injEq] at h
              exact Or.inr ⟨i, o, task, p, rfl, ht, hp, h.1.symm, h.2.symm⟩

omit [Scalars] in
/-- The tasks after a step: the one that moved, the others, and the new ones. -/
theorem getElem?_moved {tasks spawned : List ShellTask} {i j : Nat} {task task' u : ShellTask}
    (hi : tasks[i]? = some task) (h : (tasks.set i task' ++ spawned)[j]? = some u) :
    (j = i ∧ u = task') ∨ (j ≠ i ∧ tasks[j]? = some u) ∨ u ∈ spawned := by
  rcases Nat.lt_or_ge j tasks.length with hj | hj
  · rw [List.getElem?_append_left (by rw [List.length_set]; exact hj), List.getElem?_set] at h
    have hlt : i < tasks.length := (List.getElem?_eq_some_iff.mp hi).1
    by_cases hij : i = j
    · rw [if_pos hij, if_pos hlt, Option.some.injEq] at h
      exact Or.inl ⟨hij.symm, h.symm⟩
    · rw [if_neg hij] at h
      exact Or.inr (Or.inl ⟨fun hji => hij hji.symm, h⟩)
  · rw [List.getElem?_append_right (by rw [List.length_set]; exact hj)] at h
    exact Or.inr (Or.inr (List.mem_of_getElem? h))

omit [Scalars] in
theorem forall_tasks_posted {Q : ShellTask → Prop} {tasks : List ShellTask} {text : String}
    (hold : ∀ t ∈ tasks, Q t) (hpost : Q (.load (.postTurn text))) :
    ∀ t ∈ tasks ++ [.load (.postTurn text)], Q t := by
  intro t htask
  rcases List.mem_append.mp htask with htask | htask
  · exact hold t htask
  · rw [List.mem_singleton.mp htask]
    exact hpost

omit [Scalars] in
/-- What holds of the tasks before a step, of the one that moved and of the new ones
    holds of the tasks after it. -/
theorem forall_tasks_moved {Q : ShellTask → Prop} {tasks spawned : List ShellTask} {i : Nat}
    {task' : ShellTask} (hold : ∀ t ∈ tasks, Q t) (hmoved : Q task')
    (hspawned : ∀ t ∈ spawned, Q t) : ∀ t ∈ tasks.set i task' ++ spawned, Q t := by
  intro t htask
  rcases List.mem_append.mp htask with htask | htask
  · rcases List.mem_or_eq_of_mem_set htask with htask | rfl
    · exact hold t htask
    · exact hmoved
  · exact hspawned t htask

/-- Only the execution of a `RunAssessor` schedules a task. -/
theorem spawned_of_taskStep {row : Working} {o : Oracle} {task t : ShellTask} {p : Progress}
    (ht : t ∈ p.spawned) (h : taskStep svc row o task = some p) :
    ∃ d mark c commands followUps, task = .execute d mark (.runAssessor c :: commands) followUps ∧
      t = .assess c (assessorInputs svc d.working c) := by
  cases move_of_taskStep svc h with
  | executed d mark command commands followUps q hone =>
      rcases (executeOne_ok svc hone).2.2 t ht with ⟨c, rfl, hassess⟩
      exact ⟨d, mark, c, commands, followUps, rfl, hassess⟩
  | crashed | assessed | loaded | admitted | refused | posted | drained | overran | stuck
  | applied | persisted | spoken | unspoken | raised | saved => exact absurd ht List.not_mem_nil

/-- Only assessor tasks are scheduled. -/
theorem taskStep_spawned {row : Working} {o : Oracle} {task : ShellTask} {p : Progress}
    (h : taskStep svc row o task = some p) : ∀ t ∈ p.spawned, ∃ c inputs, t = .assess c inputs := by
  intro t ht
  rcases spawned_of_taskStep svc ht h with ⟨d, mark, c, commands, followUps, _, hassess⟩
  exact ⟨c, _, hassess⟩

end Steps

section Debts
variable (svc : DevSession)

/-- The entries that a task of the service has still to store. -/
def World.owes (w : World) (i : Nat) : List TranscriptEntry :=
  match w.tasks[i]? with
  | some task => task.owes svc
  | none => []

theorem World.owes_of_task {w : World} {i : Nat} {task : ShellTask} (h : w.tasks[i]? = some task) :
    w.owes svc i = task.owes svc := by
  rw [World.owes, h]

theorem World.owes_of_settled {w : World} (h : w.settled) (i : Nat) : w.owes svc i = [] := by
  cases ht : w.tasks[i]? with
  | none => rw [World.owes, ht]
  | some task =>
      rw [World.owes_of_task svc ht]
      exact ShellTask.owes_of_over svc (h task (List.mem_of_getElem? ht))

/-- New tasks owe nothing. -/
theorem World.owes_append (w : World) (row : Working) (decisions : List String)
    (spawned : List ShellTask) (h : ∀ t ∈ spawned, t.owes svc = []) (j : Nat) :
    (World.mk row decisions (w.tasks ++ spawned)).owes svc j = w.owes svc j := by
  rcases Nat.lt_or_ge j w.tasks.length with hj | hj
  · simp only [World.owes, List.getElem?_append_left hj]
  · have hnone : w.tasks[j]? = none := List.getElem?_eq_none hj
    simp only [World.owes, List.getElem?_append_right hj, hnone]
    cases hs : spawned[j - w.tasks.length]? with
    | none => rfl
    | some t => exact h t (List.mem_of_getElem? hs)

section Moved
variable [Scalars] {a b : World} {i : Nat} {o : Oracle} {task : ShellTask} {p : Progress}

theorem World.owes_moved (ht : a.tasks[i]? = some task) (hp : taskStep svc a.row o task = some p)
    (hb : b = ⟨p.row, a.decisions ++ p.decisions, a.tasks.set i p.task ++ p.spawned⟩) :
    b.owes svc i = p.task.owes svc ∧ ∀ j, j ≠ i → b.owes svc j = a.owes svc j := by
  have hspawned : ∀ t ∈ p.spawned, t.owes svc = [] := by
    intro t htask
    rcases taskStep_spawned svc hp t htask with ⟨c, inputs, rfl⟩
    rfl
  have hlt : i < a.tasks.length := (List.getElem?_eq_some_iff.mp ht).1
  have hset : ∀ j, b.owes svc j
      = (World.mk p.row (a.decisions ++ p.decisions) (a.tasks.set i p.task)).owes svc j := by
    intro j
    rw [hb]
    exact World.owes_append svc ⟨p.row, a.decisions ++ p.decisions, a.tasks.set i p.task⟩ p.row _
      p.spawned hspawned j
  refine ⟨?_, fun j hj => ?_⟩
  · rw [hset, World.owes_of_task svc (List.getElem?_set_self hlt)]
  · rw [hset]
    simp only [World.owes, List.getElem?_set_ne (Ne.symm hj)]

end Moved

end Debts

section Invariant
variable [Scalars] (svc : DevSession)

/-- The run cannot finish up to date any more: somebody owes entries from a stale
    copy, or two tasks owe entries at once. -/
def Stuck (w : World) (current : Nat → Prop) : Prop :=
  (∃ i, w.owes svc i ≠ [] ∧ ¬ current i) ∨
    ∃ i j, i ≠ j ∧ w.owes svc i ≠ [] ∧ w.owes svc j ≠ []

/-- The row is the replay of the accepted events, up to the entries that are
    owed. -/
def Serial (start : Working) (outs : List Effect) (w : World) : Prop :=
  ∃ debt, replay svc start (accepted outs) = .ok ⟨w.row.state, w.row.transcript ++ debt⟩ ∧
    (∀ i, w.owes svc i ≠ [] → w.owes svc i = debt) ∧ (debt = [] ∨ ∃ i, w.owes svc i = debt)

/-- The invariant of up-to-date runs. -/
structure Coherent (start : Working) (outs : List Effect) (w : World) (current : Nat → Prop) :
    Prop where
  quiet : ∀ task ∈ w.tasks, task.Quiet svc
  inStep : ∀ i task, w.tasks[i]? = some task → current i → task.Matches svc w.row
  serial : Stuck svc w current ∨ Serial svc start outs w

/-- What a step of the service does to the row and to the debts: nothing, or one of
    the two persists of an event, from a current copy. -/
inductive Written (a b : World) (C C' : Nat → Prop) (out : List Effect) : Prop
  | calm (hrow : b.row = a.row) (howes : ∀ j, b.owes svc j = a.owes svc j)
      (hout : accepted out = []) (hC : ∀ j, a.owes svc j ≠ [] → C' j → C j)
  | persisted (i : Nat) (d : Drive) (e : Event) (commands : List Command)
      (hother : ∀ j, j ≠ i → b.owes svc j = a.owes svc j)
      (hC : ∀ j, j ≠ i → C' j → C j ∧ b.row = a.row) (hfree : a.owes svc i = [])
      (hmatch : (ShellTask.persist d e commands).Matches svc a.row) (hrow : b.row = d.working)
      (hself : b.owes svc i = commands.flatMap (Command.entries svc d.working.state))
      (hout : out = [.accepted e commands])
  | saved (i : Nat) (d : Drive) (mark : Nat) (followUps : List Event)
      (hother : ∀ j, j ≠ i → b.owes svc j = a.owes svc j)
      (hC : ∀ j, j ≠ i → C' j → C j ∧ b.row = a.row) (hcurrent : C i)
      (howes : a.owes svc i = d.working.transcript.drop mark)
      (hmatch : (ShellTask.save d mark followUps).Matches svc a.row) (hrow : b.row = d.working)
      (hself : b.owes svc i = []) (hout : accepted out = [])

variable {svc} {start : Working} {outs out : List Effect} {a b : World} {C C' : Nat → Prop}

theorem Serial.debt_eq_nil (h : Serial svc start outs a) (hfree : ∀ i, a.owes svc i = []) :
    replay svc start (accepted outs) = .ok a.row := by
  rcases h with ⟨debt, hreplay, _, hdebt | ⟨i, hi⟩⟩
  · rw [hreplay, hdebt, List.append_nil]
  · rw [hreplay, ← hi, hfree i, List.append_nil]

/-- A step that leaves the row and all debts alone. -/
theorem serial_of_calm (hrow : b.row = a.row) (howes : ∀ j, b.owes svc j = a.owes svc j)
    (hout : accepted out = []) (hC : ∀ j, a.owes svc j ≠ [] → C' j → C j)
    (h : Stuck svc a C ∨ Serial svc start outs a) :
    Stuck svc b C' ∨ Serial svc start (outs ++ out) b := by
  rcases h with (⟨j, hj, hstale⟩ | ⟨j, k, hjk, hj, hk⟩) | ⟨debt, hreplay, hsame, hdebt⟩
  · exact Or.inl (Or.inl ⟨j, by rw [howes]; exact hj, fun hc => hstale (hC j hj hc)⟩)
  · exact Or.inl (Or.inr ⟨j, k, hjk, by rw [howes]; exact hj, by rw [howes]; exact hk⟩)
  · refine Or.inr ⟨debt, ?_, fun j hj => ?_, hdebt.imp_right (fun ⟨j, hj⟩ => ⟨j, ?_⟩)⟩
    · rw [accepted_append, hout, List.append_nil, hrow]
      exact hreplay
    · rw [howes] at hj ⊢
      exact hsame j hj
    · rw [howes]
      exact hj

section Writers
variable {i : Nat} (hother : ∀ j, j ≠ i → b.owes svc j = a.owes svc j)
  (hC : ∀ j, j ≠ i → C' j → C j ∧ b.row = a.row)
include hother hC

omit [Scalars] in
/-- Changing the row makes everybody else who owes entries stale. -/
theorem stuck_of_change (hrow : b.row ≠ a.row) {j : Nat} (hj : j ≠ i) (howes : a.owes svc j ≠ []) :
    Stuck svc b C' :=
  Or.inl ⟨j, by rw [hother j hj]; exact howes, fun hc => hrow (hC j hj hc).2⟩

omit [Scalars] in
/-- A task that owes nothing resolves nothing by writing. -/
theorem stuck_of_stuck (hfree : a.owes svc i = []) (h : Stuck svc a C) :
    Stuck svc b C' := by
  have hne : ∀ j, a.owes svc j ≠ [] → j ≠ i := fun j hj hji => hj (by rw [hji, hfree])
  rcases h with ⟨j, hj, hstale⟩ | ⟨j, k, hjk, hj, hk⟩
  · refine Or.inl ⟨j, by rw [hother j (hne j hj)]; exact hj, fun hc => ?_⟩
    exact hstale (hC j (hne j hj) hc).1
  · refine Or.inr ⟨j, k, hjk, ?_, ?_⟩
    · rw [hother j (hne j hj)]
      exact hj
    · rw [hother k (hne k hk)]
      exact hk

/-- The first persist of an event: the event is accepted, and the task owes what
    its commands will add. -/
theorem serial_of_persist {d : Drive} {e : Event} {commands : List Command}
    (hfree : a.owes svc i = [])
    (hmatch : (ShellTask.persist d e commands).Matches svc a.row) (hrow : b.row = d.working)
    (hself : b.owes svc i = commands.flatMap (Command.entries svc d.working.state))
    (hout : accepted out = [e]) (h : Stuck svc a C ∨ Serial svc start outs a) :
    Stuck svc b C' ∨ Serial svc start (outs ++ out) b := by
  rcases hmatch with ⟨htrans, hsaid⟩
  rcases h with hstuck | hserial
  · exact Or.inl (stuck_of_stuck hother hC hfree hstuck)
  · have hreplay : ∀ debt, replay svc start (accepted outs)
        = .ok ⟨a.row.state, a.row.transcript ++ debt⟩ →
        replay svc start (accepted (outs ++ out)) = .ok ⟨b.row.state,
          a.row.transcript ++ debt ++ e.said ++ b.owes svc i⟩ := by
      intro debt hdebt
      rw [accepted_append, hout, replay_snoc svc _ _ _ e hdebt, applyEvent, htrans, hself, hrow]
      rfl
    -- Somebody else may still owe the entries of the last event.
    by_cases hsomeone : ∃ j, a.owes svc j ≠ []
    · rcases hsomeone with ⟨j, hj⟩
      have hji : j ≠ i := fun hji => hj (by rw [hji, hfree])
      by_cases hsame : b.row = a.row
      · by_cases hnew : b.owes svc i = []
        · rcases hserial with ⟨debt, hdebt, hall, _⟩
          have hquiet : e.said = [] := by
            rw [← hrow, hsame] at hsaid
            exact List.append_right_eq_self.mp hsaid.symm
          have hvalue := hreplay debt hdebt
          rw [hquiet, hnew, List.append_nil, List.append_nil, ← congrArg Working.transcript hsame]
            at hvalue
          refine Or.inr ⟨debt, hvalue, fun k hk => ?_, Or.inr ⟨j, ?_⟩⟩
          · have hki : k ≠ i := fun hki => hk (by rw [hki, hnew])
            rw [hother k hki] at hk ⊢
            exact hall k hk
          · rw [hother j hji]
            exact hall j hj
        · -- Two tasks owe entries now.
          refine Or.inl (Or.inr ⟨i, j, hji.symm, hnew, ?_⟩)
          rw [hother j hji]
          exact hj
      · exact Or.inl (stuck_of_change hother hC hsame hji hj)
    · have hnobody : ∀ j, a.owes svc j = [] :=
        fun j => by_contra (fun hj => hsomeone ⟨j, hj⟩)
      have hvalue := hreplay [] (by rw [List.append_nil]; exact hserial.debt_eq_nil hnobody)
      rw [List.append_nil, ← hsaid, ← congrArg Working.transcript hrow] at hvalue
      refine Or.inr ⟨b.owes svc i, hvalue, fun j hj => ?_, Or.inr ⟨i, rfl⟩⟩
      by_cases hji : j = i
      · rw [hji]
      · rw [hother j hji, hnobody j] at hj
        exact absurd rfl hj

/-- The second persist of an event: the task pays what it owes. -/
theorem serial_of_save {d : Drive} {mark : Nat} {followUps : List Event} (hcurrent : C i)
    (howes : a.owes svc i = d.working.transcript.drop mark)
    (hmatch : (ShellTask.save d mark followUps).Matches svc a.row) (hrow : b.row = d.working)
    (hself : b.owes svc i = []) (hout : accepted out = [])
    (h : Stuck svc a C ∨ Serial svc start outs a) :
    Stuck svc b C' ∨ Serial svc start (outs ++ out) b := by
  rcases hmatch with ⟨hstate, hmark, htake⟩
  have htranscript : b.row.transcript = a.row.transcript ++ a.owes svc i := by
    rw [hrow, howes, ← htake, List.take_append_drop]
  by_cases hfree : a.owes svc i = []
  · have hsame : b.row = a.row := by
      rw [hfree, List.append_nil] at htranscript
      have hst : b.row.state = a.row.state := by rw [hrow, hstate]
      exact Working.ext hst htranscript
    refine serial_of_calm hsame (fun j => ?_) hout (fun j hj hc => ?_) h
    · by_cases hji : j = i
      · rw [hji, hself, hfree]
      · exact hother j hji
    · exact (hC j (fun hji => hj (by rw [hji, hfree])) hc).1
  · have hchange : b.row ≠ a.row := by
      intro hsame
      rw [hsame] at htranscript
      exact hfree (List.append_right_eq_self.mp htranscript.symm)
    have hothers : (∃ j, j ≠ i ∧ a.owes svc j ≠ []) → Stuck svc b C' :=
      fun ⟨j, hji, hj⟩ => stuck_of_change hother hC hchange hji hj
    rcases h with (⟨j, hj, hstale⟩ | ⟨j, k, hjk, hj, hk⟩) | ⟨debt, hreplay, hall, _⟩
    · exact Or.inl (hothers ⟨j, fun hji => hstale (by rw [hji]; exact hcurrent), hj⟩)
    · by_cases hji : j = i
      · exact Or.inl (hothers ⟨k, fun hki => hjk (by rw [hji, hki]), hk⟩)
      · exact Or.inl (hothers ⟨j, hji, hj⟩)
    · by_cases hsomeone : ∃ j, j ≠ i ∧ a.owes svc j ≠ []
      · exact Or.inl (hothers hsomeone)
      · refine Or.inr ⟨[], ?_, fun j hj => ?_, Or.inl rfl⟩
        · rw [accepted_append, hout, List.append_nil, List.append_nil, hreplay, ← hall i hfree,
            ← htranscript, hrow, hstate]
        · by_cases hji : j = i
          · rw [hji, hself]
          · rw [hother j hji] at hj
            exact absurd ⟨j, hji, hj⟩ hsomeone

end Writers

theorem Written.serial (h : Written svc a b C C' out)
    (hserial : Stuck svc a C ∨ Serial svc start outs a) :
    Stuck svc b C' ∨ Serial svc start (outs ++ out) b := by
  cases h with
  | calm hrow howes hout hC => exact serial_of_calm hrow howes hout hC hserial
  | persisted i d e commands hother hC hfree hmatch hrow hself hout =>
      exact serial_of_persist hother hC hfree hmatch hrow hself (by rw [hout]; rfl) hserial
  | saved i d mark followUps hother hC hcurrent howes hmatch hrow hself hout =>
      exact serial_of_save hother hC hcurrent howes hmatch hrow hself hout hserial

section Runs
variable {planInput : Dict String Json} {now : Instant}

omit [Scalars] in
/-- What the accesses of a step mean for the copies of the others. -/
theorem current_after {i : Nat} {o : Oracle} {out : List Effect} {a b : World} {C : Nat → Prop}
    {j : Nat} (hj : j ≠ i)
    (h : looks j ⟨a, .run i o, b, out⟩ ∨ (C j ∧ b.row = a.row)) : C j ∧ b.row = a.row := by
  rcases h with ⟨o', task, hevent, _⟩ | h
  · rw [Choice.run.injEq] at hevent
    exact absurd hevent.1.symm hj
  · exact h

theorem coherent_created : Coherent svc (created svc planInput now).row []
    (created svc planInput now) (fun i => i = 0) where
  quiet := by
    intro task htask
    rw [created, List.mem_singleton] at htask
    rw [htask]
    exact fun e he => absurd he List.not_mem_nil
  inStep := by
    intro i task htask hi
    rw [hi, created, List.getElem?_cons_zero, Option.some.injEq] at htask
    rw [← htask]
    exact ⟨rfl, rfl⟩
  serial := by
    refine Or.inr ⟨[], ?_, fun i hi => ?_, Or.inl rfl⟩
    · rw [List.append_nil]
      rfl
    · refine absurd ?_ hi
      cases i with
      | zero => rfl
      | succ i => rfl

/-- Adding a task that has still to load the row leaves row and debts as they are. -/
theorem written_added {errand : Errand} (hC : ∀ j, C' j → C j) :
    Written svc a { a with tasks := a.tasks ++ [.load errand] } C C' [] := by
  refine Written.calm rfl (fun j => World.owes_append svc a _ _ _ (fun t ht => ?_) j) rfl
    (fun j _ hj => hC j hj)
  rw [List.mem_singleton.mp ht]
  rfl

omit [Scalars] in
theorem not_looks_post {text : String} {j : Nat} {b : World} {out : List Effect}
    (h : looks j ⟨a, .post text, b, out⟩) : False := by
  obtain ⟨o, task, hevent, -⟩ := h
  cases hevent

/-- What a step of an up-to-date run writes. -/
theorem written_of_step {c : Choice} (h : Coherent svc start outs a C)
    (hstep : shellStep svc a c = .ok (b, out))
    (hcommits : ∀ i, commits i ⟨a, c, b, out⟩ → C i) :
    Written svc a b C (fun i => looks i ⟨a, c, b, out⟩ ∨ (C i ∧ b.row = a.row)) out := by
  rcases shellStep_cases svc hstep with
    ⟨text, rfl, rfl, rfl⟩ | ⟨i, o, task, p, rfl, ht, hp, hb, rfl⟩
  · exact written_added (fun j hj => hj.elim (fun hl => (not_looks_post hl).elim) And.left)
  · -- A task takes a step. The others are in step as long as the row stays.
    have hquiet := h.quiet task (List.mem_of_getElem? ht)
    rcases World.owes_moved svc ht hp hb with ⟨hself, hother⟩
    have hrow : b.row = p.row := by rw [hb]
    have hC : ∀ j, j ≠ i → (looks j ⟨a, .run i o, b, p.effects⟩ ∨ (C j ∧ b.row = a.row)) →
        C j ∧ b.row = a.row := fun j hj => current_after hj
    have howes := World.owes_of_task svc ht
    cases hw : task.writes with
    | false =>
        -- A step that does not write leaves the row alone and owes what it owed.
        rcases taskStep_owes svc hquiet hw hp with ⟨hdebt, hout⟩
        refine Written.calm (hrow.trans (taskStep_row svc hw hp)) (fun j => ?_) hout
          (fun j hj hc => ?_)
        · by_cases hji : j = i
          · rw [hji, hself, howes, hdebt]
          · exact hother j hji
        · by_cases hji : j = i
          · rcases hc with ⟨o', task', _, htask', haccess⟩ | ⟨hc, _⟩
            · change a.tasks[j]? = some task' at htask'
              rw [hji, ht, Option.some.injEq] at htask'
              rw [← htask', hw] at haccess
              rcases haccess with hr | hr
              · rw [hji, howes] at hj
                exact absurd (ShellTask.owes_of_reads svc hr) hj
              · exact absurd hr Bool.false_ne_true
            · exact hc
          · exact (hC j hji hc).1
    | true =>
        -- A persist is made from a current copy, by hypothesis.
        have hcurrent : C i := hcommits i ⟨o, task, rfl, ht, hw⟩
        have hmatch := h.inStep i task ht hcurrent
        cases task with
        | persist d e commands =>
            cases hp
            refine Written.persisted i d e commands hother hC howes hmatch hrow ?_ rfl
            rw [hself, ShellTask.owes, List.drop_length, List.nil_append]
        | save d mark followUps =>
            cases hp
            exact Written.saved i d mark followUps hother hC hcurrent howes hmatch hrow hself rfl
        | _ => exact absurd hw Bool.false_ne_true

/-- Adding a task that has still to load the row keeps the invariant. -/
theorem coherent_added {errand : Errand} (h : Coherent svc start outs a C)
    (hsilent : errand.Silent) (hC : ∀ j, C' j → C j) :
    Coherent svc start (outs ++ []) { a with tasks := a.tasks ++ [.load errand] } C' := by
  refine ⟨fun t ht => ?_, fun j t htask hj => ?_, (written_added hC).serial h.serial⟩
  · rcases List.mem_append.mp ht with ht | ht
    · exact h.quiet t ht
    · rw [List.mem_singleton.mp ht]
      exact hsilent
  · rcases Nat.lt_or_ge j a.tasks.length with hlt | hge
    · rw [List.getElem?_append_left hlt] at htask
      exact h.inStep j t htask (hC j hj)
    · rw [List.getElem?_append_right hge] at htask
      rw [List.mem_singleton.mp (List.mem_of_getElem? htask)]
      exact trivial

/-- Each step of an up-to-date run keeps the invariant. -/
theorem coherent_step {c : Choice} (h : Coherent svc start outs a C)
    (hstep : shellStep svc a c = .ok (b, out))
    (hcommits : ∀ i, commits i ⟨a, c, b, out⟩ → C i) :
    Coherent svc start (outs ++ out) b
      (fun i => looks i ⟨a, c, b, out⟩ ∨ (C i ∧ b.row = a.row)) := by
  have hwritten := written_of_step h hstep hcommits
  rcases shellStep_cases svc hstep with
    ⟨text, rfl, rfl, rfl⟩ | ⟨i, o, task, p, rfl, ht, hp, hb, rfl⟩
  · exact coherent_added h trivial
      (fun j hj => hj.elim (fun hl => (not_looks_post hl).elim) And.left)
  · have hquiet := h.quiet task (List.mem_of_getElem? ht)
    have hrow : b.row = p.row := by rw [hb]
    have htasks : b.tasks = a.tasks.set i p.task ++ p.spawned := by rw [hb]
    refine ⟨?_, fun j t htask hj => ?_, hwritten.serial h.serial⟩
    · rcases taskStep_quiet svc hquiet hp with ⟨hq, hqs⟩
      rw [htasks]
      exact forall_tasks_moved h.quiet hq hqs
    · rw [htasks] at htask
      rcases getElem?_moved ht htask with ⟨rfl, rfl⟩ | ⟨hji, htask⟩ | htask
      · rw [hrow]
        refine taskStep_matches svc hquiet ?_ hp
        rcases hj with ⟨o', task', _, htask', haccess⟩ | ⟨hc, _⟩
        · change a.tasks[j]? = some task' at htask'
          rw [ht, Option.some.injEq] at htask'
          rw [htask']
          exact Or.inl haccess
        · exact Or.inr (h.inStep j task ht hc)
      · rcases current_after hji hj with ⟨hc, hsame⟩
        rw [hsame]
        exact h.inStep j t htask hc
      · rcases taskStep_spawned svc hp t htask with ⟨c, inputs, rfl⟩
        exact trivial

end Runs

end Invariant

/-- When everything has finished, nobody owes anything and nobody can be stuck. -/
theorem Coherent.replay_of_settled [Scalars] {svc : DevSession} {start : Working}
    {outs : List Effect} {w : World} {C : Nat → Prop} (h : Coherent svc start outs w C)
    (hw : w.settled) : replay svc start (accepted outs) = .ok w.row := by
  have hfree := World.owes_of_settled svc hw
  rcases h.serial with (⟨i, hi, _⟩ | ⟨i, _, _, hi, _⟩) | hserial
  · exact absurd (hfree i) hi
  · exact absurd (hfree i) hi
  · exact hserial.debt_eq_nil hfree

/-- No update is lost in an up-to-date run: when every call and every task has
    finished, the stored state and transcript are what the accepted events give
    when they are applied one after another, in the order in which they were
    accepted, to the session as it was created. -/
theorem serial_of_upToDate [Scalars] (svc : DevSession) (planInput : Dict String Json)
    (now : Instant) (ts : List (Taken World Choice Effect)) (w : World)
    (h : Run (shellStep svc) (created svc planInput now) ts w) (hts : UpToDate ts)
    (hw : w.settled) :
    replay svc (created svc planInput now).row (accepted (outputs ts)) = .ok w.row := by
  have hcoherent := Run.copies_invariant World.row looks commits (fun i => i = 0)
    (Coherent svc (created svc planInput now).row) coherent_created
    (fun outs C a c b out hc hstep hcommits => coherent_step hc hstep hcommits) h hts
  exact hcoherent.replay_of_settled hw

section TakingTurns

/-- What a step does to the row, as a check sees it. -/
def turnOf (t : Taken World Choice Effect) : Turn Nat :=
  match t.event with
  | .post _ => ⟨0, false, false⟩
  | .run i _ =>
      match t.before.tasks[i]? with
      | some task => ⟨i, task.reads, task.writes⟩
      | none => ⟨i, false, false⟩

theorem turnOf_run {t : Taken World Choice Effect} {i : Nat} {o : Oracle} {task : ShellTask}
    (hevent : t.event = .run i o) (ht : t.before.tasks[i]? = some task) :
    turnOf t = ⟨i, task.reads, task.writes⟩ := by
  rw [turnOf, hevent]
  simp only [ht]

/-- Either the step has nothing to do with the row, or a task takes it. -/
theorem turnOf_cases (t : Taken World Choice Effect) :
    ((turnOf t).looks = false ∧ (turnOf t).commits = false) ∨
      ∃ i o task, t.event = .run i o ∧ t.before.tasks[i]? = some task ∧
        turnOf t = ⟨i, task.reads, task.writes⟩ := by
  cases hevent : t.event with
  | post text =>
      rw [turnOf, hevent]
      exact Or.inl ⟨rfl, rfl⟩
  | run i o =>
      cases ht : t.before.tasks[i]? with
      | none =>
          rw [turnOf, hevent]
          simp only [ht]
          exact Or.inl ⟨trivial, trivial⟩
      | some task => exact Or.inr ⟨i, o, task, rfl, ht, turnOf_run hevent ht⟩

theorem looks_of_turnOf {t : Taken World Choice Effect}
    (h : (turnOf t).looks = true ∨ (turnOf t).commits = true) : looks (turnOf t).client t := by
  rcases turnOf_cases t with ⟨hlook, hcommit⟩ | ⟨i, o, task, hevent, ht, hturn⟩
  · rw [hlook, hcommit] at h
    exact absurd h (by simp)
  · rw [hturn] at h ⊢
    exact ⟨o, task, hevent, ht, h⟩

theorem turnOf_of_commits {i : Nat} {t : Taken World Choice Effect} (h : commits i t) :
    (turnOf t).commits = true ∧ (turnOf t).client = i := by
  obtain ⟨o, task, hevent, ht, hwrites⟩ := h
  rw [turnOf_run hevent ht]
  exact ⟨hwrites, rfl⟩

/-- A step that does not overwrite the row leaves it alone. -/
theorem keeps_of_turnOf [Scalars] (svc : DevSession) {t : Taken World Choice Effect}
    (hstep : shellStep svc t.before t.event = .ok (t.after, t.out))
    (hcommit : (turnOf t).commits = false) : t.after.row = t.before.row := by
  rcases shellStep_cases svc hstep with
    ⟨text, _, hafter, _⟩ | ⟨i, o, task, p, hevent, htask, hp, hafter, _⟩
  · rw [hafter]
  · rw [turnOf_run hevent htask] at hcommit
    rw [hafter]
    exact taskStep_row svc hcommit hp

/-- A run in which the tasks take turns at the row is up to date. -/
theorem upToDate_of_turns [Scalars] (svc : DevSession) {planInput : Dict String Json}
    {now : Instant} {ts : List (Taken World Choice Effect)} {w : World}
    (h : Run (shellStep svc) (created svc planInput now) ts w)
    (hturns : Turns (some 0) (ts.map turnOf) = true) : UpToDate ts := by
  intro us t vs hts i hi
  rw [← List.nil_append us]
  refine undisturbed_of_turns World.row looks commits (fun i => i = 0) turnOf
    (fun t => looks_of_turnOf) (fun i t => turnOf_of_commits) [] ts (fun t ht hcommit => ?_)
    (some 0) (fun j hj => ?_) hturns us t vs hts i hi
  · rcases h.of_mem t ht with ⟨_, _, _, hstep⟩
    exact keeps_of_turnOf svc hstep hcommit
  · rw [Option.some.injEq] at hj
    rw [current_nil]
    exact hj.symm

end TakingTurns

section SmallService

/-- The small interview, with scripts that are known by their paths. -/
def smallService : DevSession := ⟨.committed, smallId, fun path _ => path⟩

/-- An agent that answers with an utterance, and an assessor that finds the level
    of a node. -/
def answering (now : Instant) (utterance node : String) (level : Nat) : Oracle :=
  ⟨now, .output ⟨utterance, .askSeed⟩,
    .output ⟨⟨0⟩, smallId, node,
      [⟨node, ⟨level % 6, Nat.mod_lt level (by decide)⟩, 9 / 10, "", []⟩], [], false, none⟩⟩

/-- A task takes a number of steps in a row. -/
def goes (steps task : Nat) (o : Oracle) : List Choice := List.replicate steps (.run task o)

/-- The creation of a session and its first candidate turn. -/
def smallOpening : List Choice :=
  goes 7 0 (answering 0 "" "sql" 0) ++
    .post "ready" :: goes 14 1 (answering 1000000 "Joins?" "sql" 0)

abbrev SmallShell : List (Taken World Choice Effect) → World → Prop :=
  Run (@shellStep smallService Scalars.strict) (created smallService smallInput 0)

abbrev smallShellRecord (cs : List Choice) :
    Except Blocked (List (Taken World Choice Effect) × World) :=
  record (@shellStep smallService Scalars.strict) (created smallService smallInput 0) cs

theorem settled_of_all {w : World} (h : w.tasks.all ShellTask.over = true) : w.settled :=
  fun task htask => List.all_eq_true.mp h task htask

theorem serial_of_upToDate_small : ∃ ts w, SmallShell ts w ∧ UpToDate ts ∧ w.settled ∧
    w.row.transcript.map TranscriptEntry.text = [openingScriptPath, "ready", "Joins?"] ∧
    @replay smallService Scalars.strict (created smallService smallInput 0).row
      (accepted (outputs ts)) = .ok w.row := by
  have hrec : (smallShellRecord smallOpening).map (fun r => (Turns (some 0) (r.1.map turnOf),
      r.2.tasks.all ShellTask.over, r.2.row.transcript.map TranscriptEntry.text))
        = .ok (true, true, [openingScriptPath, "ready", "Joins?"]) := by decide +kernel
  rcases exists_run_of_record _ _ _ _ _ hrec with ⟨ts, w, hrun, hproj⟩
  simp only [Prod.mk.injEq] at hproj
  have hdate := @upToDate_of_turns Scalars.strict smallService smallInput 0 ts w hrun hproj.1
  have hsettled := settled_of_all hproj.2.1
  exact ⟨ts, w, hrun, hdate, hsettled, hproj.2.2,
    @serial_of_upToDate Scalars.strict smallService smallInput 0 ts w hrun hdate hsettled⟩

/-- The first answer is assessed while the candidate answers again: the assessor
    task has loaded the row before the second answer arrives, and persists after
    it has been replied to. -/
def smallRace : List Choice :=
  smallOpening ++ .post "an answer" :: goes 15 2 (answering 2000000 "Why?" "sql" 0)
    ++ goes 3 3 (answering 3000000 "" "sql" 3)
    ++ .post "another" :: goes 15 4 (answering 4000000 "REST?" "sql" 0)
    ++ goes 5 3 (answering 5000000 "" "sql" 3) ++ goes 7 5 (answering 6000000 "" "sql" 3)

/-- What an accepted candidate turn has said is in the transcript of every
    replay. -/
theorem said_mem_replay [Scalars] (svc : DevSession) {w w' : Working} {es : List Event}
    (h : replay svc w es = .ok w') :
    (∀ x ∈ w.transcript, x ∈ w'.transcript) ∧ ∀ e ∈ es, ∀ x ∈ e.said, x ∈ w'.transcript := by
  induction es generalizing w with
  | nil =>
      cases h
      exact ⟨fun x hx => hx, fun e he => absurd he List.not_mem_nil⟩
  | cons e es ih =>
      rw [replay, List.foldlM_cons] at h
      cases hone : applyEvent svc w e with
      | error x => rw [hone] at h; exact absurd h (by simp [bind, Except.bind])
      | ok v =>
          rw [hone] at h
          rcases ih h with ⟨hkeep, hsaid⟩
          rw [applyEvent] at hone
          cases ht : transition w.state e svc.config with
          | error x => rw [ht] at hone; exact absurd hone (by simp [Except.map])
          | ok r =>
              rw [ht] at hone
              cases hone
              refine ⟨fun x hx => hkeep x ?_, fun e' he' x hx => ?_⟩
              · exact List.mem_append_left _ (List.mem_append_left _ hx)
              · rcases List.mem_cons.mp he' with rfl | he'
                · exact hkeep x (List.mem_append_left _ (List.mem_append_right _ hx))
                · exact hsaid e' he' x hx

/-- An accepted candidate turn is overwritten by the stale copy of an assessor
    task: no order of the accepted events explains the stored row. -/
theorem stale_assessor_overwrites : ∃ ts w, SmallShell ts w ∧ w.settled ∧
    ∀ es, es.Perm (accepted (outputs ts)) →
      @replay smallService Scalars.strict (created smallService smallInput 0).row es
        ≠ .ok w.row := by
  have hrec : (smallShellRecord smallRace).map (fun r => (r.2.tasks.all ShellTask.over,
      ((accepted (outputs r.1)).flatMap Event.said).all (fun x => x ∈ r.2.row.transcript)))
        = .ok (true, false) := by decide +kernel
  rcases exists_run_of_record _ _ _ _ _ hrec with ⟨ts, w, hrun, hproj⟩
  simp only [Prod.mk.injEq] at hproj
  refine ⟨ts, w, hrun, settled_of_all hproj.1, fun es hes hreplay => ?_⟩
  rcases List.all_eq_false.mp hproj.2 with ⟨x, hx, hlost⟩
  rcases List.mem_flatMap.mp hx with ⟨e, he, hsaid⟩
  have hkept := (@said_mem_replay Scalars.strict smallService _ _ es hreplay).2 e
    (hes.mem_iff.mpr he) x hsaid
  exact hlost (decide_eq_true hkept)

end SmallService

end TechScreen
