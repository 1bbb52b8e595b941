import TechScreen.Services.Ceiling
import TechScreen.Services.InputAssembly
import TechScreen.Services.RetryBudgets

/-!
# The Origin of a Model Call

A trace row tells which transition a model call was made for: the digests of the
state before it and after it, the phase that it has led to, and the move that was
issued. The loop takes the digests around a transition and hands them on to the
commands that it executes, and an assessment takes them along to its own task,
which may run when the session has long moved on.

So what a row says is about the past, and other tasks have written the row of the
session since. It is still the truth: the machine does have such a transition, its
state before was reached in a run of its own, the transition was accepted before
the call was made, and the call is one that it asked for.

## Main definitions

* `stateSha`: The digest of a state.
* `Mark`: The transition whose commands a task executes.
* `Traced`, `tracedStep`: The service, with the transitions of its tasks.
* `ShellTask.Marked`: The invariant of a task.

## Theorems

* `taskStep_marked`: What a step of a task does to it.
* `marked_run`: The invariant of every run.
* `calls_documented`: What the rows of a call say.
-/

namespace TechScreen

open Lib Lib.JsonText Llm Agents

section Digests

/-- What the digest of a state depends on: the digest of a text, and the text of a
    float. -/
structure Digests where
  sha256 : String → String
  repr : ℚ → Literal

/-- The canonical text of a state. -/
def canonicalState [Scalars] (dg : Digests) (s : SessionState) : String :=
  String.ofList (treeOf dg.repr (encodeSessionState s)).sortKeys.render

def stateSha [Scalars] (dg : Digests) (s : SessionState) : String :=
  dg.sha256 (canonicalState dg s)

/-- The transition whose commands a task executes. -/
structure Mark where
  before : SessionState
  after : SessionState

/-- The orchestrator's part of a trace row. -/
def transitionContext [Scalars] (dg : Digests) (m : Mark) (phase : Phase)
    (issued : Option InterviewerMove) : Json :=
  .obj [("phase", .str phase.value),
    ("issued_move", match issued with
      | some move => .str move.value
      | none => .null),
    ("state_before_sha", .str (stateSha dg m.before)),
    ("state_after_sha", .str (stateSha dg m.after))]

/-- The move that a call is made for. An assessment has none. -/
def AgentCall.issuedMove : AgentCall → Option InterviewerMove
  | .interviewer _ command => some command.move
  | .assessor _ _ => none

def AgentCall.turnId : AgentCall → Uuid
  | .interviewer _ command => command.turnId
  | .assessor command _ => command.turnId

/-- The phase that a call is made in: that of the copy at hand, or what the copy was
    in when the assessment was scheduled. -/
def AgentCall.phase (m : Mark) : AgentCall → Phase
  | .interviewer w _ => w.state.phase
  | .assessor _ _ => m.after.phase

/-- The commands ask for the call. -/
def AgentCall.Asked (commands : List Command) : AgentCall → Prop
  | .interviewer _ c => ∃ command ∈ commands, command.call? = some c
  | .assessor c _ => .runAssessor c ∈ commands

section Rows
variable [Scalars] (b : BookedService) (env : TurnEnv) (call : AgentCall) (record : TraceRecord)

theorem turnId_row : (row (call.context b env) record).turnId = some call.turnId := by
  cases call <;> rfl

theorem transition_row : (row (call.context b env) record).transition = env.transition := by
  cases call <;> rfl

end Rows

end Digests

section Service

/-- The service with its books, and what each of its tasks has been handed. -/
structure Traced where
  booked : Booked
  marks : List (Option Mark)

/-- The task takes the transition of its loop with it. -/
def nextMark (mark : Option Mark) : ShellTask → ShellTask → Option Mark
  | .drive d, .persist d' _ _ => some ⟨d.working.state, d'.working.state⟩
  | _, _ => mark

/-- What the task has been handed. -/
def Traced.mark (s : Traced) (i : Nat) : Option Mark := s.marks[i]?.join

/-- What the tasks have been handed after a step. A task that is scheduled gets what
    the task has that schedules it. -/
def Traced.marksAfter (s : Traced) (w : World) : BookedChoice → List (Option Mark)
  | .post _ => s.marks ++ [none]
  | .run i _ _ =>
      let mark := match s.booked.world.tasks[i]?, w.tasks[i]? with
        | some task, some task' => nextMark (s.mark i) task task'
        | _, _ => s.mark i
      s.marks.set i mark ++ List.replicate (w.tasks.length - s.booked.world.tasks.length) mark

variable [Scalars] (b : BookedService) (dg : Digests)

/-- The orchestrator's part of the rows that the next step of a task leaves. -/
def Traced.context (s : Traced) (i : Nat) : Option Json :=
  match s.mark i, s.booked.world.tasks[i]?.bind ShellTask.agentCall? with
  | some m, some call => some (transitionContext dg m (call.phase m) call.issuedMove)
  | _, _ => none

/-- The environment of a step, with the orchestrator's part of the rows. -/
def Traced.env (s : Traced) (i : Nat) (env : TurnEnv) : TurnEnv :=
  { env with transition := s.context dg i }

def Traced.choice (s : Traced) : BookedChoice → BookedChoice
  | .post text => .post text
  | .run i now env => .run i now (s.env dg i env)

/-- The service takes one step. -/
def tracedStep : Step Traced BookedChoice Effect Blocked := fun s c =>
  (bookedStep b s.booked (s.choice dg c)).map
    (fun r => (⟨r.1, s.marksAfter r.1.world c⟩, r.2))

/-- A session that has just been created. -/
def tracedOpening (planInput : Dict String Json) (now : Instant) : Traced :=
  ⟨opening b planInput now, [none]⟩

variable {b dg}

theorem tracedStep_ok {s s' : Traced} {c : BookedChoice} {out : List Effect}
    (h : tracedStep b dg s c = .ok (s', out)) :
    bookedStep b s.booked (s.choice dg c) = .ok (s'.booked, out) ∧
      s'.marks = s.marksAfter s'.booked.world c := by
  unfold tracedStep at h
  cases hstep : bookedStep b s.booked (s.choice dg c) with
  | error x =>
      rw [hstep] at h
      cases h
  | ok r =>
      rw [hstep] at h
      cases h
      exact ⟨rfl, rfl⟩

/-- A run of this service is a run of the service with its books. -/
theorem booked_of_traced {s₀ s : Traced} {ts : List (Taken Traced BookedChoice Effect)}
    (h : Run (tracedStep b dg) s₀ ts s) :
    Run (bookedStep b) s₀.booked
      (ts.map (Taken.image Traced.booked (fun s c => s.choice dg c))) s.booked :=
  h.image Traced.booked (fun s c => s.choice dg c) (fun _ _ _ _ hstep => (tracedStep_ok hstep).1)

end Service

section Invariant
variable [Scalars] (svc : DevSession) (planInput : Dict String Json)

/-- The transition is one of the machine, out of a state that it reaches, and it has
    been accepted with these commands. -/
def Documented (outs : List Effect) (m : Mark) (commands : List Command) : Prop :=
  (∃ ms, SessionRun svc.config svc.sessionId planInput ms m.before) ∧
    ∃ e, .accepted e commands ∈ outs ∧
      transition m.before e svc.config = .ok ⟨m.after, commands⟩

/-- A task has been handed the transition that has asked for what it has to do. -/
def ShellTask.Marked (outs : List Effect) (mark : Option Mark) : ShellTask → Prop
  | .persist d e commands => ∃ m, mark = some m ∧ m.after = d.working.state ∧
      (∃ ms, SessionRun svc.config svc.sessionId planInput ms m.before) ∧
      transition m.before e svc.config = .ok ⟨m.after, commands⟩
  | .execute d _ commands _ => ∃ m all, mark = some m ∧ m.after = d.working.state ∧
      (∀ c ∈ commands, c ∈ all) ∧ Documented svc planInput outs m all
  | .assess c _ => ∃ m all, mark = some m ∧ .runAssessor c ∈ all ∧
      Documented svc planInput outs m all
  | _ => True

variable {svc planInput}

theorem Documented.mono {outs more : List Effect} {m : Mark} {commands : List Command}
    (h : Documented svc planInput outs m commands) :
    Documented svc planInput (outs ++ more) m commands := by
  obtain ⟨hreached, e, haccepted, hr⟩ := h
  exact ⟨hreached, e, List.mem_append_left _ haccepted, hr⟩

theorem ShellTask.Marked.mono {outs more : List Effect} {mark : Option Mark} {task : ShellTask}
    (h : task.Marked svc planInput outs mark) :
    task.Marked svc planInput (outs ++ more) mark := by
  cases task with
  | persist d e commands => exact h
  | execute d place commands followUps =>
      obtain ⟨m, all, hmark, hafter, hall, hdoc⟩ := h
      exact ⟨m, all, hmark, hafter, hall, hdoc.mono⟩
  | assess c inputs =>
      obtain ⟨m, all, hmark, hasked, hdoc⟩ := h
      exact ⟨m, all, hmark, hasked, hdoc.mono⟩
  | load | loadTranscript | drive | save | done | failed => trivial

/-- A step of a task keeps what it has been handed in line with what it has to do, and
    hands it on to what it schedules. -/
theorem taskStep_marked {row : Working} {o : Oracle} {task : ShellTask} {p : Progress}
    (outs : List Effect) {mark : Option Mark}
    (hreached : task.StateHas (fun s =>
      ∃ ms, SessionRun svc.config svc.sessionId planInput ms s))
    (hmarked : task.Marked svc planInput outs mark) (h : taskStep svc row o task = some p) :
    p.task.Marked svc planInput (outs ++ p.effects) (nextMark mark task p.task) ∧
      ∀ t ∈ p.spawned,
        t.Marked svc planInput (outs ++ p.effects) (nextMark mark task p.task) := by
  have hnone : ∀ t ∈ ([] : List ShellTask),
      t.Marked svc planInput (outs ++ p.effects) (nextMark mark task p.task) :=
    fun t ht => absurd ht List.not_mem_nil
  cases move_of_taskStep svc h with
  | crashed | assessed | loaded | admitted | refused | posted | drained | overran | stuck
  | raised | spoken | unspoken | saved => exact ⟨trivial, hnone⟩
  | applied d e queue r hqueue hsteps hr =>
      exact ⟨⟨⟨d.working.state, r.newState⟩, rfl, rfl, hreached _ rfl, hr⟩, hnone⟩
  | persisted d e commands =>
      obtain ⟨m, hmark, hafter, hrun, hr⟩ := hmarked
      exact ⟨⟨m, commands, hmark, hafter, fun _ hc => hc, hrun, e,
        List.mem_append_right _ (List.mem_singleton_self _), hr⟩, hnone⟩
  | executed d place command commands followUps q hone =>
      obtain ⟨m, all, hmark, hafter, hall, hdoc⟩ := hmarked
      refine ⟨⟨m, all, hmark, hafter, fun c hc => hall c (List.mem_cons_of_mem _ hc),
        hdoc.mono⟩, fun t ht => ?_⟩
      obtain ⟨c, rfl, rfl⟩ := (executeOne_ok svc hone).2.2 t ht
      exact ⟨m, all, hmark, hall _ List.mem_cons_self, hdoc.mono⟩

end Invariant

section Runs
variable [Scalars] {b : BookedService} {dg : Digests} {planInput : Dict String Json}
  {start : Instant} {ts : List (Taken Traced BookedChoice Effect)} {s : Traced}

/-- Every task has been handed the transition that has asked for what it has to do. -/
def Traced.Marked (b : BookedService) (planInput : Dict String Json) (outs : List Effect)
    (s : Traced) : Prop :=
  s.marks.length = s.booked.world.tasks.length ∧
    ∀ (i : Nat) (task : ShellTask), s.booked.world.tasks[i]? = some task →
      task.Marked b.svc planInput outs (s.mark i)

omit [Scalars] in
/-- A task moves, and schedules others: what they have been handed moves along. -/
theorem forall_marked_moved {α β : Type} {Q : α → Option β → Prop} {xs spawned : List α}
    {ms : List (Option β)} {i : Nat} {x' : α} {m' : Option β} (hlength : ms.length = xs.length)
    (hi : i < xs.length) (hold : ∀ (j : Nat) (x : α), xs[j]? = some x → Q x ms[j]?.join)
    (hmoved : Q x' m') (hspawned : ∀ x ∈ spawned, Q x m') :
    ∀ (j : Nat) (x : α), (xs.set i x' ++ spawned)[j]? = some x →
      Q x (ms.set i m' ++ List.replicate spawned.length m')[j]?.join := by
  intro j x hx
  by_cases hj : j < xs.length
  · rw [List.getElem?_append_left (by rwa [List.length_set])] at hx
    rw [List.getElem?_append_left (by rw [List.length_set, hlength]; exact hj)]
    by_cases hij : i = j
    · subst hij
      rw [List.getElem?_set_self hi, Option.some.injEq] at hx
      rw [List.getElem?_set_self (by rwa [hlength]), ← hx]
      exact hmoved
    · rw [List.getElem?_set_ne hij] at hx
      rw [List.getElem?_set_ne hij]
      exact hold j x hx
  · have hge : xs.length ≤ j := Nat.le_of_not_lt hj
    rw [List.getElem?_append_right (by rwa [List.length_set]), List.length_set] at hx
    rw [List.getElem?_append_right (by rwa [List.length_set, hlength]), List.length_set, hlength,
      List.getElem?_replicate_of_lt (List.getElem?_eq_some_iff.mp hx).1]
    exact hspawned x (List.mem_of_getElem? hx)

/-- One step of the service keeps the invariant. -/
theorem marked_step {a s' : Traced} {c : BookedChoice} {outs out : List Effect}
    (hreached : ∀ task ∈ a.booked.world.tasks, task.StateHas (fun s =>
      ∃ ms, SessionRun b.svc.config b.svc.sessionId planInput ms s))
    (ha : a.Marked b planInput outs) (h : tracedStep b dg a c = .ok (s', out)) :
    s'.Marked b planInput (outs ++ out) := by
  obtain ⟨hlength, hmarked⟩ := ha
  obtain ⟨hbooked, hmarks⟩ := tracedStep_ok h
  unfold Traced.Marked Traced.mark
  rw [hmarks]
  rcases shellStep_cases b.svc (bookedStep_ok b hbooked).1 with
    ⟨text, hpost, hworld, rfl⟩ | ⟨i, o, task, p, hrun, ht, hp, hworld, rfl⟩
  · cases c with
    | run i now env => cases hpost
    | post text' =>
        rw [hworld]
        refine ⟨by simp [Traced.marksAfter, hlength], fun j task htask => ?_⟩
        by_cases hj : j < a.booked.world.tasks.length
        · rw [List.getElem?_append_left hj] at htask
          rw [Traced.marksAfter, List.getElem?_append_left (by rwa [hlength])]
          exact (hmarked j task htask).mono
        · -- The new task has nothing to do that a transition has asked for.
          rw [List.getElem?_append_right (Nat.le_of_not_lt hj)] at htask
          rw [List.mem_singleton.mp (List.mem_of_getElem? htask)]
          trivial
  · cases c with
    | post text => cases hrun
    | run k now env =>
        cases hrun
        have hi := (List.getElem?_eq_some_iff.mp ht).1
        have hnext : (a.booked.world.tasks.set i p.task ++ p.spawned)[i]? = some p.task := by
          rw [List.getElem?_append_left (by rwa [List.length_set]), List.getElem?_set_self hi]
        have hcount : (a.booked.world.tasks.set i p.task ++ p.spawned).length -
            a.booked.world.tasks.length = p.spawned.length := by
          rw [List.length_append, List.length_set]
          omega
        obtain ⟨hmoved, hspawned⟩ := taskStep_marked outs
          (hreached task (List.mem_of_getElem? ht)) (hmarked i task ht) hp
        rw [hworld]
        simp only [Traced.marksAfter, ht, hnext, hcount]
        refine ⟨by simp [hlength], ?_⟩
        exact forall_marked_moved
          (Q := fun task mark => task.Marked b.svc planInput (outs ++ p.effects) mark)
          hlength hi (fun j x hx => (hmarked j x hx).mono) hmoved hspawned

/-- Every task of every run has been handed the transition that has asked for what it
    has to do. -/
theorem marked_run (h : Run (tracedStep b dg) (tracedOpening b planInput start) ts s) :
    s.Marked b planInput (outputs ts) := by
  induction h with
  | nil =>
      refine ⟨rfl, fun i task htask => ?_⟩
      have hmem := List.mem_of_getElem? htask
      rw [tracedOpening, opening, created, List.mem_singleton] at hmem
      rw [hmem]
      trivial
  | snoc ts a s' c out hrun hstep ih =>
      have hshell := shell_of_booked b (booked_of_traced hrun)
      have hreached := (shell_states b.svc
        (fun s => ∃ ms, SessionRun b.svc.config b.svc.sessionId planInput ms s)
        (fun s e r hs hr => ?_) ⟨[], Run.nil⟩ hshell).2
      · rw [outputs_snoc]
        exact marked_step hreached ih hstep
      · obtain ⟨ms, hms⟩ := hs
        exact ⟨_, hms.snoc ms s r.newState e r.commands
          ((step_eq_ok_iff b.svc.config s r.newState e r.commands).mpr hr)⟩

/-- What the trace rows of a model call say is true. Whatever the tasks have done in
    between, the call was asked for by a transition of the machine that had been
    accepted before, out of a state that the machine reaches, and every row of the call
    names the turn, the digests of the two states, the phase that the transition has
    led to, and the move. -/
theorem calls_documented (h : Run (tracedStep b dg) (tracedOpening b planInput start) ts s)
    (i : Nat) (now : Instant) (env : TurnEnv) (call : AgentCall)
    (hcall : s.booked.call? (.run i now env) = some call) :
    ∃ e commands before after, .accepted e commands ∈ outputs ts ∧
      (∃ ms, SessionRun b.svc.config b.svc.sessionId planInput ms before) ∧
      transition before e b.svc.config = .ok ⟨after, commands⟩ ∧ call.Asked commands ∧
      ∀ record,
        (row (call.context b (s.env dg i env)) record).turnId = some call.turnId ∧
        (row (call.context b (s.env dg i env)) record).transition
          = some (transitionContext dg ⟨before, after⟩ after.phase call.issuedMove) := by
  obtain ⟨_, hmarked⟩ := marked_run h
  have hcontext : ∀ m, s.mark i = some m → s.context dg i =
      some (transitionContext dg m (call.phase m) call.issuedMove) := by
    intro m hm
    have hdue : s.booked.world.tasks[i]?.bind ShellTask.agentCall? = some call := hcall
    unfold Traced.context
    rw [hm, hdue]
  have hasked : ∃ m commands, s.mark i = some m ∧ call.phase m = m.after.phase ∧
      call.Asked commands ∧ Documented b.svc planInput (outputs ts) m commands := by
    rcases task_of_call hcall with
      ⟨command, inputs, ht, rfl⟩ | ⟨d, place, command, commands, followUps, c, ht, hc, rfl⟩
    · obtain ⟨m, all, hm, hasked, hdoc⟩ := hmarked i _ ht
      exact ⟨m, all, hm, rfl, hasked, hdoc⟩
    · -- The copy at hand is in the phase that the transition has led to.
      obtain ⟨m, all, hm, hafter, hall, hdoc⟩ := hmarked i _ ht
      exact ⟨m, all, hm, congrArg SessionState.phase hafter.symm,
        ⟨command, hall command List.mem_cons_self, hc⟩, hdoc⟩
  obtain ⟨m, commands, hm, hphase, hasked, hreached, e, haccepted, hr⟩ := hasked
  refine ⟨e, commands, m.before, m.after, haccepted, hreached, hr, hasked, fun record => ?_⟩
  rw [turnId_row, transition_row, Traced.env, hcontext m hm, hphase]
  exact ⟨rfl, rfl⟩

end Runs

def smallDigests : Digests := ⟨fun text => text, smallRepr⟩

/-- The creation of a session, and its first candidate turn until the first question is
    due. -/
def smallDue : List BookedChoice :=
  bookedSteps 7 0 (smallTurnEnv (replying smallQuestionText true)) ++ .post "ready" ::
    bookedSteps 4 1 (smallTurnEnv (replying smallQuestionText true))

/-- The rows of the first question tell that it was asked for when the introduction
    ended. -/
theorem calls_documented_small : ∃ ts s call e commands before after,
    Run (@tracedStep Scalars.strict smallBooked smallDigests)
      (tracedOpening smallBooked smallInput 0) ts s ∧
    call.issuedMove = some .askSeed ∧ .accepted e commands ∈ outputs ts ∧
    @transition Scalars.strict before e smallBooked.svc.config = .ok ⟨after, commands⟩ ∧
    ∀ record, (row (@AgentCall.context smallBooked Scalars.strict
        (@Traced.env Scalars.strict smallDigests s 1
          (smallTurnEnv (replying smallQuestionText true))) call)
        record).transition =
      some (@transitionContext Scalars.strict smallDigests ⟨before, after⟩ after.phase
        (some .askSeed)) := by
  have hrec : (record (@tracedStep Scalars.strict smallBooked smallDigests)
      (tracedOpening smallBooked smallInput 0) smallDue).map (fun r =>
        (r.2.booked.call? (.run 1 0 (smallTurnEnv (replying smallQuestionText true)))).bind
          AgentCall.issuedMove) = .ok (some .askSeed) := by decide +kernel
  obtain ⟨ts, s, hrun, hproj⟩ := exists_run_of_record _ _ _ _ _ hrec
  obtain ⟨call, hcall, hmove⟩ := Option.bind_eq_some_iff.mp hproj
  obtain ⟨e, commands, before, after, haccepted, _, hr, _, hrows⟩ :=
    @calls_documented Scalars.strict smallBooked smallDigests smallInput 0 ts s hrun 1 0
      (smallTurnEnv (replying smallQuestionText true)) call hcall
  refine ⟨ts, s, call, e, commands, before, after, hrun, hmove, haccepted, hr, fun record => ?_⟩
  rw [← hmove]
  exact (hrows record).2

end TechScreen
