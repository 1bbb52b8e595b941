import TechScreen.Orchestrator.FailureLadder
import TechScreen.Services.Obligations

/-!
# One Thing at a Time

A task that has applied an event waits for one thing at most: an event that is
still to be applied, or a command whose execution will give one. What it waits
for suits its own copy of the session. A call that it makes, or the failure of
one, is of the very move that the copy has in flight; and the events that it has
applied since it was loaded are so few that it never runs into the limit of the
drive loop on the way to a second failure.

All of this holds of every task in every run, however stale its copy may be.

## Main definitions

* `Calling`: The move that a state has in flight.
* `Event.Due`, `Command.Due`: What an event or a command has to do with a copy.
* `Paced`: What a task waits for.

## Theorems

* `due_of_edge`: A transition asks for what suits its new state.
* `paced_of_run`: Every task waits for one thing.
* `Paced.of_call`: A task that makes a call waits for nothing else.
* `nextEvent_of_single`: What a task waits for is applied.
-/

namespace TechScreen

open Lib

section Due

/-- The state has the move of the call in flight. -/
structure Calling (s : SessionState) (c : RunInterviewer) : Prop where
  phase : s.phase = .tech ∨ s.phase = .qa
  awaiting : s.awaiting = some .interviewer
  pending : s.pendingCommand = some (.runInterviewer c)

/-- The retry ladder has one rung. -/
def OnLadder (s : SessionState) : Prop :=
  0 ≤ s.interviewerFailureStreak ∧ s.interviewerFailureStreak ≤ 1

/-- An event may be applied to a copy after so many others. -/
def Event.Due (s : SessionState) (steps : Nat) : Event → Prop
  | .candidateTurnReceived .. => steps = 0
  | .interviewerFailed turnId _ _ => (∃ c, Calling s c ∧ c.turnId = turnId) ∧
      (steps : Int) ≤ 1 + s.interviewerFailureStreak
  | .operatorAbort .. => (steps : Int) ≤ 1 + s.interviewerFailureStreak
  | .timerTick _ => s.phase = .close
  | .reconnected _ => False
  | _ => True

def PendingCommand.followsUp : PendingCommand → Bool
  | .emitScriptedClosing _ => true
  | .runInterviewer _ => true
  | _ => false

/-- The execution of the command gives an event. -/
def Command.followsUp : Command → Bool
  | .emitScriptedClosing _ => true
  | .runInterviewer _ => true
  | .reissuePendingCommand c => c.followsUp
  | _ => false

/-- A command may be executed on a copy after so many events. -/
def Command.Due (s : SessionState) (steps : Nat) (command : Command) : Prop :=
  match command.call? with
  | some c => Calling s c ∧ (steps : Int) ≤ 1 + s.interviewerFailureStreak
  | none => command.followsUp = true → s.phase = .close

/-- A command that gives no event makes no call. -/
theorem Command.call_of_quiet {command : Command} (h : command.followsUp = false) :
    command.call? = none := by
  cases command with
  | runInterviewer c => cases h
  | reissuePendingCommand c =>
      cases c with
      | runInterviewer c => cases h
      | _ => rfl
  | _ => rfl

theorem Command.due_of_quiet {s : SessionState} {steps : Nat} {command : Command}
    (h : command.followsUp = false) : command.Due s steps := by
  unfold Command.Due
  rw [Command.call_of_quiet h, h]
  exact fun hc => absurd hc Bool.false_ne_true

section Edges
variable [Scalars] {cfg : OrchestratorConfig} {s s' : SessionState} {e : Event}
  {out : List Command}

/-- A transition stays on the ladder. -/
theorem onLadder_of_edge (hedge : Edge cfg s e s' out) (h : OnLadder s) : OnLadder s' := by
  have hreset : ∀ t : SessionState, t.interviewerFailureStreak = 0 → OnLadder t := by
    intro t ht
    unfold OnLadder
    omega
  cases hedge with
  | entered turnId text now plan hphase hplan => exact hreset _ rfl
  | probed turnId text now a hphase hawaiting hclarify hprobes => exact hreset _ rfl
  | seeded turnId text now a seed hphase hawaiting hanswered hseed => exact hreset _ rfl
  | advanced turnId text now a following hphase hawaiting hleaves hnext => exact hreset _ rfl
  | finished turnId text now a hphase hawaiting hleaves hlast => exact hreset _ rfl
  | cutShort now plan hphase hplan hover => exact hreset _ rfl
  | asked turnId text now plan hphase hplan => exact hreset _ rfl
  | delivered turnId output now hphase hawaiting hpending => exact hreset _ rfl
  | retried turnId errorKind now pending hphase hawaiting hpending hid hstreak =>
      unfold OnLadder at h ⊢
      dsimp only
      omega
  | assessed forTurnId output now hlive hpending =>
      rw [onAssessmentCompleted, if_neg (not_not.mpr hpending)]
      exact h
  | assessmentFailed forTurnId errorKind now hlive hpending =>
      rw [onAssessmentFailed, if_neg (not_not.mpr hpending)]
      exact h
  | _ => exact h

/-- A transition asks for one thing that gives an event. -/
theorem countP_followsUp_of_edge (hedge : Edge cfg s e s' out) :
    out.countP Command.followsUp ≤ 1 := by
  have hgap : ∀ {now} (a : Answer s now), (a.gap cfg).countP Command.followsUp = 0 := by
    intro now a
    unfold Answer.gap
    split <;> rfl
  cases hedge with
  | advanced turnId text now a following hphase hawaiting hleaves hnext =>
      simp [List.countP_cons, List.countP_append, hgap, Command.followsUp]
  | finished turnId text now a hphase hawaiting hleaves hlast =>
      simp [List.countP_cons, List.countP_append, hgap, Command.followsUp]
  | aborted e reason decision persist hlive hturn =>
      cases persist <;> simp [abort, Command.followsUp]
  | reconnected now hlive =>
      unfold onReconnected
      cases s.pendingCommand with
      | none => simp [Command.followsUp]
      | some c => cases c <;> simp [List.countP_cons, Command.followsUp, PendingCommand.followsUp]
  | _ => simp [List.countP_cons, Command.followsUp]

/-- A transition asks for what suits its new state. -/
theorem due_of_edge {steps : Nat} (hedge : Edge cfg s e s' out) (hdue : e.Due s steps) :
    ∀ c ∈ out, c.Due s' (steps + 1) := by
  have hgap : ∀ {now} (a : Answer s now), ∀ c ∈ a.gap cfg, c.followsUp = false := by
    intro now a c hc
    unfold Answer.gap at hc
    split at hc
    · rw [List.mem_singleton.mp hc]
      rfl
    · exact absurd hc List.not_mem_nil
  -- A move that a candidate's message has led to is issued by the first event of a drive.
  have hissue : ∀ (t : SessionState) (move : InterviewerMove) (node : Option String)
      (context : Dict String Json) (c : RunInterviewer), (t.phase = .tech ∨ t.phase = .qa) →
      c = (issueInterviewer t move node context).2 → steps = 0 →
      Command.Due (issueInterviewer t move node context).1 (steps + 1) (.runInterviewer c) := by
    intro t move node context c hphase hc hsteps
    subst hc hsteps
    have hfirst : ((0 + 1 : Nat) : Int) ≤ 1 + 0 := by omega
    exact ⟨⟨hphase, rfl, rfl⟩, hfirst⟩
  intro c hc
  cases hedge with
  | entered turnId text now plan hphase hplan =>
      simp only [List.mem_cons, List.not_mem_nil, or_false] at hc
      rcases hc with rfl | rfl
      · exact hissue (entered s now) _ _ _ _ (Or.inl rfl) rfl hdue
      · exact Command.due_of_quiet rfl
  | probed turnId text now a hphase hawaiting hclarify hprobes =>
      simp only [List.mem_cons, List.not_mem_nil, or_false] at hc
      rcases hc with rfl | rfl | rfl
      · exact Command.due_of_quiet rfl
      · exact hissue { s with lastCandidateActivity := some now, tech := { a.scheduled turnId with
          probesUsed := (a.scheduled turnId).probesUsed + 1 } } _ _ _ _ (Or.inl hphase) rfl hdue
      · exact Command.due_of_quiet rfl
  | seeded turnId text now a seed hphase hawaiting hanswered hseed =>
      simp only [List.mem_cons, List.not_mem_nil, or_false] at hc
      rcases hc with rfl | rfl | rfl
      · exact Command.due_of_quiet rfl
      · exact hissue { s with lastCandidateActivity := some now, tech := { a.scheduled turnId with
          seedIndex := (a.scheduled turnId).seedIndex + 1 } } _ _ _ _ (Or.inl hphase) rfl hdue
      · exact Command.due_of_quiet rfl
  | advanced turnId text now a following hphase hawaiting hleaves hnext =>
      simp only [List.mem_cons, List.mem_append, List.not_mem_nil, or_false] at hc
      rcases hc with rfl | rfl | hc | rfl
      · exact Command.due_of_quiet rfl
      · exact hissue (advanced s (a.leaving cfg turnId) now) _ _ _ _ (Or.inl hphase) rfl hdue
      · exact Command.due_of_quiet (hgap a c hc)
      · exact Command.due_of_quiet rfl
  | finished turnId text now a hphase hawaiting hleaves hlast =>
      simp only [List.mem_cons, List.mem_append, List.not_mem_nil, or_false] at hc
      rcases hc with rfl | rfl | hc | rfl
      · exact Command.due_of_quiet rfl
      · exact hissue
          (inQa { s with lastCandidateActivity := some now, tech := a.leaving cfg turnId } now)
          _ _ _ _ (Or.inr rfl) rfl hdue
      · exact Command.due_of_quiet (hgap a c hc)
      · exact Command.due_of_quiet rfl
  | cutShort now plan hphase hplan hover =>
      have hclose : s.phase = .close := hdue
      rw [hphase] at hclose
      cases hclose
  | asked turnId text now plan hphase hplan =>
      rw [List.mem_singleton] at hc
      subst hc
      exact hissue { s with lastCandidateActivity := some now } _ _ _ _ (Or.inr hphase) rfl hdue
  | closed e activity hphase =>
      simp only [List.mem_cons, List.not_mem_nil, or_false] at hc
      rcases hc with rfl | rfl
      · exact fun _ => rfl
      · exact Command.due_of_quiet rfl
  | retried turnId errorKind now pending hphase hawaiting hpending hid hstreak =>
      simp only [List.mem_cons, List.not_mem_nil, or_false] at hc
      rcases hc with rfl | rfl | rfl
      · refine ⟨⟨hphase, hawaiting, rfl⟩, ?_⟩
        have hsteps := hdue.2
        dsimp only
        push_cast
        omega
      · exact Command.due_of_quiet rfl
      · exact Command.due_of_quiet rfl
  | reconnected now hlive => exact absurd hdue id
  | aborted e reason decision persist hlive hturn =>
      refine Command.due_of_quiet ?_
      cases persist <;> simp [abort] at hc
      · rw [hc]
        rfl
      · rcases hc with rfl | rfl <;> rfl
  | _ =>
      -- None of these commands gives an event.
      refine Command.due_of_quiet ?_
      revert c
      simp [Command.followsUp]

end Edges

end Due

section Tasks
variable (svc : DevSession)

/-- What a task waits for: events that are to be applied, and commands that are
    to be executed. -/
structure Paced (d : Drive) (events : List Event) (commands : List Command) : Prop where
  one : events.length + commands.countP Command.followsUp ≤ 1
  events : ∀ e ∈ events, e.Due d.working.state d.steps
  commands : ∀ c ∈ commands, c.Due d.working.state d.steps

/-- A call is all that a task waits for. -/
theorem Paced.of_call {d : Drive} {events : List Event} {command : Command}
    {commands : List Command} {c : RunInterviewer} (h : Paced d events (command :: commands))
    (hcall : command.call? = some c) : events = [] ∧ (∀ x ∈ commands, x.followsUp = false) ∧
      Calling d.working.state c ∧
      (d.steps : Int) ≤ 1 + d.working.state.interviewerFailureStreak := by
  have hfollows : command.followsUp = true := by
    by_contra hno
    rw [Bool.not_eq_true] at hno
    rw [Command.call_of_quiet hno] at hcall
    cases hcall
  have hcount := h.one
  rw [List.countP_cons, if_pos hfollows] at hcount
  have hlength : events.length = 0 := by omega
  have hnone : commands.countP Command.followsUp = 0 := by omega
  have hdue := h.commands command List.mem_cons_self
  unfold Command.Due at hdue
  rw [hcall] at hdue
  refine ⟨List.eq_nil_of_length_eq_zero hlength, fun x hx => ?_, hdue⟩
  have hno := List.countP_eq_zero.mp hnone x hx
  rwa [Bool.not_eq_true] at hno

/-- An event that is fed to a session may be applied to every state of it. -/
def Errand.Due : Errand → Prop
  | .feed e => ∀ s, OnLadder s → e.Due s 0
  | .postTurn _ => True

def ShellTask.Paced : ShellTask → Prop
  | .load errand => errand.Due
  | .loadTranscript errand _ => errand.Due
  | .drive d => TechScreen.Paced d d.queue []
  | .persist d _ commands => d.queue = [] ∧ TechScreen.Paced d [] commands
  | .execute d _ commands followUps => TechScreen.Paced d (d.queue ++ followUps) commands
  | .save d _ followUps => TechScreen.Paced d (d.queue ++ followUps) []
  | _ => True

/-- What an assessor call becomes may be fed to the session. -/
theorem due_of_runAssessor {o : Oracle} {command : RunAssessor} {e : Event}
    (h : runAssessor o command = .ok e) : (Errand.feed e).Due := by
  intro s hs
  unfold runAssessor at h
  split at h
  · cases h
    unfold OnLadder at hs
    simp only [Event.Due]
    omega
  · cases h
    exact trivial
  · cases h
    exact trivial
  · cases h
    exact trivial
  · cases h

variable [Scalars]

/-- A command that makes a call gives what becomes of the call. -/
theorem executeOne_of_call {w : Working} {o : Oracle} {command : Command} {c : RunInterviewer}
    (h : command.call? = some c) : executeOne svc w o command =
      (runInterviewer o c).map (fun event => { followUps := [event] }) := by
  cases command with
  | runInterviewer c =>
      cases h
      rfl
  | reissuePendingCommand c =>
      cases c with
      | runInterviewer c =>
          cases h
          rfl
      | _ => cases h
  | _ => cases h

/-- A call that does not raise leaves its task with what has become of it. -/
theorem taskStep_of_call {row : Working} {o : Oracle} {d : Drive} {mark : Nat} {command : Command}
    {commands : List Command} {followUps : List Event} {c : RunInterviewer} {e : Event}
    (hcall : command.call? = some c) (he : runInterviewer o c = .ok e) :
    taskStep svc row o (.execute d mark (command :: commands) followUps) = some
      { row := row
        task := .execute { d with working := d.working.append [] } mark commands (followUps ++ [e])
        effects := callsMade svc d.working o command } := by
  rw [taskStep, executeOne_of_call svc hcall, he]
  rfl

/-- The event that a command gives suits the copy that the command suits. -/
theorem followUps_of_executeOne {w : Working} {o : Oracle} {command : Command} {q : Performed}
    (h : executeOne svc w o command = .ok q) :
    q.followUps.length ≤ (if command.followsUp then 1 else 0) ∧
      ∀ steps, command.Due w.state steps → ∀ e ∈ q.followUps, e.Due w.state steps := by
  have hpending : ∀ c : PendingCommand, executePending svc w o c = .ok q →
      q.followUps.length ≤ (if c.followsUp then 1 else 0) ∧
        ∀ steps, Command.Due w.state steps (.reissuePendingCommand c) →
          ∀ e ∈ q.followUps, e.Due w.state steps := by
    intro c hc
    cases c with
    | runInterviewer c =>
        rw [executePending] at hc
        cases hr : runInterviewer o c with
        | error x =>
            rw [hr] at hc
            cases hc
        | ok e =>
            rw [hr] at hc
            cases hc
            refine ⟨le_refl 1, fun steps hdue e' he' => ?_⟩
            rw [List.mem_singleton.mp he']
            -- A call is answered, fails, or is refused.
            unfold runInterviewer at hr
            split at hr <;> cases hr
            · exact hdue.2
            · exact ⟨⟨c, hdue.1, rfl⟩, hdue.2⟩
            · exact ⟨⟨c, hdue.1, rfl⟩, hdue.2⟩
            · exact trivial
    | emitScriptedClosing c =>
        cases hc
        refine ⟨le_refl 1, fun steps hdue e he => ?_⟩
        rw [List.mem_singleton.mp he]
        exact hdue rfl
    | _ =>
        cases hc
        exact ⟨le_refl 0, fun steps _ e he => absurd he List.not_mem_nil⟩
  cases command with
  | runInterviewer c => exact hpending (.runInterviewer c) h
  | emitScriptedClosing c => exact hpending (.emitScriptedClosing c) h
  | emitScriptedOpening c => exact hpending (.emitScriptedOpening c) h
  | deliverUtterance c => exact hpending (.deliverUtterance c) h
  | reissuePendingCommand c => exact hpending c h
  | _ =>
      cases h
      exact ⟨le_refl 0, fun steps _ e he => absurd he List.not_mem_nil⟩

/-- Without a call a command gives the tick that follows the closing, if anything. -/
theorem followUps_of_no_call {w : Working} {o : Oracle} {command : Command} {q : Performed}
    (h : executeOne svc w o command = .ok q) (hcall : command.call? = none) :
    ∀ e ∈ q.followUps, command.followsUp = true ∧ e = .timerTick o.now := by
  intro e he
  have hfollows : command.followsUp = true := by
    have hlength := (followUps_of_executeOne svc h).1
    by_contra hno
    rw [if_neg hno, Nat.le_zero, List.length_eq_zero_iff] at hlength
    rw [hlength] at he
    exact absurd he List.not_mem_nil
  refine ⟨hfollows, ?_⟩
  have hclosing : ∀ c, executePending svc w o (.emitScriptedClosing c) = .ok q →
      e = .timerTick o.now := by
    intro c hc
    cases hc
    exact List.mem_singleton.mp he
  cases command with
  | emitScriptedClosing c => exact hclosing c h
  | runInterviewer c => cases hcall
  | reissuePendingCommand c =>
      cases c with
      | runInterviewer c => cases hcall
      | emitScriptedClosing c => exact hclosing c h
      | deliverUtterance | emitScriptedOpening => cases hfollows
  | runAssessor | deliverUtterance | emitScriptedOpening | flagTurnDegraded | recordGap
  | recordDecision | endSession | persistState => cases hfollows

/-- A step of a task keeps it waiting for one thing. -/
theorem taskStep_paced {row : Working} {o : Oracle} {task : ShellTask} {p : Progress}
    (hladder : task.StateHas OnLadder) (hpaced : task.Paced)
    (h : taskStep svc row o task = some p) : p.task.Paced := by
  cases move_of_taskStep svc h with
  | crashed | refused | drained | overran | stuck | raised => exact trivial
  | assessed command inputs e hcall => exact due_of_runAssessor hcall
  | loaded errand => exact hpaced
  | admitted e state =>
      refine ⟨le_refl 1, fun e' he' => ?_, fun c hc => absurd hc List.not_mem_nil⟩
      rw [List.mem_singleton.mp he']
      exact hpaced state (hladder state rfl)
  | posted text state turnId hlive hopen hid =>
      refine ⟨le_refl 1, fun e' he' => ?_, fun c hc => absurd hc List.not_mem_nil⟩
      rw [List.mem_singleton.mp he']
      rfl
  | applied d e queue r hqueue hsteps hr =>
      have hone := hpaced.one
      rw [hqueue, List.length_cons, List.countP_nil] at hone
      have hedge := edge_of_transition hr
      have hdue : e.Due d.working.state d.steps :=
        hpaced.events e (by rw [hqueue]; exact List.mem_cons_self)
      have hnil : queue.length = 0 := by omega
      refine ⟨List.eq_nil_of_length_eq_zero hnil, ?_, ?_, due_of_edge hedge hdue⟩
      · have hcommands := countP_followsUp_of_edge hedge
        rw [List.length_nil, Nat.zero_add]
        exact hcommands
      · exact fun e' he' => absurd he' List.not_mem_nil
  | persisted d e commands =>
      have hqueue : d.queue ++ [] = [] := by
        rw [hpaced.1, List.append_nil]
      change TechScreen.Paced d (d.queue ++ []) commands
      rw [hqueue]
      exact hpaced.2
  | spoken d mark followUps hmark => exact hpaced
  | unspoken | saved => exact ⟨hpaced.one, hpaced.events, hpaced.commands⟩
  | executed d mark command commands followUps q hone =>
      obtain ⟨hlength, hdue⟩ := followUps_of_executeOne svc hone
      have hfollow := hdue d.steps (hpaced.commands command List.mem_cons_self)
      refine ⟨?_, fun e he => ?_, fun c hc => ?_⟩
      · -- The event takes the place of the command that has given it.
        have hcount := hpaced.one
        rw [List.countP_cons, List.length_append] at hcount
        change (d.queue ++ (followUps ++ q.followUps)).length +
          commands.countP Command.followsUp ≤ 1
        rw [List.length_append, List.length_append]
        omega
      · rw [← List.append_assoc, List.mem_append] at he
        exact he.elim (hpaced.events e) (hfollow e)
      · exact hpaced.commands c (List.mem_cons_of_mem command hc)

/-- Every task waits for one thing, however the tasks interleave. -/
theorem paced_of_run {planInput : Dict String Json} {now : Instant}
    {ts : List (Taken World Choice Effect)} {w : World}
    (h : Run (shellStep svc) (created svc planInput now) ts w) :
    OnLadder w.row.state ∧ ∀ task ∈ w.tasks, task.StateHas OnLadder ∧ task.Paced := by
  have hstart : OnLadder (initialState svc.sessionId planInput svc.config) := by
    have hzero : (initialState svc.sessionId planInput svc.config).interviewerFailureStreak = 0 :=
      rfl
    unfold OnLadder
    omega
  have hkeep : ∀ s e r, OnLadder s → transition s e svc.config = .ok r → OnLadder r.newState :=
    fun s e r hs hr => onLadder_of_edge (edge_of_transition hr) hs
  have hstates := shell_states svc OnLadder hkeep hstart h
  refine ⟨hstates.1, fun task htask => ⟨hstates.2 task htask, ?_⟩⟩
  refine shell_tasks svc ?_ (fun _ => trivial) (fun _ _ => trivial)
    (fun us a o task p hrun hmem hp hpaced => ?_) h task htask
  · refine ⟨le_refl 1, fun e he => ?_, fun c hc => absurd hc List.not_mem_nil⟩
    rw [List.mem_singleton.mp he]
    exact trivial
  · -- The copies are on the ladder before every step.
    exact taskStep_paced svc ((shell_states svc OnLadder hkeep hstart hrun).2 task hmem) hpaced hp

end Tasks

section Aborting
variable [Scalars] (svc : DevSession) {cfg : OrchestratorConfig} {s : SessionState}
  {c : RunInterviewer}

omit [Scalars] in
theorem Calling.live (h : Calling s c) : live s := by
  unfold TechScreen.live
  rcases h.phase with hphase | hphase <;> rw [hphase] <;> decide

/-- A call fails on the state that has its move in flight: it is made once more,
    or the session is over. -/
theorem transition_of_failed (h : Calling s c) (kind : String) (now : Instant) :
    transition s (.interviewerFailed c.turnId kind now) cfg = .ok
      (if 1 ≤ s.interviewerFailureStreak then abort s .fatalAgentError .agentFailure true
      else ⟨{ s with
          interviewerFailureStreak := s.interviewerFailureStreak + 1
          pendingCommand := some (.runInterviewer { c with retry := true }) },
        [.runInterviewer { c with retry := true }, .flagTurnDegraded ⟨c.turnId, kind⟩,
          .persistState]⟩) :=
  transition_of_failure ⟨h.phase, h.awaiting⟩ h.pending kind now

/-- The one event that a task waits for is applied next: the drive loop does not
    run into its limit. -/
theorem nextEvent_of_single {d : Drive} {e : Event} {r : TransitionResult}
    (hqueue : d.queue = [e]) (hladder : OnLadder d.working.state)
    (hsteps : (d.steps : Int) ≤ 1 + d.working.state.interviewerFailureStreak)
    (hr : transition d.working.state e svc.config = .ok r) :
    nextEvent svc d = .persist ⟨{ d.working with state := r.newState }, [], d.steps + 1⟩ e
      r.commands := by
  have hlimit : ¬ d.steps + 1 > maxDriveSteps := by
    unfold OnLadder at hladder
    unfold maxDriveSteps
    omega
  unfold nextEvent
  rw [hqueue]
  simp only [if_neg hlimit, hr]

end Aborting

end TechScreen
