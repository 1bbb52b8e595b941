import TechScreen.Lib.Copies
import TechScreen.Services.DevSession

/-!
# Interleaved Calls and Tasks

Each drive of the service keeps its own copy of the session row across awaited
calls and writes the whole row back. What the row should hold when everything
has finished is what the accepted events give one after another: `replay`.

The task that writes the row need not hold what the row holds. As long as every
task that persists has a current copy, nothing is lost: the stored row always is
the replay of the events accepted so far, up to the transcript entries that one
task still owes, and a task that owes entries and has lost its current copy can
never pay them back without overwriting somebody else's work.

## Main definitions

* `applyEvent`, `replay`: Events applied with nobody else around.
* `ShellTask.Quiet`: What holds of a task whatever the others do.
* `ShellTask.Matches`: What a current copy has to do with the row.
* `ShellTask.owes`: The entries that a task has still to store.

## Theorems

* `speaks_or_calls`: No transition both speaks to the candidate and calls an agent.
* `taskStep_quiet`, `taskStep_matches`: What a step of a task keeps.
* `taskStep_owes`: What a step of a task does to its debt.
-/

namespace TechScreen

open Lib

section Sequential
variable (svc : DevSession)

/-- The candidate's message that an event brings. -/
def Event.said : Event → List TranscriptEntry
  | .candidateTurnReceived turnId text _ => [⟨.candidate, text, some turnId⟩]
  | _ => []

/-- The transcript entries of an outbound command. -/
def PendingCommand.entries (s : SessionState) : PendingCommand → List TranscriptEntry
  | .emitScriptedOpening c => [scriptEntry svc s c.scriptPath c.turnId]
  | .emitScriptedClosing c => [scriptEntry svc s c.scriptPath c.turnId]
  | .deliverUtterance c => [⟨.interviewer, c.utterance, some c.turnId⟩]
  | .runInterviewer _ => []

/-- The transcript entries of a command. -/
def Command.entries (s : SessionState) : Command → List TranscriptEntry
  | .emitScriptedOpening c => PendingCommand.entries svc s (.emitScriptedOpening c)
  | .emitScriptedClosing c => PendingCommand.entries svc s (.emitScriptedClosing c)
  | .deliverUtterance c => PendingCommand.entries svc s (.deliverUtterance c)
  | .reissuePendingCommand c => PendingCommand.entries svc s c
  | _ => []

/-- One event applied to the session: the candidate's message, the transition,
    and what its commands add to the transcript. -/
def applyEvent [Scalars] (w : Working) (e : Event) : Except OrchestratorError Working :=
  (transition w.state e svc.config).map (fun r =>
    ⟨r.newState, w.transcript ++ e.said ++ r.commands.flatMap (Command.entries svc r.newState)⟩)

/-- Events applied one after another. -/
def replay [Scalars] (w : Working) (es : List Event) : Except OrchestratorError Working :=
  es.foldlM (applyEvent svc) w

/-- The events that were accepted, in the order of their first persists. -/
def accepted (effects : List Effect) : List Event :=
  effects.filterMap (fun
    | .accepted e _ => some e
    | _ => none)

theorem replay_snoc [Scalars] (w w' : Working) (es : List Event) (e : Event)
    (h : replay svc w es = .ok w') : replay svc w (es ++ [e]) = applyEvent svc w' e := by
  unfold replay at *
  rw [List.foldlM_append, h]
  change (applyEvent svc w' e >>= pure) = _
  rw [bind_pure]

theorem accepted_append (xs ys : List Effect) :
    accepted (xs ++ ys) = accepted xs ++ accepted ys := List.filterMap_append

theorem Event.said_eq_nil {e : Event} (h : e.isCandidateTurn = false) : e.said = [] := by
  cases e with
  | candidateTurnReceived turnId text now => exact absurd h (by simp [Event.isCandidateTurn])
  | _ => rfl

theorem flatMap_said_eq_nil {es : List Event} (h : ∀ e ∈ es, e.isCandidateTurn = false) :
    es.flatMap Event.said = [] := by
  rw [List.flatMap_eq_nil_iff]
  exact fun e he => Event.said_eq_nil (h e he)

end Sequential

section Commands
variable (svc : DevSession)

/-- What the execution of a command can do besides calling an agent. -/
theorem executeOne_ok [Scalars] {w : Working} {o : Oracle} {command : Command} {p : Performed}
    (h : executeOne svc w o command = .ok p) :
    p.entries = command.entries svc w.state ∧
      (∀ e ∈ p.followUps, e.isCandidateTurn = false) ∧
      ∀ task ∈ p.spawned, ∃ c, command = .runAssessor c ∧
        task = .assess c (assessorInputs svc w c) := by
  have hpending : ∀ c : PendingCommand, executePending svc w o c = .ok p →
      p.entries = c.entries svc w.state ∧ (∀ e ∈ p.followUps, e.isCandidateTurn = false) ∧
        ∀ task ∈ p.spawned, ∃ c, command = .runAssessor c ∧
          task = .assess c (assessorInputs svc w c) := by
    intro c hc
    cases c with
    | runInterviewer c =>
        rw [executePending, runInterviewer] at hc
        split at hc <;> cases hc <;>
          simp [PendingCommand.entries, Event.isCandidateTurn]
    | _ =>
        cases hc
        simp [PendingCommand.entries, Event.isCandidateTurn]
  cases command with
  | runInterviewer c => exact hpending (.runInterviewer c) h
  | deliverUtterance c => exact hpending (.deliverUtterance c) h
  | emitScriptedOpening c => exact hpending (.emitScriptedOpening c) h
  | emitScriptedClosing c => exact hpending (.emitScriptedClosing c) h
  | reissuePendingCommand c => exact hpending _ h
  | runAssessor c =>
      cases h
      refine ⟨rfl, fun e he => absurd he List.not_mem_nil, fun task htask => ?_⟩
      exact ⟨c, rfl, List.mem_singleton.mp htask⟩
  | _ =>
      cases h
      simp [Command.entries]

/-- Only an interviewer call can raise. -/
theorem call_of_executeOne_error [Scalars] {w : Working} {o : Oracle} {command : Command}
    {x : ShellError} (h : executeOne svc w o command = .error x) : command.call? ≠ none := by
  cases command with
  | runInterviewer c => simp [Command.call?]
  | reissuePendingCommand c =>
      cases c with
      | runInterviewer c => simp [Command.call?]
      | _ => exact absurd h (by simp [executeOne, executePending])
  | _ => exact absurd h (by simp [executeOne, executePending])

/-- No command list of a transition both speaks to the candidate and calls an
    agent. -/
theorem speaks_or_calls [Scalars] {cfg : OrchestratorConfig} {s s' : SessionState} {e : Event}
    {out : List Command} (h : Edge cfg s e s' out) :
    (∀ c ∈ out, c.call? = none) ∨ ∀ c ∈ out, ∀ s, c.entries svc s = [] := by
  have hgap : ∀ {now} (a : Answer s now), ∀ c ∈ a.gap cfg, ∀ s, c.entries svc s = [] := by
    intro now a c hc s
    rw [Answer.gap] at hc
    split at hc
    · rw [List.mem_singleton.mp hc]
      rfl
    · exact absurd hc List.not_mem_nil
  cases h with
  | advanced turnId text now a following hphase hawaiting hleaves hnext =>
      refine Or.inr (fun c hc s => ?_)
      simp only [List.mem_cons, List.mem_append, List.not_mem_nil, or_false] at hc
      rcases hc with rfl | rfl | hc | rfl
      · rfl
      · rfl
      · exact hgap a c hc s
      · rfl
  | finished turnId text now a hphase hawaiting hleaves hlast =>
      refine Or.inr (fun c hc s => ?_)
      simp only [List.mem_cons, List.mem_append, List.not_mem_nil, or_false] at hc
      rcases hc with rfl | rfl | hc | rfl
      · rfl
      · rfl
      · exact hgap a c hc s
      · rfl
  | aborted e reason decision persist hlive hturn =>
      cases persist <;> simp [abort, Command.call?]
  | reconnected now hlive =>
      rw [onReconnected]
      cases s.pendingCommand with
      | none => simp [Command.call?]
      | some c => cases c <;> simp [Command.call?, Command.entries, PendingCommand.entries]
  | _ => simp [Command.call?, Command.entries, PendingCommand.entries]

end Commands

section Tasks
variable (svc : DevSession)

/-- The task's next step reads the session state. -/
def ShellTask.reads : ShellTask → Bool
  | .load _ => true
  | _ => false

/-- The task's next step writes the row. -/
def ShellTask.writes : ShellTask → Bool
  | .persist .. => true
  | .save .. => true
  | _ => false

/-- What an errand will do to the row is not a candidate's message. -/
def Errand.Silent : Errand → Prop
  | .feed e => e.isCandidateTurn = false
  | .postTurn _ => True

/-- What holds of a task whatever the others do: only the first event of a drive
    can be a candidate's message, and while commands are executed, either
    nothing has been or will be said, or no agent call is left. -/
def ShellTask.Quiet : ShellTask → Prop
  | .load errand => errand.Silent
  | .loadTranscript errand _ => errand.Silent
  | .drive d => ∀ e ∈ d.queue.tail, e.isCandidateTurn = false
  | .persist d _ commands => (∀ e ∈ d.queue, e.isCandidateTurn = false) ∧
      ((∀ c ∈ commands, c.call? = none) ∨ ∀ c ∈ commands, ∀ s, c.entries svc s = [])
  | .execute d mark commands followUps => (∀ e ∈ d.queue ++ followUps, e.isCandidateTurn = false) ∧
      mark ≤ d.working.transcript.length ∧ ((∀ c ∈ commands, c.call? = none) ∨
        (d.working.transcript.length = mark ∧ ∀ c ∈ commands, ∀ s, c.entries svc s = []))
  | .save d _ followUps => ∀ e ∈ d.queue ++ followUps, e.isCandidateTurn = false
  | .assess _ _ => True
  | .done => True
  | .failed _ => True

/-- What the copy of a task has to do with the row when it is current. -/
def ShellTask.Matches [Scalars] (row : Working) : ShellTask → Prop
  | .loadTranscript _ s => s = row.state
  | .drive d => d.working.state = row.state ∧
      d.working.transcript = row.transcript ++ d.queue.flatMap Event.said
  | .persist d e commands =>
      transition row.state e svc.config = .ok ⟨d.working.state, commands⟩ ∧
        d.working.transcript = row.transcript ++ e.said
  | .execute d mark _ _ => d.working.state = row.state ∧ mark = row.transcript.length ∧
      d.working.transcript.take mark = row.transcript
  | .save d mark _ => d.working.state = row.state ∧ mark = row.transcript.length ∧
      d.working.transcript.take mark = row.transcript
  | _ => True

/-- The entries of an accepted event that the task has still to store. -/
def ShellTask.owes : ShellTask → List TranscriptEntry
  | .execute d mark commands _ => d.working.transcript.drop mark
      ++ commands.flatMap (Command.entries svc d.working.state)
  | .save d mark _ => d.working.transcript.drop mark
  | _ => []

theorem ShellTask.owes_of_reads {task : ShellTask} (h : task.reads = true) :
    task.owes svc = [] := by
  cases task with
  | load errand => rfl
  | _ => exact absurd h Bool.false_ne_true

theorem ShellTask.owes_of_over {task : ShellTask} (h : task.over = true) : task.owes svc = [] := by
  cases task with
  | done => rfl
  | failed error => rfl
  | _ => exact absurd h Bool.false_ne_true

/-- The top of the drive loop ends the task or applies the next event. -/
theorem nextEvent_cases [Scalars] (d : Drive) :
    (nextEvent svc d).over = true ∨ ∃ e queue r, d.queue = e :: queue ∧
      transition d.working.state e svc.config = .ok r ∧
      nextEvent svc d
        = .persist ⟨{ d.working with state := r.newState }, queue, d.steps + 1⟩ e r.commands := by
  cases hqueue : d.queue with
  | nil =>
      rw [nextEvent, hqueue]
      exact Or.inl rfl
  | cons e queue =>
      rw [nextEvent, hqueue]
      simp only
      split
      · exact Or.inl rfl
      · cases hr : transition d.working.state e svc.config with
        | error x => exact Or.inl rfl
        | ok r => exact Or.inr ⟨e, queue, r, rfl, hr, rfl⟩

/-- What a step of a task does to the row and the task, branch by branch. -/
inductive TaskMove [Scalars] (row : Working) (o : Oracle) : ShellTask → Progress → Prop where
  | crashed (command inputs error) (hcall : runAssessor o command = .error error) :
      TaskMove row o (.assess command inputs)
        { row := row, task := .failed error, effects := [.assessorCalled command inputs] }
  | assessed (command inputs event) (hcall : runAssessor o command = .ok event) :
      TaskMove row o (.assess command inputs)
        { row := row, task := .load (.feed event)
          effects := if o.assessor.called then [.assessorCalled command inputs] else [] }
  | loaded (errand) :
      TaskMove row o (.load errand) { row := row, task := .loadTranscript errand row.state }
  | admitted (event state) :
      TaskMove row o (.loadTranscript (.feed event) state)
        { row := row, task := .drive ⟨⟨state, row.transcript⟩, [event], 0⟩ }
  | refused (text state error)
      (hbusy : state.phase ∈ terminalPhases ∨
        state.phase ≠ .intro ∧ state.awaiting ≠ some .candidate) :
      TaskMove row o (.loadTranscript (.postTurn text) state)
        { row := row, task := .failed (.notAwaitingCandidate error) }
  | posted (text state turnId) (hlive : ¬ state.phase ∈ terminalPhases)
      (hopen : ¬ (state.phase ≠ .intro ∧ state.awaiting ≠ some .candidate))
      (hid : turnId = candidateTurnId svc.sessionId
        (row.transcript.countP (fun entry => entry.role = .candidate))) :
      TaskMove row o (.loadTranscript (.postTurn text) state)
        { row := row
          task := .drive ⟨⟨state, row.transcript ++ [⟨.candidate, text, some turnId⟩]⟩,
            [.candidateTurnReceived turnId text o.now], 0⟩ }
  | drained (d) (hqueue : d.queue = []) :
      TaskMove row o (.drive d) { row := row, task := .done }
  | overran (d event queue message) (hqueue : d.queue = event :: queue)
      (hsteps : d.steps + 1 > maxDriveSteps) :
      TaskMove row o (.drive d) { row := row, task := .failed (.runaway message) }
  | stuck (d event queue error) (hqueue : d.queue = event :: queue)
      (hsteps : ¬ d.steps + 1 > maxDriveSteps)
      (hresult : transition d.working.state event svc.config = .error error) :
      TaskMove row o (.drive d) { row := row, task := .failed (.orchestrator error) }
  | applied (d event queue result) (hqueue : d.queue = event :: queue)
      (hsteps : ¬ d.steps + 1 > maxDriveSteps)
      (hresult : transition d.working.state event svc.config = .ok result) :
      TaskMove row o (.drive d)
        { row := row
          task := .persist ⟨{ d.working with state := result.newState }, queue, d.steps + 1⟩ event
            result.commands }
  | persisted (d event commands) :
      TaskMove row o (.persist d event commands)
        { row := d.working, task := .execute d d.working.transcript.length commands []
          effects := [.accepted event commands] }
  | spoken (d mark followUps) (hmark : d.working.transcript.length ≠ mark) :
      TaskMove row o (.execute d mark [] followUps) { row := row, task := .save d mark followUps }
  | unspoken (d mark followUps) (hmark : d.working.transcript.length = mark) :
      TaskMove row o (.execute d mark [] followUps)
        { row := row, task := .drive (d.resume followUps) }
  | raised (d mark command commands followUps error)
      (hone : executeOne svc d.working o command = .error error) :
      TaskMove row o (.execute d mark (command :: commands) followUps)
        { row := row, task := .failed error, effects := callsMade svc d.working o command }
  | executed (d mark command commands followUps performed)
      (hone : executeOne svc d.working o command = .ok performed) :
      TaskMove row o (.execute d mark (command :: commands) followUps)
        { row := row
          task := .execute { d with working := d.working.append performed.entries } mark commands
            (followUps ++ performed.followUps)
          spawned := performed.spawned
          decisions := performed.decisions
          effects := callsMade svc d.working o command }
  | saved (d mark followUps) :
      TaskMove row o (.save d mark followUps)
        { row := d.working, task := .drive (d.resume followUps) }

/-- Every step of a task is one of these. -/
theorem move_of_taskStep [Scalars] {row : Working} {o : Oracle} {task : ShellTask} {p : Progress}
    (h : taskStep svc row o task = some p) : TaskMove svc row o task p := by
  cases task with
  | assess command inputs =>
      rw [taskStep] at h
      cases hcall : runAssessor o command with
      | error x =>
          rw [hcall] at h
          cases h
          exact .crashed command inputs x hcall
      | ok e =>
          rw [hcall] at h
          cases h
          exact .assessed command inputs e hcall
  | load errand =>
      cases h
      exact .loaded errand
  | loadTranscript errand state =>
      cases h
      cases errand with
      | feed e => exact .admitted e state
      | postTurn text =>
          rw [admitErrand]
          by_cases hdead : state.phase ∈ terminalPhases
          · rw [if_pos hdead]
            exact .refused text state _ (Or.inl hdead)
          rw [if_neg hdead]
          by_cases hbusy : state.phase ≠ .intro ∧ state.awaiting ≠ some .candidate
          · rw [if_pos hbusy]
            exact .refused text state _ (Or.inr hbusy)
          · rw [if_neg hbusy]
            exact .posted text state _ hdead hbusy rfl
  | drive d =>
      cases h
      cases hqueue : d.queue with
      | nil =>
          rw [nextEvent, hqueue]
          exact .drained d hqueue
      | cons e queue =>
          rw [nextEvent, hqueue]
          dsimp only
          by_cases hsteps : d.steps + 1 > maxDriveSteps
          · rw [if_pos hsteps]
            exact .overran d e queue _ hqueue hsteps
          rw [if_neg hsteps]
          cases hr : transition d.working.state e svc.config with
          | error x => exact .stuck d e queue x hqueue hsteps hr
          | ok r => exact .applied d e queue r hqueue hsteps hr
  | persist d e commands =>
      cases h
      exact .persisted d e commands
  | execute d mark commands followUps =>
      cases commands with
      | nil =>
          rw [taskStep] at h
          by_cases hmark : d.working.transcript.length = mark
          · rw [if_neg (not_not.mpr hmark)] at h
            cases h
            exact .unspoken d mark followUps hmark
          · rw [if_pos hmark] at h
            cases h
            exact .spoken d mark followUps hmark
      | cons command commands =>
          rw [taskStep] at h
          cases hone : executeOne svc d.working o command with
          | error x =>
              rw [hone] at h
              cases h
              exact .raised d mark command commands followUps x hone
          | ok q =>
              rw [hone] at h
              cases h
              exact .executed d mark command commands followUps q hone
  | save d mark followUps =>
      cases h
      exact .saved d mark followUps
  | done => cases h
  | failed x => cases h

/-- An assessor call becomes no candidate's message. -/
theorem runAssessor_silent {o : Oracle} {command : RunAssessor} {e : Event}
    (h : runAssessor o command = .ok e) : e.isCandidateTurn = false := by
  rw [runAssessor] at h
  split at h <;> cases h <;> rfl

/-- A quiet task stays quiet, and schedules quiet tasks. -/
theorem taskStep_quiet [Scalars] {row : Working} {o : Oracle} {task : ShellTask} {p : Progress}
    (hquiet : task.Quiet svc) (h : taskStep svc row o task = some p) :
    p.task.Quiet svc ∧ ∀ t ∈ p.spawned, t.Quiet svc := by
  have hnone : ∀ t ∈ ([] : List ShellTask), t.Quiet svc := fun t ht => absurd ht List.not_mem_nil
  cases move_of_taskStep svc h with
  | crashed | refused | drained | overran | stuck | raised => exact ⟨trivial, hnone⟩
  | assessed command inputs e hcall => exact ⟨runAssessor_silent hcall, hnone⟩
  | loaded errand => exact ⟨hquiet, hnone⟩
  | admitted | posted => exact ⟨fun e he => absurd he List.not_mem_nil, hnone⟩
  | applied d e queue r hqueue hsteps hr =>
      rw [ShellTask.Quiet, hqueue, List.tail_cons] at hquiet
      exact ⟨⟨hquiet, speaks_or_calls svc (edge_of_transition hr)⟩, hnone⟩
  | persisted d e commands =>
      -- The commands have not been executed yet, so nothing has been said.
      refine ⟨⟨?_, Nat.le_refl _, ?_⟩, hnone⟩
      · rw [List.append_nil]
        exact hquiet.1
      · exact hquiet.2.imp_right (fun hsay => ⟨rfl, hsay⟩)
  | spoken d mark followUps hmark => exact ⟨hquiet.1, hnone⟩
  | unspoken d mark followUps hmark =>
      exact ⟨fun e he => hquiet.1 e (List.mem_of_mem_tail he), hnone⟩
  | executed d mark command commands followUps q hone =>
      rcases executeOne_ok svc hone with ⟨hentries, hfollow, hspawned⟩
      refine ⟨⟨fun e he => ?_, ?_, ?_⟩, fun t ht => ?_⟩
      · rw [← List.append_assoc, List.mem_append] at he
        exact he.elim (hquiet.1 e) (hfollow e)
      · rw [Working.append, List.length_append]
        exact Nat.le_add_right_of_le hquiet.2.1
      · -- Commands that may call say nothing, so the transcript is as it was.
        rcases hquiet.2.2 with hcall | ⟨hlen, hsay⟩
        · exact Or.inl (fun c hc => hcall c (List.mem_cons_of_mem command hc))
        · have hnil : q.entries = [] := by
            rw [hentries]
            exact hsay command List.mem_cons_self d.working.state
          refine Or.inr ⟨?_, fun c hc => hsay c (List.mem_cons_of_mem command hc)⟩
          rw [Working.append, hnil, List.append_nil]
          exact hlen
      · rcases hspawned t ht with ⟨c, _, rfl⟩
        exact trivial
  | saved d mark followUps => exact ⟨fun e he => hquiet e (List.mem_of_mem_tail he), hnone⟩

/-- A current copy stays in step with the row, and a look at the row makes the
    copy current. -/
theorem taskStep_matches [Scalars] {row : Working} {o : Oracle} {task : ShellTask} {p : Progress}
    (hquiet : task.Quiet svc)
    (hold : (task.reads = true ∨ task.writes = true) ∨ task.Matches svc row)
    (h : taskStep svc row o task = some p) : p.task.Matches svc p.row := by
  have hmatch : task.reads = false → task.writes = false → task.Matches svc row := by
    intro hr hw
    rw [hr, hw] at hold
    simpa only [Bool.false_eq_true, or_self, false_or] using hold
  cases move_of_taskStep svc h with
  | crashed | assessed | refused | drained | overran | stuck | raised => exact trivial
  | loaded errand => exact rfl
  | admitted e state =>
      -- The state has been read before, and is still that of the row.
      refine ⟨hmatch rfl rfl, ?_⟩
      rw [List.flatMap_cons, List.flatMap_nil, List.append_nil, Event.said_eq_nil hquiet,
        List.append_nil]
  | posted text state turnId hlive hopen hid =>
      refine ⟨hmatch rfl rfl, ?_⟩
      rw [List.flatMap_cons, List.flatMap_nil, List.append_nil]
      rfl
  | applied d e queue r hqueue hsteps hr =>
      rcases hmatch rfl rfl with ⟨hstate, htranscript⟩
      rw [ShellTask.Quiet, hqueue, List.tail_cons] at hquiet
      rw [hqueue, List.flatMap_cons, flatMap_said_eq_nil hquiet, List.append_nil] at htranscript
      rw [hstate] at hr
      exact ⟨hr, htranscript⟩
  | persisted d e commands => exact ⟨rfl, rfl, List.take_length⟩
  | spoken d mark followUps hmark => exact hmatch rfl rfl
  | unspoken d mark followUps hmark =>
      -- Nothing was said, so the transcript is that of the row.
      rcases hmatch rfl rfl with ⟨hstate, _, htake⟩
      rw [← hmark, List.take_length] at htake
      refine ⟨hstate, ?_⟩
      rw [Drive.resume, flatMap_said_eq_nil hquiet.1, List.append_nil]
      exact htake
  | executed d mark command commands followUps q hone =>
      rcases hmatch rfl rfl with ⟨hstate, hlength, htake⟩
      refine ⟨hstate, hlength, ?_⟩
      rw [Working.append, List.take_append_of_le_length hquiet.2.1]
      exact htake
  | saved d mark followUps =>
      refine ⟨rfl, ?_⟩
      rw [Drive.resume, flatMap_said_eq_nil hquiet, List.append_nil]

/-- A step that does not write the row leaves it as it is. -/
theorem taskStep_row [Scalars] {row : Working} {o : Oracle} {task : ShellTask} {p : Progress}
    (hwrites : task.writes = false) (h : taskStep svc row o task = some p) : p.row = row := by
  cases move_of_taskStep svc h with
  | persisted | saved => exact absurd hwrites.symm Bool.false_ne_true
  | crashed | assessed | loaded | admitted | refused | posted | drained | overran | stuck
  | applied | spoken | unspoken | raised | executed => rfl

/-- A step that does not write the row accepts nothing and leaves the task's
    debts as they are. -/
theorem taskStep_owes [Scalars] {row : Working} {o : Oracle} {task : ShellTask} {p : Progress}
    (hquiet : task.Quiet svc) (hwrites : task.writes = false)
    (h : taskStep svc row o task = some p) :
    p.task.owes svc = task.owes svc ∧ accepted p.effects = [] := by
  have hcalls : ∀ w command, accepted (callsMade svc w o command) = [] := by
    intro w command
    rw [callsMade]
    cases command.call? with
    | none => rfl
    | some c => cases o.interviewer.called <;> rfl
  cases move_of_taskStep svc h with
  | crashed | loaded | admitted | refused | posted | drained | overran | stuck | applied =>
      exact ⟨rfl, rfl⟩
  | assessed command inputs e hcall =>
      refine ⟨rfl, ?_⟩
      cases o.assessor.called <;> rfl
  | persisted | saved => exact absurd hwrites.symm Bool.false_ne_true
  | spoken d mark followUps hmark =>
      refine ⟨?_, rfl⟩
      rw [ShellTask.owes, ShellTask.owes, List.flatMap_nil, List.append_nil]
  | unspoken d mark followUps hmark =>
      refine ⟨?_, rfl⟩
      change [] = d.working.transcript.drop mark ++ []
      rw [← hmark, List.drop_length, List.append_nil]
  | raised d mark command commands followUps x hone =>
      refine ⟨?_, hcalls _ _⟩
      -- A command that raises calls an agent, so the task had nothing to say.
      rcases hquiet.2.2 with hcall | ⟨hlen, hsay⟩
      · exact absurd (hcall command List.mem_cons_self) (call_of_executeOne_error svc hone)
      · have hnil : (command :: commands).flatMap (Command.entries svc d.working.state) = [] :=
          List.flatMap_eq_nil_iff.mpr (fun c hc => hsay c hc d.working.state)
        change [] = d.working.transcript.drop mark ++ _
        rw [← hlen, List.drop_length, hnil, List.append_nil]
  | executed d mark command commands followUps q hone =>
      -- What has been appended was owed before.
      refine ⟨?_, hcalls _ _⟩
      rw [ShellTask.owes, ShellTask.owes, Working.append,
        List.drop_append_of_le_length hquiet.2.1, (executeOne_ok svc hone).1,
        List.flatMap_cons, List.append_assoc]

end Tasks

end TechScreen
