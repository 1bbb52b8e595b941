import Mathlib.Algebra.BigOperators.Ring.List
import TechScreen.Llm.AttemptCount
import TechScreen.Services.BookedShell

/-!
# How Retries Multiply

Three loops call a model again, each for reasons of its own: the wrapper after an
error of the provider that may pass, the agent after a miss of its contract, and
the orchestrator after a failed interviewer call. What one loop gives up with is
nothing that the next one asks the loop below for again without counting, so that
the numbers multiply: three calls of the backend in an invocation, two invocations
in a turn of an agent, and two turns of the interviewer for one move.

The outermost number is a property of runs. A task carries what it may still call
for the move it has issued last: two calls when the move is issued, one after a
failure, none after the second failure. Every step of the task pays for the call
it makes out of that, however the tasks interleave and however stale the copy of
the task is.

## Main definitions

* `ShellTask.callsLeft`: The calls for a turn that a task may still make.
* `movesIssued`, `wrapperRuns`, `assessorRuns`: What a task does in a step.
* `generates`: The `generate` calls of a step.
* `RetryBudgets`: The bounds.

## Theorems

* `callsLeft_of_edge`: What a transition makes of a failed call.
* `taskStep_callsLeft`: A step of a task pays for its call.
* `wrapperRuns_of_issue`: The runs of the interviewer's wrapper for one move.
* `generates_le`: The `generate` calls of one run of a wrapper.
* `retry_budgets_compose`: The bounds hold in every run.
-/

namespace TechScreen

open Lib Llm

section Potential

/-- The calls for a turn that an event may lead to: the first failure of a move
    leads to one. -/
def Event.callsLeft (turn : Uuid) (s : SessionState) : Event → Nat
  | .interviewerFailed turnId _ _ =>
      if turnId = turn then (1 - s.interviewerFailureStreak).toNat else 0
  | _ => 0

/-- The calls for a turn that the execution of a command may lead to. -/
def Command.callsLeft (turn : Uuid) (s : SessionState) (command : Command) : Nat :=
  match command.call? with
  | some c => if c.turnId = turn then (2 - s.interviewerFailureStreak).toNat else 0
  | none => 0

/-- What events and commands may lead to on a copy. -/
def callsOf (turn : Uuid) (s : SessionState) (events : List Event) (commands : List Command) :
    Nat :=
  (events.map (Event.callsLeft turn s)).sum + (commands.map (Command.callsLeft turn s)).sum

/-- The calls for a turn that a task may still make. A move that is about to be
    issued does not count yet. -/
def ShellTask.callsLeft (turn : Uuid) : ShellTask → Nat
  | .drive d => callsOf turn d.working.state d.queue []
  | .persist d _ commands =>
      callsOf turn d.working.state d.queue (commands.filter (fun c => !c.isFirstCall))
  | .execute d _ commands followUps => callsOf turn d.working.state (d.queue ++ followUps) commands
  | .save d _ followUps => callsOf turn d.working.state (d.queue ++ followUps) []
  | _ => 0

/-- The move that a command issues. -/
def Command.move? : Command → Option RunInterviewer
  | .runInterviewer c => if c.retry then none else some c
  | _ => none

/-- The moves that are issued when an event is accepted. -/
def Effect.moves : Effect → List RunInterviewer
  | .accepted _ commands => commands.filterMap Command.move?
  | _ => []

/-- The call of the interviewer's wrapper. -/
def Effect.interviewer? : Effect → Option RunInterviewer
  | .interviewerCalled c _ => some c
  | _ => none

/-- The call of the assessor's wrapper. -/
def Effect.assessor? : Effect → Option RunAssessor
  | .assessorCalled c _ => some c
  | _ => none

/-- The runs of the interviewer's wrapper for a turn. -/
def runsFor (turn : Uuid) (effects : List Effect) : Nat :=
  (effects.filterMap Effect.interviewer?).countP (fun c => c.turnId = turn)

/-- The moves that are issued for a turn. -/
def movesFor (turn : Uuid) (effects : List Effect) : Nat :=
  (effects.flatMap Effect.moves).countP (fun c => c.turnId = turn)

end Potential

section Steps

variable {turn : Uuid} {s s' : SessionState}

theorem callsOf_append (events fs : List Event) (commands : List Command) :
    callsOf turn s (events ++ fs) commands = callsOf turn s events commands +
      callsOf turn s fs [] := by
  simp only [callsOf, List.map_append, List.sum_append, List.map_nil, List.sum_nil]
  omega

theorem callsOf_cons (events : List Event) (command : Command) (commands : List Command) :
    callsOf turn s events (command :: commands) =
      command.callsLeft turn s + callsOf turn s events commands := by
  simp only [callsOf, List.map_cons, List.sum_cons]
  omega

/-- Nothing is left where no command calls and no event is a failed call. -/
theorem callsOf_eq_zero {events : List Event} {commands : List Command}
    (hevents : ∀ e ∈ events, e.callsLeft turn s = 0)
    (hcommands : ∀ c ∈ commands, c.call? = none) : callsOf turn s events commands = 0 := by
  have hnone : ∀ c ∈ commands, c.callsLeft turn s = 0 := by
    intro c hc
    unfold Command.callsLeft
    rw [hcommands c hc]
  unfold callsOf
  rw [List.map_congr_left hevents, List.map_congr_left hnone, List.map_const', List.map_const',
    List.sum_replicate_nat, List.sum_replicate_nat, Nat.mul_zero, Nat.mul_zero]

theorem Event.callsLeft_eq_zero {e : Event} (h : e.failedTurn = none) :
    e.callsLeft turn s = 0 := by
  cases e with
  | interviewerFailed turnId kind now => cases h
  | _ => rfl

/-- No command has more than two calls to lead to. -/
theorem Command.callsLeft_le (hladder : OnLadder s) (command : Command) :
    command.callsLeft turn s ≤ 2 := by
  unfold OnLadder at hladder
  unfold Command.callsLeft
  split
  · split <;> omega
  · omega

section Edges
variable [Scalars] {cfg : OrchestratorConfig} {e : Event} {out : List Command}

/-- Apart from the first calls of moves, a transition asks for a call only where a
    failure is reported for the first time. -/
theorem call_of_edge {steps : Nat} (hedge : Edge cfg s e s' out) (hdue : e.Due s steps) :
    (∀ c ∈ out, c.isFirstCall = false → c.call? = none) ∨
    ∃ kind now, ∃ pending : RunInterviewer, e = .interviewerFailed pending.turnId kind now ∧
      s'.interviewerFailureStreak = s.interviewerFailureStreak + 1 ∧
      out = [.runInterviewer { pending with retry := true },
        .flagTurnDegraded ⟨pending.turnId, kind⟩, .persistState] := by
  have hgap : ∀ {now} (a : Answer s now),
      (a.gap cfg).all (fun c => c.isFirstCall || c.call?.isNone) = true := by
    intro now a
    unfold Answer.gap
    split <;> rfl
  -- What a transition asks for is a list that can be looked through.
  have hall : out.all (fun c => c.isFirstCall || c.call?.isNone) = true →
      ∀ c ∈ out, c.isFirstCall = false → c.call? = none := by
    intro hout c hc hfirst
    have hone := List.all_eq_true.mp hout c hc
    rw [hfirst, Bool.false_or] at hone
    exact Option.isNone_iff_eq_none.mp hone
  cases hedge with
  | retried turnId errorKind now pending hphase hawaiting hpending hid hstreak =>
      subst hid
      exact Or.inr ⟨errorKind, now, pending, rfl, rfl, rfl⟩
  -- Reissued commands come of a reconnect, which no task feeds.
  | reconnected now hlive => exact absurd hdue id
  | advanced turnId text now a following hphase hawaiting hleaves hnext =>
      refine Or.inl (hall ?_)
      rw [List.all_cons, List.all_cons, List.all_append, hgap]
      rfl
  | finished turnId text now a hphase hawaiting hleaves hlast =>
      refine Or.inl (hall ?_)
      rw [List.all_cons, List.all_cons, List.all_append, hgap]
      rfl
  | aborted e reason decision persist hlive hturn =>
      refine Or.inl (hall ?_)
      cases persist <;> rfl
  | _ => exact Or.inl (hall rfl)

/-- A transition repeats a call where a failure of it is reported, and then there is
    one less to make. -/
theorem callsLeft_of_edge {steps : Nat} (hedge : Edge cfg s e s' out) (hdue : e.Due s steps) :
    callsOf turn s' [] (out.filter (fun c => !c.isFirstCall)) ≤ e.callsLeft turn s := by
  -- The repeated call has one attempt less, since the streak has grown.
  rcases call_of_edge hedge hdue with hquiet | ⟨kind, now, pending, rfl, hstreak, rfl⟩
  · refine le_of_eq_of_le (callsOf_eq_zero (fun e he => absurd he List.not_mem_nil)
      (fun c hc => ?_)) (Nat.zero_le _)
    obtain ⟨hmem, hfirst⟩ := List.mem_filter.mp hc
    exact hquiet c hmem (by rwa [Bool.not_eq_true'] at hfirst)
  · have hleft : callsOf turn s' [] (List.filter (fun c => !c.isFirstCall)
        [.runInterviewer { pending with retry := true }, .flagTurnDegraded ⟨pending.turnId, kind⟩,
          .persistState]) =
        if pending.turnId = turn then (2 - s'.interviewerFailureStreak).toNat else 0 := by
      simp [callsOf, Command.isFirstCall, Command.callsLeft, Command.call?]
    rw [hleft, hstreak, Event.callsLeft]
    split <;> omega

end Edges

/-- A move that is issued has two calls to make. -/
theorem callsOf_le_issued (hladder : OnLadder s) (commands : List Command) :
    callsOf turn s [] commands ≤ callsOf turn s [] (commands.filter (fun c => !c.isFirstCall)) +
      2 * (commands.filterMap Command.move?).countP (fun c => c.turnId = turn) := by
  induction commands with
  | nil => exact Nat.zero_le _
  | cons command commands ih =>
      rw [callsOf_cons]
      cases hfirst : command.isFirstCall with
      | true =>
          have hkept : (command :: commands).filter (fun c => !c.isFirstCall)
              = commands.filter (fun c => !c.isFirstCall) := by
            rw [List.filter_cons, hfirst]
            rfl
          rw [hkept]
          -- A first call is a move, and it counts if it is one for the turn.
          cases command with
          | runInterviewer c =>
              have hmove : Command.move? (.runInterviewer c) = some c := by
                unfold Command.isFirstCall at hfirst
                rw [Bool.not_eq_true'] at hfirst
                rw [Command.move?, if_neg (by rw [hfirst]; exact Bool.false_ne_true)]
              have htwo : Command.callsLeft turn s (.runInterviewer c) ≤ 2 :=
                Command.callsLeft_le hladder (.runInterviewer c)
              rw [List.filterMap_cons_some hmove, List.countP_cons]
              by_cases hturn : c.turnId = turn
              · rw [if_pos (decide_eq_true hturn)]
                omega
              · have hzero : Command.callsLeft turn s (.runInterviewer c) = 0 := if_neg hturn
                omega
          | _ => cases hfirst
      | false =>
          have hkept : (command :: commands).filter (fun c => !c.isFirstCall)
              = command :: commands.filter (fun c => !c.isFirstCall) := by
            rw [List.filter_cons, hfirst]
            rfl
          -- Any other command counts on both sides alike.
          have hmove : Command.move? command = none := by
            cases command with
            | runInterviewer c =>
                unfold Command.isFirstCall at hfirst
                rw [Bool.not_eq_false'] at hfirst
                rw [Command.move?, if_pos hfirst]
            | _ => rfl
          rw [hkept, callsOf_cons, List.filterMap_cons_none hmove]
          omega

end Steps

section Tasks

variable [Scalars] (svc : DevSession) {turn : Uuid} {row : Working} {o : Oracle}

/-- The call that the execution of a command makes. -/
theorem runsFor_callsMade {w : Working} (command : Command) :
    runsFor turn (callsMade svc w o command) ≤
      match command.call? with
      | some c => if c.turnId = turn then 1 else 0
      | none => 0 := by
  unfold callsMade
  cases command.call? with
  | none => exact le_refl 0
  | some c =>
      cases o.interviewer.called with
      | false => exact Nat.zero_le _
      | true =>
          have hone : runsFor turn [.interviewerCalled c (interviewerInputs svc w c)] =
              if c.turnId = turn then 1 else 0 := by
            simp [runsFor, Effect.interviewer?, List.countP_cons]
          exact le_of_eq hone

/-- The execution of a command pays for the call that it makes. -/
theorem callsLeft_of_executeOne {w : Working} {command : Command} {q : Performed}
    (hladder : OnLadder w.state) (h : executeOne svc w o command = .ok q) :
    callsOf turn w.state q.followUps [] + runsFor turn (callsMade svc w o command) ≤
      command.callsLeft turn w.state := by
  have hruns := @runsFor_callsMade _ svc turn o w command
  unfold OnLadder at hladder
  unfold Command.callsLeft
  cases hcall : command.call? with
  | none =>
      rw [hcall] at hruns
      have hnone : callsOf turn w.state q.followUps [] = 0 := by
        refine callsOf_eq_zero (fun e he => ?_) (fun c hc => absurd hc List.not_mem_nil)
        rw [(followUps_of_no_call svc h hcall e he).2]
        rfl
      dsimp only at hruns ⊢
      omega
  | some c =>
      rw [executeOne_of_call svc hcall] at h
      cases he : runInterviewer o c with
      | error x =>
          rw [he] at h
          cases h
      | ok e =>
          rw [he] at h
          cases h
          -- One run of the wrapper is made, and one event comes of it.
          rw [hcall] at hruns
          -- What becomes of the call is a failure of it, if it is one at all.
          have hevent : callsOf turn w.state [e] [] ≤
              if c.turnId = turn then (1 - w.state.interviewerFailureStreak).toNat else 0 := by
            have hsum : callsOf turn w.state [e] [] = e.callsLeft turn w.state := by
              simp only [callsOf, List.map_cons, List.map_nil, List.sum_cons, List.sum_nil,
                Nat.add_zero]
            rw [hsum]
            unfold runInterviewer at he
            split at he
            · cases he
              exact Nat.zero_le _
            · cases he
              exact le_refl _
            · cases he
              exact le_refl _
            · cases he
              exact Nat.zero_le _
            · cases he
          dsimp only at hruns ⊢
          by_cases hturn : c.turnId = turn
          · rw [if_pos hturn] at hruns hevent ⊢
            omega
          · rw [if_neg hturn] at hruns hevent ⊢
            omega

/-- A step of a task pays for the call that it makes out of what was left to the
    task, and two calls are added for a move that it issues. -/
theorem taskStep_callsLeft {task : ShellTask} {p : Progress} (hladder : task.StateHas OnLadder)
    (hpaced : task.Paced) (h : taskStep svc row o task = some p) (turn : Uuid) :
    p.task.callsLeft turn + runsFor turn p.effects ≤
      task.callsLeft turn + 2 * movesFor turn p.effects := by
  cases move_of_taskStep svc h with
  | crashed | loaded | refused | drained | overran | stuck => exact Nat.zero_le _
  | assessed command inputs e hcall =>
      have hnone : runsFor turn
          (if o.assessor.called then [.assessorCalled command inputs] else []) = 0 := by
        cases o.assessor.called <;> rfl
      dsimp only
      rw [hnone]
      exact Nat.zero_le _
  | admitted e state =>
      -- A failed call is fed to nobody but the drive that has made it.
      have hevent : e.failedTurn = none := by
        cases e with
        | interviewerFailed turnId kind now =>
            have hdue := hpaced { state with awaiting := none } (hladder state rfl)
            obtain ⟨⟨c, hcalling, -⟩, -⟩ := hdue
            cases hcalling.awaiting
        | _ => rfl
      have hnone : callsOf turn state [e] [] = 0 := by
        refine callsOf_eq_zero (fun x hx => ?_) (fun c hc => absurd hc List.not_mem_nil)
        rw [List.mem_singleton.mp hx]
        exact Event.callsLeft_eq_zero hevent
      change callsOf turn state [e] [] + 0 ≤ _
      rw [hnone]
      exact Nat.zero_le _
  | posted text state turnId hlive hopen hid => exact Nat.zero_le _
  | applied d e queue r hqueue hsteps hr =>
      -- The queue holds one event at most, so this one pays for all that is asked for.
      have hone := hpaced.one
      rw [hqueue, List.length_cons, List.countP_nil] at hone
      have hnil : queue = [] := List.eq_nil_of_length_eq_zero (by omega)
      have hdue : e.Due d.working.state d.steps :=
        hpaced.events e (by rw [hqueue]; exact List.mem_cons_self)
      have hleft : callsOf turn _ [] _ ≤ e.callsLeft turn d.working.state :=
        callsLeft_of_edge (edge_of_transition hr) hdue
      have hevent : (ShellTask.drive d).callsLeft turn = e.callsLeft turn d.working.state := by
        rw [ShellTask.callsLeft, hqueue, hnil]
        simp only [callsOf, List.map_cons, List.map_nil, List.sum_cons, List.sum_nil, Nat.add_zero]
      rw [hevent, hnil]
      exact hleft
  | persisted d e commands =>
      have hqueue : d.queue = [] := hpaced.1
      -- The events wait for nothing, and the moves among the commands begin to count.
      have hissued : callsOf turn d.working.state [] commands ≤ _ :=
        callsOf_le_issued (hladder d.working.state rfl) commands
      have hmoves : movesFor turn [.accepted e commands] =
          (commands.filterMap Command.move?).countP (fun c => c.turnId = turn) := by
        simp only [movesFor, List.flatMap_cons, List.flatMap_nil, List.append_nil, Effect.moves]
      change callsOf turn d.working.state (d.queue ++ []) commands + 0 ≤
        callsOf turn d.working.state d.queue _ + 2 * movesFor turn [.accepted e commands]
      rw [hmoves, hqueue]
      exact hissued
  | spoken d mark followUps hmark => exact Nat.le_add_right _ _
  | unspoken d mark followUps hmark => exact Nat.le_add_right _ _
  | saved d mark followUps => exact Nat.le_add_right _ _
  | raised d mark command commands followUps x hone =>
      have hruns := @runsFor_callsMade _ svc turn o d.working command
      -- An exception still leaves the run of the wrapper that it came of.
      have hcall : runsFor turn (callsMade svc d.working o command) ≤
          command.callsLeft turn d.working.state := by
        have hstreak := hladder d.working.state rfl
        unfold OnLadder at hstreak
        unfold Command.callsLeft
        cases hc : command.call? with
        | none =>
            rw [hc] at hruns
            exact hruns
        | some c =>
            rw [hc] at hruns
            dsimp only at hruns ⊢
            by_cases hturn : c.turnId = turn
            · rw [if_pos hturn] at hruns ⊢
              omega
            · rwa [if_neg hturn] at hruns ⊢
      change 0 + runsFor turn (callsMade svc d.working o command) ≤
        callsOf turn d.working.state (d.queue ++ followUps) (command :: commands) + _
      rw [callsOf_cons]
      omega
  | executed d mark command commands followUps q hone =>
      -- The command is gone, and it pays for the run and for the event that it leads to.
      have hpaid : callsOf turn d.working.state q.followUps [] +
          runsFor turn (callsMade svc d.working o command) ≤
            command.callsLeft turn d.working.state :=
        callsLeft_of_executeOne svc (hladder d.working.state rfl) hone
      change callsOf turn d.working.state (d.queue ++ (followUps ++ q.followUps)) commands +
          runsFor turn (callsMade svc d.working o command) ≤
        callsOf turn d.working.state (d.queue ++ followUps) (command :: commands) + _
      rw [callsOf_cons, ← List.append_assoc, callsOf_append]
      omega

omit [Scalars] in
/-- Where one thing is asked for that gives an event, and it is a move, there is no
    other call. -/
theorem calls_of_move {commands : List Command} {c : RunInterviewer}
    (hone : commands.countP Command.followsUp ≤ 1) (hc : c ∈ commands.filterMap Command.move?) :
    commands.filterMap Command.move? = [c] ∧
      ∀ x ∈ commands.filter (fun x => !x.isFirstCall), x.call? = none := by
  obtain ⟨command, hmem, hmove⟩ := List.mem_filterMap.mp hc
  obtain ⟨l, r, rfl⟩ := List.append_of_mem hmem
  -- A move is a first call and gives an event.
  have hfollows : command.followsUp = true ∧ command.isFirstCall = true := by
    cases command with
    | runInterviewer d =>
        refine ⟨rfl, ?_⟩
        rw [Command.move?] at hmove
        cases hretry : d.retry with
        | true =>
            rw [if_pos hretry] at hmove
            cases hmove
        | false =>
            rw [Command.isFirstCall, hretry]
            rfl
    | _ => cases hmove
  rw [List.countP_append, List.countP_cons, if_pos hfollows.1] at hone
  -- Since no other command gives one, the others are no calls at all.
  have hquiet : ∀ x ∈ l ++ r, x.followsUp = false := by
    intro x hx
    have hnone : (l ++ r).countP Command.followsUp = 0 := by
      rw [List.countP_append]
      omega
    have hno := List.countP_eq_zero.mp hnone x hx
    rwa [Bool.not_eq_true] at hno
  have hnone : ∀ x ∈ l ++ r, x.move? = none := by
    intro x hx
    cases x with
    | runInterviewer d => cases hquiet _ hx
    | _ => rfl
  refine ⟨?_, fun x hx => ?_⟩
  · rw [List.filterMap_append, List.filterMap_cons_some hmove,
      List.filterMap_eq_nil_iff.mpr (fun x hx => hnone x (List.mem_append_left r hx)),
      List.filterMap_eq_nil_iff.mpr (fun x hx => hnone x (List.mem_append_right l hx))]
    rfl
  · obtain ⟨hx, hfirst⟩ := List.mem_filter.mp hx
    rcases List.mem_append.mp hx with hx | hx
    · exact Command.call_of_quiet (hquiet x (List.mem_append_left r hx))
    · rcases List.mem_cons.mp hx with rfl | hx
      · rw [hfollows.2] at hfirst
        cases hfirst
      · exact Command.call_of_quiet (hquiet x (List.mem_append_right l hx))

/-- The execution of a command issues nothing. -/
theorem moves_of_callsMade {w : Working} (command : Command) :
    (callsMade svc w o command).flatMap Effect.moves = [] := by
  unfold callsMade
  cases command.call? with
  | none => rfl
  | some c => cases o.interviewer.called <;> rfl

/-- A task that issues a move issues one, and has no call to make before. -/
theorem taskStep_issues {task : ShellTask} {p : Progress} {c : RunInterviewer}
    (hpaced : task.Paced) (h : taskStep svc row o task = some p)
    (hc : c ∈ p.effects.flatMap Effect.moves) :
    p.effects.flatMap Effect.moves = [c] ∧ ∀ turn, task.callsLeft turn = 0 := by
  cases move_of_taskStep svc h with
  | persisted d e commands =>
      have hmoves : [Effect.accepted e commands].flatMap Effect.moves
          = commands.filterMap Command.move? := by
        rw [List.flatMap_cons, List.flatMap_nil, List.append_nil]
        rfl
      dsimp only at hc ⊢
      rw [hmoves] at hc ⊢
      -- Moves are issued where an event has been accepted, and the queue is empty there.
      have hone := hpaced.2.one
      rw [List.length_nil, Nat.zero_add] at hone
      obtain ⟨hsingle, hquiet⟩ := calls_of_move hone hc
      refine ⟨hsingle, fun turn => callsOf_eq_zero (fun e he => ?_) hquiet⟩
      rw [hpaced.1] at he
      exact absurd he List.not_mem_nil
  | raised d mark command commands followUps x hone =>
      dsimp only at hc
      rw [moves_of_callsMade] at hc
      exact absurd hc List.not_mem_nil
  | executed d mark command commands followUps q hone =>
      dsimp only at hc
      rw [moves_of_callsMade] at hc
      exact absurd hc List.not_mem_nil
  | assessed command inputs e hcall =>
      have hnone : (if o.assessor.called then [Effect.assessorCalled command inputs]
          else []).flatMap Effect.moves = [] := by
        cases o.assessor.called <;> rfl
      dsimp only at hc
      rw [hnone] at hc
      exact absurd hc List.not_mem_nil
  | crashed | loaded | admitted | refused | posted | drained | overran | stuck | applied
  | spoken | unspoken | saved => exact absurd hc List.not_mem_nil

end Tasks

section Service

variable [Scalars] (b : BookedService)

/-- The task takes the step. -/
def takenBy (i : Nat) (t : Taken Booked BookedChoice Effect) : Bool :=
  match t.event with
  | .post _ => false
  | .run j _ _ => j = i

/-- The moves that the task issues in the step. -/
def movesIssued (i : Nat) (t : Taken Booked BookedChoice Effect) : List RunInterviewer :=
  if takenBy i t then t.out.flatMap Effect.moves else []

/-- The runs of the interviewer's wrapper that the task makes in the step. -/
def wrapperRuns (i : Nat) (t : Taken Booked BookedChoice Effect) : List RunInterviewer :=
  if takenBy i t then t.out.filterMap Effect.interviewer? else []

/-- The runs of the assessor's wrapper that the task makes in the step. -/
def assessorRuns (i : Nat) (t : Taken Booked BookedChoice Effect) : List RunAssessor :=
  if takenBy i t then t.out.filterMap Effect.assessor? else []

/-- The invocations that are made in a step, each with the books it finds. -/
def invocations (t : Taken Booked BookedChoice Effect) :
    List (ModelCallRequest × CallEnv × Books) :=
  match t.event with
  | .post _ => []
  | .run i now env =>
      match t.before.call? (.run i now env) with
      | some call => call.attempts b env t.before.books
      | none => []

/-- The `generate` calls that an invocation starts. -/
def generatesOf (a : ModelCallRequest × CallEnv × Books) : Nat :=
  let call := invocation b.agents a.1 a.2.1
  match admitCall b.agents.runtime call (checkedTotal a.1 a.2.1 a.2.2), call.backend with
  | .ok resolved, .ok backend =>
      (callWithRetries backend (generateCall call.request resolved)).started
  | _, _ => 0

/-- The `generate` calls that are started in a step. -/
def generates (t : Taken Booked BookedChoice Effect) : Nat :=
  ((invocations b t).map (generatesOf b)).sum

/-- The `generate` calls of the interviewer's wrapper, run by the task. -/
def moveGenerates (i : Nat) (t : Taken Booked BookedChoice Effect) : Nat :=
  if (wrapperRuns i t).isEmpty then 0 else generates b t

/-- The `generate` calls of the assessor's wrapper, run by the task. -/
def scoreGenerates (i : Nat) (t : Taken Booked BookedChoice Effect) : Nat :=
  if (assessorRuns i t).isEmpty then 0 else generates b t

/-- What retries amount to in a run. A task runs the interviewer's wrapper only for
    the move that it has issued last, and a scheduled assessment is a task. -/
structure RetryBudgets (ts : List (Taken Booked BookedChoice Effect)) : Prop where
  perMove : ∀ i us t seg vs c, ts = us ++ t :: (seg ++ vs) → c ∈ movesIssued i t →
    (∀ u ∈ seg, movesIssued i u = []) → (∀ r ∈ seg.flatMap (wrapperRuns i), r.turnId = c.turnId) ∧
      (seg.flatMap (wrapperRuns i)).length ≤ 2 ∧ (seg.map (moveGenerates b i)).sum ≤ 12
  noneBefore : ∀ i seg vs, ts = seg ++ vs → (∀ u ∈ seg, movesIssued i u = []) →
    seg.flatMap (wrapperRuns i) = []
  perAssessment : ∀ i, (ts.flatMap (assessorRuns i)).length ≤ 1 ∧
    (ts.map (scoreGenerates b i)).sum ≤ 6
  nothingElse : ∀ t ∈ ts, invocations b t ≠ [] →
    ∃ i, wrapperRuns i t ≠ [] ∨ assessorRuns i t ≠ []
  perRun : ∀ t ∈ ts, (invocations b t).length ≤ 2
  perInvocation : ∀ t ∈ ts, ∀ a ∈ invocations b t, generatesOf b a ≤ 3

end Service

section Bounds

variable [Scalars] {b : BookedService} {planInput : Dict String Json} {start : Instant}
  {s : Booked} {ts : List (Taken Booked BookedChoice Effect)}

/-- What is left to a task of the service, with what will be left to a new one. -/
def Booked.left (f : ShellTask → Nat) (fresh i : Nat) (s : Booked) : Nat :=
  match s.world.tasks[i]? with
  | some task => f task
  | none => fresh

/-- What counts of a step for a task: nothing, if another one takes it. -/
def ofTask (i : Nat) (f : List Effect → Nat) (t : Taken Booked BookedChoice Effect) : Nat :=
  if takenBy i t then f t.out else 0

/-- The service gets somewhere from its start. -/
def Visited (b : BookedService) (planInput : Dict String Json) (start : Instant) (s : Booked) :
    Prop :=
  ∃ ts, Run (bookedStep b) (opening b planInput start) ts s

omit [Scalars] in
/-- There is no more left to a task that comes up than was to come up. -/
theorem left_of_new {f : ShellTask → Nat} {fresh i : Nat} {tasks spawned : List ShellTask}
    (hi : tasks.length ≤ i) (hnew : ∀ task ∈ spawned, f task ≤ fresh) :
    (match (tasks ++ spawned)[i]? with
      | some task => f task
      | none => fresh) ≤ fresh := by
  rw [List.getElem?_append_right hi]
  cases hget : spawned[i - tasks.length]? with
  | none => exact le_refl fresh
  | some task => exact hnew task (List.mem_of_getElem? hget)

/-- Where each step of a task pays for its cost, so does each step of the service. -/
theorem left_step (f : ShellTask → Nat) (fresh : Nat) (cost gain : List Effect → Nat)
    (hpost : ∀ text, f (.load (.postTurn text)) ≤ fresh)
    (hassess : ∀ c inputs, f (.assess c inputs) ≤ fresh)
    (hpays : ∀ row o task p, task.StateHas OnLadder → task.Paced →
      taskStep b.svc row o task = some p → f p.task + cost p.effects ≤ f task + gain p.effects)
    {s s' : Booked} {c : BookedChoice} {out : List Effect} (hvisited : Visited b planInput start s)
    (h : bookedStep b s c = .ok (s', out)) (i : Nat) :
    s'.left f fresh i + ofTask i cost ⟨s, c, s', out⟩ ≤
      s.left f fresh i + ofTask i gain ⟨s, c, s', out⟩ := by
  obtain ⟨us, hrun⟩ := hvisited
  -- Every task is paced in a run; what it pays for a step is then its own matter.
  have hpaced := paced_of_run b.svc (shell_of_booked b hrun)
  rcases bookedStep_cases h with
    ⟨text, rfl, rfl, rfl⟩ | ⟨j, now, env, task, p, rfl, ht, hp, rfl, rfl⟩
  · -- A posted turn is a new task, and the tasks before it are the same.
    change Booked.left f fresh i _ + 0 ≤ _ + 0
    rw [Nat.add_zero, Nat.add_zero]
    unfold Booked.left
    rcases Nat.lt_or_ge i s.world.tasks.length with hi | hi
    · rw [List.getElem?_append_left hi]
    · have hnone : s.world.tasks[i]? = none := List.getElem?_eq_none hi
      rw [hnone]
      exact left_of_new hi (fun task htask => by
        rw [List.mem_singleton.mp htask]
        exact hpost text)
  · by_cases hij : j = i
    · subst hij
      obtain ⟨hladder, hwait⟩ := hpaced.2 task (List.mem_of_getElem? ht)
      have hlt : j < s.world.tasks.length := (List.getElem?_eq_some_iff.mp ht).1
      unfold Booked.left ofTask takenBy
      rw [if_pos (decide_eq_true rfl), if_pos (decide_eq_true rfl),
        List.getElem?_append_left (by rw [List.length_set]; exact hlt),
        List.getElem?_set_self hlt, ht]
      exact hpays s.world.row _ task p hladder hwait hp
    · -- Another task has moved.
      unfold Booked.left ofTask takenBy
      rw [if_neg (by rw [decide_eq_true_eq]; exact hij),
        if_neg (by rw [decide_eq_true_eq]; exact hij), Nat.add_zero, Nat.add_zero]
      rcases Nat.lt_or_ge i s.world.tasks.length with hi | hi
      · rw [List.getElem?_append_left (by rw [List.length_set]; exact hi),
          List.getElem?_set_ne hij]
      · -- A task that it has scheduled is an assessment.
        have hnone : s.world.tasks[i]? = none := List.getElem?_eq_none hi
        rw [hnone]
        refine left_of_new (by rw [List.length_set]; exact hi) (fun task htask => ?_)
        obtain ⟨c, inputs, rfl⟩ := taskStep_spawned b.svc hp task htask
        exact hassess c inputs

/-- So what a task does along a part of a run is paid for by what is left to it where
    the part starts and what it gets on the way. -/
theorem left_of_part (f : ShellTask → Nat) (fresh : Nat) (cost gain : List Effect → Nat)
    (hpost : ∀ text, f (.load (.postTurn text)) ≤ fresh)
    (hassess : ∀ c inputs, f (.assess c inputs) ≤ fresh)
    (hpays : ∀ row o task p, task.StateHas OnLadder → task.Paced →
      taskStep b.svc row o task = some p → f p.task + cost p.effects ≤ f task + gain p.effects)
    {s₁ s₂ : Booked} {seg : List (Taken Booked BookedChoice Effect)}
    (hvisited : Visited b planInput start s₁) (h : Run (bookedStep b) s₁ seg s₂) (i : Nat) :
    s₂.left f fresh i + (seg.map (ofTask i cost)).sum ≤
      s₁.left f fresh i + (seg.map (ofTask i gain)).sum :=
  h.cost_le_gain (Visited b planInput start) (fun s => s.left f fresh i) (ofTask i cost)
    (ofTask i gain) hvisited (fun a c s' out ⟨us, hus⟩ hstep => ⟨_, hus.snoc us a s' c out hstep⟩)
    (fun _ _ _ _ ha hstep => left_step f fresh cost gain hpost hassess hpays ha hstep i)

/-- Along a part of a run a task runs the wrapper for a turn as often as it may where
    the part starts, and twice for each move that it issues. -/
theorem runs_le_of_part {s₁ s₂ : Booked} {seg : List (Taken Booked BookedChoice Effect)}
    (hvisited : Visited b planInput start s₁) (h : Run (bookedStep b) s₁ seg s₂) (i : Nat)
    (turn : Uuid) :
    (seg.flatMap (wrapperRuns i)).countP (fun r => r.turnId = turn) ≤
      s₁.left (ShellTask.callsLeft turn) 0 i +
        2 * (seg.flatMap (movesIssued i)).countP (fun r => r.turnId = turn) := by
  have hpart := left_of_part (ShellTask.callsLeft turn) 0 (runsFor turn)
    (fun out => 2 * movesFor turn out) (fun _ => le_refl 0) (fun _ _ => le_refl 0)
    (fun _ _ _ _ hladder hwait hp => taskStep_callsLeft b.svc hladder hwait hp turn) hvisited h i
  -- Cost and gain are counted over effects, runs and moves over steps.
  have hruns : ∀ t, ofTask i (runsFor turn) t
      = (wrapperRuns i t).countP (fun r => r.turnId = turn) := by
    intro t
    unfold ofTask wrapperRuns
    split <;> rfl
  have hmoves : ∀ t, ofTask i (fun out => 2 * movesFor turn out) t
      = 2 * (movesIssued i t).countP (fun r => r.turnId = turn) := by
    intro t
    unfold ofTask movesIssued
    split <;> rfl
  rw [funext hruns, funext hmoves, List.sum_map_mul_left] at hpart
  rw [List.countP_flatMap, List.countP_flatMap]
  simp only [Function.comp_def]
  omega

/-- A task that has not run yet is an assessment, or may become one. -/
def ShellTask.scores : ShellTask → Nat
  | .assess _ _ => 1
  | _ => 0

/-- The execution of a command does not call the assessor. -/
theorem effects_of_no_assessor {svc : DevSession} {w : Working} {o : Oracle}
    (command : Command) : (callsMade svc w o command).filterMap Effect.assessor? = [] := by
  unfold callsMade
  cases command.call? with
  | none => rfl
  | some c => cases o.interviewer.called <;> rfl

/-- A step of a task pays for the assessor call that it makes. -/
theorem taskStep_scores {svc : DevSession} {row : Working} {o : Oracle} {task : ShellTask}
    {p : Progress} (h : taskStep svc row o task = some p) :
    p.task.scores + (p.effects.filterMap Effect.assessor?).length ≤ task.scores := by
  cases move_of_taskStep svc h with
  | crashed command inputs error hcall => exact le_refl 1
  | assessed command inputs e hcall =>
      cases o.assessor.called with
      | true => exact le_refl 1
      | false => exact Nat.zero_le 1
  | raised d mark command commands followUps error hone =>
      dsimp only
      rw [effects_of_no_assessor]
      exact le_refl 0
  | executed d mark command commands followUps q hone =>
      dsimp only
      rw [effects_of_no_assessor]
      exact le_refl 0
  | loaded | admitted | refused | posted | drained | overran | stuck | applied | persisted
  | spoken | unspoken | saved => exact le_refl 0

/-- A task runs the assessor's wrapper once at most. -/
theorem assessorRuns_le (h : Run (bookedStep b) (opening b planInput start) ts s) (i : Nat) :
    (ts.flatMap (assessorRuns i)).length ≤ 1 := by
  have hpart := left_of_part ShellTask.scores 1
    (fun out => (out.filterMap Effect.assessor?).length) (fun _ => 0)
    (fun _ => Nat.zero_le 1) (fun _ _ => le_refl 1)
    (fun _ _ _ _ _ _ hp => taskStep_scores hp) ⟨[], Run.nil⟩ h i
  have hruns : ∀ t, ofTask i (fun out => (out.filterMap Effect.assessor?).length) t
      = (assessorRuns i t).length := by
    intro t
    unfold ofTask assessorRuns
    split <;> rfl
  have hnone : ∀ t, ofTask i (fun _ => 0) t = 0 := by
    intro t
    unfold ofTask
    split <;> rfl
  -- The first task creates the session and scores nothing.
  have hstart : (opening b planInput start).left ShellTask.scores 1 i ≤ 1 := by
    rcases i with _ | i
    · exact Nat.zero_le 1
    · exact le_refl 1
  rw [funext hruns, funext hnone, List.map_const', List.sum_replicate_nat] at hpart
  rw [List.length_flatMap]
  omega

end Bounds

section Invocations

/-- A turn makes two attempts at most. -/
theorem attemptsMade_length_le {α ε σ : Type} {accept : ModelCallResult → Except String α}
    {invoke : ε → σ → Exit × σ} {first second : ε} {s : σ} :
    (attemptsMade accept invoke first second s).length ≤ 2 := by
  unfold attemptsMade
  split
  · exact le_refl 2
  · exact Nat.le_succ 1

variable {b : BookedService}

theorem guardedAttempts_length_le {ι α : Type} (texts : AgentTexts ι α)
    (agent : {agent : String // agent ≠ ""}) (turnId : Uuid) (inputs : ι) (env : TurnEnv)
    (accept : ModelCallResult → Except String α) (books : Books) :
    (guardedAttempts b texts agent turnId inputs env accept books).length ≤ 2 := by
  rcases guardedTurn_cases b texts agent turnId inputs env accept (fun _ _ => "") books with
    ⟨-, hnone⟩ | ⟨-, hnone⟩ | ⟨request, -, -, hattempts⟩
  · rw [hnone]
    exact Nat.zero_le 2
  · rw [hnone]
    exact Nat.zero_le 2
  · rw [hattempts, List.length_map]
    exact attemptsMade_length_le

/-- An agent call that makes an attempt has called the wrapper. -/
theorem called_of_attempts {ι α : Type} {texts : AgentTexts ι α}
    {agent : {agent : String // agent ≠ ""}} {turnId : Uuid} {inputs : ι} {env : TurnEnv}
    {accept : ModelCallResult → Except String α} {invalid : String → String → String}
    {books : Books} (h : guardedAttempts b texts agent turnId inputs env accept books ≠ []) :
    (guardedTurn b texts agent turnId inputs env (turnOfAgent b env accept invalid)
      books).1.called = true := by
  rcases guardedTurn_cases b texts agent turnId inputs env accept invalid books with
    ⟨-, hnone⟩ | ⟨-, hnone⟩ | ⟨request, -, hturn, -⟩
  · exact absurd hnone h
  · exact absurd hnone h
  · rw [hturn]
    cases (turnOfAgent b env accept invalid (env.context texts turnId inputs) request
        (books.receive env.waiting)).1 with
    | answered output => rfl
    | outputInvalid message => rfl
    | raised error => cases error <;> rfl

variable [Scalars] {t : Taken Booked BookedChoice Effect}

/-- No more than two invocations are made in a step. -/
theorem invocations_length_le (b : BookedService) (t : Taken Booked BookedChoice Effect) :
    (invocations b t).length ≤ 2 := by
  unfold invocations
  split
  · exact Nat.zero_le 2
  · split
    · next call _ =>
        cases call with
        | interviewer w command => exact guardedAttempts_length_le _ _ _ _ _ _ _
        | assessor command inputs => exact guardedAttempts_length_le _ _ _ _ _ _ _
    · exact Nat.zero_le 2

omit [Scalars] in
/-- No more than three `generate` calls are started in an invocation. -/
theorem generatesOf_le (b : BookedService) (a : ModelCallRequest × CallEnv × Books) :
    generatesOf b a ≤ 3 := by
  unfold generatesOf
  dsimp only
  split
  · next resolved backend _ _ =>
      exact (callWithRetries backend (generateCall (invocation b.agents a.1 a.2.1).request
        resolved)).started.property.2
  · exact Nat.zero_le 3

theorem generates_le (b : BookedService) (t : Taken Booked BookedChoice Effect) :
    generates b t ≤ 6 := by
  have hsum : generates b t ≤ ((invocations b t).map (generatesOf b)).length • 3 := by
    refine List.sum_le_card_nsmul _ 3 (fun n hn => ?_)
    obtain ⟨a, -, rfl⟩ := List.mem_map.mp hn
    exact generatesOf_le b a
  have hlength := invocations_length_le b t
  rw [List.length_map, Nat.nsmul_eq_mul] at hsum
  omega

omit [Scalars] in
/-- The task that makes an agent call in its next step. -/
theorem task_of_call {s : Booked} {i : Nat} {now : Instant} {env : TurnEnv} {call : AgentCall}
    (h : s.call? (.run i now env) = some call) :
    (∃ command inputs, s.world.tasks[i]? = some (.assess command inputs) ∧
      call = .assessor command inputs) ∨
    ∃ d mark command commands followUps c,
      s.world.tasks[i]? = some (.execute d mark (command :: commands) followUps) ∧
      command.call? = some c ∧ call = .interviewer d.working c := by
  unfold Booked.call? at h
  obtain ⟨task, ht, hcall⟩ := Option.bind_eq_some_iff.mp h
  cases task with
  | assess command inputs =>
      cases hcall
      exact Or.inl ⟨command, inputs, ht, rfl⟩
  | execute d mark commands followUps =>
      cases commands with
      | nil => cases hcall
      | cons command commands =>
          obtain ⟨c, hc, rfl⟩ := Option.map_eq_some_iff.mp hcall
          exact Or.inr ⟨d, mark, command, commands, followUps, c, ht, hc, rfl⟩
  | _ => cases hcall

/-- A step in which an invocation is made runs a wrapper. -/
theorem runs_of_invocations (hstep : bookedStep b t.before t.event = .ok (t.after, t.out))
    (h : invocations b t ≠ []) : ∃ i, wrapperRuns i t ≠ [] ∨ assessorRuns i t ≠ [] := by
  obtain ⟨before, event, after, out⟩ := t
  rcases bookedStep_cases hstep with
    ⟨text, hevent, -, -⟩ | ⟨i, now, env, task, p, hevent, ht, hp, hout, -⟩
  · cases hevent
    exact absurd rfl h
  cases hevent
  cases hout
  refine ⟨i, ?_⟩
  unfold wrapperRuns assessorRuns takenBy
  rw [if_pos (decide_eq_true rfl), if_pos (decide_eq_true rfl)]
  unfold invocations at h
  dsimp only at h ht hp
  -- Only a task that is about to call an agent makes invocations.
  cases hcall : before.call? (.run i now env) with
  | none =>
      rw [hcall] at h
      exact absurd rfl h
  | some call =>
      rw [hcall] at h
      rcases task_of_call hcall with
        ⟨command, inputs, htask, rfl⟩ | ⟨d, mark, command, commands, followUps, c, htask, hc, rfl⟩
      · -- The assessor: its task makes this call and is done.
        right
        rw [ht, Option.some.injEq] at htask
        subst htask
        obtain ⟨invalid, hturn⟩ := callAssessor_turn b command inputs env before.books
        have hcalled : (before.answer b i now env).1.assessor.called = true := by
          rw [Booked.answer, hcall]
          change (callAssessor b command inputs env before.books).1.called = true
          rw [hturn]
          exact called_of_attempts h
        cases move_of_taskStep b.svc hp with
        | crashed _ _ error hraised => exact List.cons_ne_nil _ _
        | assessed _ _ e hanswered =>
            dsimp only
            rw [hcalled]
            exact List.cons_ne_nil _ _
      · -- The interviewer: the call is made for the first of the commands.
        left
        rw [ht, Option.some.injEq] at htask
        subst htask
        obtain ⟨invalid, hturn⟩ := callInterviewer_turn b d.working c env before.books
        have hcalled : (callInterviewer b d.working c env before.books).1.called = true := by
          rw [hturn]
          exact called_of_attempts h
        have hmade : callsMade b.svc d.working (before.answer b i now env).1 command
            = [.interviewerCalled c (interviewerInputs b.svc d.working c)] := by
          rw [answer_of_call ht hc, callsMade, hc]
          dsimp only
          rw [if_pos hcalled]
        cases move_of_taskStep b.svc hp with
        | raised _ _ _ _ _ error hone =>
            dsimp only
            rw [hmade]
            exact List.cons_ne_nil _ _
        | executed _ _ _ _ _ q hone =>
            dsimp only
            rw [hmade]
            exact List.cons_ne_nil _ _

end Invocations

section Budgets

variable [Scalars] {b : BookedService} {planInput : Dict String Json} {start : Instant}
  {s : Booked} {ts : List (Taken Booked BookedChoice Effect)}

/-- What the runs of a wrapper cost, by their number. -/
theorem generates_of_runs {ρ : Type} {runs : Taken Booked BookedChoice Effect → List ρ} :
    (ts.map (fun t => if (runs t).isEmpty then 0 else generates b t)).sum ≤
      6 * (ts.flatMap runs).length := by
  induction ts with
  | nil => exact Nat.zero_le _
  | cons t ts ih =>
      -- Two invocations of three calls each, and only where a wrapper is run.
      have hone : (if (runs t).isEmpty then 0 else generates b t) ≤ 6 * (runs t).length := by
        cases hruns : runs t with
        | nil => exact Nat.zero_le _
        | cons r rs =>
            have hsix := generates_le b t
            rw [if_neg (by rw [List.isEmpty_cons]; exact Bool.false_ne_true), List.length_cons]
            omega
      rw [List.map_cons, List.sum_cons, List.flatMap_cons, List.length_append]
      omega

/-- When a task has issued a move, two calls for it are left to the task, and none
    for another. -/
theorem left_of_issue {t : Taken Booked BookedChoice Effect}
    (hvisited : Visited b planInput start t.before)
    (hstep : bookedStep b t.before t.event = .ok (t.after, t.out)) {i : Nat} {c : RunInterviewer}
    (hc : c ∈ movesIssued i t) (turn : Uuid) :
    t.after.left (ShellTask.callsLeft turn) 0 i ≤ if c.turnId = turn then 2 else 0 := by
  have hpays := left_step (ShellTask.callsLeft turn) 0 (runsFor turn)
    (fun out => 2 * movesFor turn out) (fun _ => le_refl 0) (fun _ _ => le_refl 0)
    (fun _ _ _ _ hladder hwait hp => taskStep_callsLeft b.svc hladder hwait hp turn)
    hvisited hstep i
  obtain ⟨us, hrun⟩ := hvisited
  have hpaced := paced_of_run b.svc (shell_of_booked b hrun)
  obtain ⟨before, event, after, out⟩ := t
  rcases bookedStep_cases hstep with
    ⟨text, hevent, -, -⟩ | ⟨j, now, env, task, p, hevent, ht, hp, hout, -⟩
  · cases hevent
    exact absurd hc List.not_mem_nil
  cases hevent
  cases hout
  -- Before the move the task had no call to make, so it has what the move brings.
  by_cases hij : j = i
  · subst hij
    unfold movesIssued takenBy at hc
    rw [if_pos (decide_eq_true rfl)] at hc
    obtain ⟨hsingle, hnone⟩ :=
      taskStep_issues b.svc (hpaced.2 task (List.mem_of_getElem? ht)).2 hp hc
    have hbefore : before.left (ShellTask.callsLeft turn) 0 j = 0 := by
      unfold Booked.left
      dsimp only at ht
      rw [ht]
      exact hnone turn
    have hgain : ofTask j (fun out => 2 * movesFor turn out)
        ⟨before, .run j now env, after, p.effects⟩ = if c.turnId = turn then 2 else 0 := by
      unfold ofTask takenBy movesFor
      rw [if_pos (decide_eq_true rfl)]
      dsimp only
      rw [hsingle, List.countP_cons, List.countP_nil]
      by_cases hturn : c.turnId = turn
      · rw [if_pos (decide_eq_true hturn), if_pos hturn]
      · rw [if_neg (by rw [decide_eq_true_eq]; exact hturn), if_neg hturn]
    dsimp only at hpays ⊢
    rw [hbefore, hgain] at hpays
    omega
  · unfold movesIssued takenBy at hc
    rw [if_neg (by rw [decide_eq_true_eq]; exact hij)] at hc
    exact absurd hc List.not_mem_nil

/-- Along a part of a run in which a task issues nothing, it makes the calls that
    were left to it. -/
theorem runs_le_left {s₁ s₂ : Booked} (hvisited : Visited b planInput start s₁)
    (h : Run (bookedStep b) s₁ ts s₂) {i : Nat} (hnone : ∀ u ∈ ts, movesIssued i u = [])
    (turn : Uuid) :
    (ts.flatMap (wrapperRuns i)).countP (fun r => r.turnId = turn) ≤
      s₁.left (ShellTask.callsLeft turn) 0 i := by
  have hpart := runs_le_of_part hvisited h i turn
  rw [List.flatMap_eq_nil_iff.mpr hnone] at hpart
  exact hpart

/-- After a task has issued a move, and until it issues the next one, it runs the
    wrapper for this move, and twice at most. -/
theorem wrapperRuns_of_issue (h : Run (bookedStep b) (opening b planInput start) ts s) {i : Nat}
    {us seg vs : List (Taken Booked BookedChoice Effect)} {t : Taken Booked BookedChoice Effect}
    {c : RunInterviewer} (hts : ts = us ++ t :: (seg ++ vs)) (hc : c ∈ movesIssued i t)
    (hseg : ∀ u ∈ seg, movesIssued i u = []) :
    (∀ r ∈ seg.flatMap (wrapperRuns i), r.turnId = c.turnId) ∧
      (seg.flatMap (wrapperRuns i)).length ≤ 2 := by
  obtain ⟨hpre, hstep⟩ := h.split us t (seg ++ vs) hts
  obtain ⟨m, hpart⟩ := (h.rest us t (seg ++ vs) hts).left
  have hafter : Visited b planInput start t.after := ⟨_, hpre.snoc us _ _ _ _ hstep⟩
  -- What is left to the task after the move bounds the rest of the part.
  have hbound : ∀ turn, (seg.flatMap (wrapperRuns i)).countP (fun r => r.turnId = turn) ≤
      if c.turnId = turn then 2 else 0 := fun turn =>
    le_trans (runs_le_left hafter hpart hseg turn) (left_of_issue ⟨us, hpre⟩ hstep hc turn)
  -- A run for another turn would have to be paid for out of nothing.
  have hturn : ∀ r ∈ seg.flatMap (wrapperRuns i), r.turnId = c.turnId := by
    intro r hr
    by_contra hother
    have hzero := hbound r.turnId
    rw [if_neg (fun heq => hother heq.symm), Nat.le_zero, List.countP_eq_zero] at hzero
    exact hzero r hr (decide_eq_true rfl)
  refine ⟨hturn, ?_⟩
  have htwo := hbound c.turnId
  rwa [if_pos rfl, List.countP_eq_length.mpr (fun r hr => decide_eq_true (hturn r hr))] at htwo

/-- Before it issues a move, a task does not run the wrapper. -/
theorem no_runs_before (h : Run (bookedStep b) (opening b planInput start) ts s) {i : Nat}
    {seg vs : List (Taken Booked BookedChoice Effect)} (hts : ts = seg ++ vs)
    (hseg : ∀ u ∈ seg, movesIssued i u = []) : seg.flatMap (wrapperRuns i) = [] := by
  subst hts
  obtain ⟨m, hpart⟩ := h.left
  rw [List.eq_nil_iff_forall_not_mem]
  intro r hr
  have hstart : (opening b planInput start).left (ShellTask.callsLeft r.turnId) 0 i = 0 := by
    rcases i with _ | i
    · rfl
    · rfl
  have hzero := runs_le_left ⟨[], Run.nil⟩ hpart hseg r.turnId
  rw [hstart, Nat.le_zero, List.countP_eq_zero] at hzero
  exact hzero r hr (decide_eq_true rfl)

/-- In every run the retries amount to what the three loops allow for together, and
    within an invocation a `generate` call is followed by another one only if it has
    ended in an error of the provider that may pass or of the connection. -/
theorem retry_budgets_compose (b : BookedService) (planInput : Dict String Json) (start : Instant)
    (ts : List (Taken Booked BookedChoice Effect)) (s : Booked)
    (h : Run (bookedStep b) (opening b planInput start) ts s) :
    RetryBudgets b ts ∧
    ∀ (backend : Backend) (call : GenerateCall) n, 1 ≤ n →
      n < (callWithRetries backend call).started.val →
        (∃ text, backend.generate call n = .backend (.transient text)) ∨
          ∃ text, backend.generate call n = .connection text := by
  refine ⟨⟨fun i us t seg vs c hts hc hseg => ?_,
    fun i seg vs hts hseg => no_runs_before h hts hseg, fun i => ?_, fun t ht hinvoked => ?_,
    fun t _ => invocations_length_le b t, fun t _ a _ => generatesOf_le b a⟩,
    fun backend call n hn hlt => ?_⟩
  · -- For a move: two runs, of six calls each.
    obtain ⟨hturn, htwo⟩ := wrapperRuns_of_issue h hts hc hseg
    refine ⟨hturn, htwo, ?_⟩
    have hcost : (seg.map (moveGenerates b i)).sum ≤ 6 * (seg.flatMap (wrapperRuns i)).length :=
      generates_of_runs
    omega
  · -- For an assessment: one run, of six calls.
    have hone := assessorRuns_le h i
    have hcost : (ts.map (scoreGenerates b i)).sum ≤ 6 * (ts.flatMap (assessorRuns i)).length :=
      generates_of_runs
    exact ⟨hone, by omega⟩
  · obtain ⟨us, -, -, hstep⟩ := h.of_mem t ht
    exact runs_of_invocations hstep hinvoked
  · -- A call that is followed by another one was reached and was worth a retry.
    have hnext : Reached backend call (n + 1) := (reached_iff_le_started (by omega)).mpr hlt
    have hretried := (hnext.2.2 n hn (Nat.lt_succ_self n)).1
    cases hr : backend.generate call n with
    | backend error =>
        rw [hr] at hretried
        cases error with
        | transient text => exact Or.inl ⟨text, rfl⟩
        | _ => cases hretried
    | connection text => exact Or.inr ⟨text, rfl⟩
    | _ =>
        rw [hr] at hretried
        cases hretried

end Budgets

section SmallBudgets

/-- Two calls end in errors that may pass, and the third one in an answer. -/
def falteringBackend : Backend :=
  ⟨fun _ n => if n < 3 then .backend (.transient "503") else .result (smallReply "[]"),
    fun _ => false⟩

theorem faltering_nonneg : ∀ r ∈ ([] : List TurnTrace), 0 ≤ r.costUsd :=
  fun _ hr => absurd hr List.not_mem_nil

/-- Two calls end in errors that may pass, and the third one in an answer that is no
    object. -/
def faltering : CallEnv where
  backend := .ok falteringBackend
  latencyMs := 800
  traceId := ⟨1⟩
  createdAt := 0
  arriving_nonneg := faltering_nonneg

/-- The small interview, with a ceiling that no answer exceeds. -/
def roomyBooked : BookedService := ⟨smallService, { smallAgents with settings := ⟨5⟩ }, 5⟩

/-- The interviewer never answers as it should. -/
def smallFaltering : List BookedChoice :=
  bookedSteps 7 0 (smallTurnEnv faltering) ++ .post "ready" ::
    bookedSteps 16 1 (smallTurnEnv faltering)

/-- The first move uses all of its budget: two runs and twelve calls. -/
theorem retry_budgets_compose_small : ∃ ts s,
    Run (@bookedStep Scalars.strict roomyBooked) (opening roomyBooked smallInput 0) ts s ∧
    (ts.flatMap (wrapperRuns 1)).length = 2 ∧
    (ts.map (@moveGenerates Scalars.strict roomyBooked 1)).sum = 12 ∧
    @RetryBudgets Scalars.strict roomyBooked ts := by
  have hrec : (record (@bookedStep Scalars.strict roomyBooked) (opening roomyBooked smallInput 0)
      smallFaltering).map (fun r => ((r.1.flatMap (wrapperRuns 1)).length,
        (r.1.map (@moveGenerates Scalars.strict roomyBooked 1)).sum)) = .ok (2, 12) := by
    decide +kernel
  rcases exists_run_of_record _ _ _ _ _ hrec with ⟨ts, s, hrun, hproj⟩
  simp only [Prod.mk.injEq] at hproj
  exact ⟨ts, s, hrun, hproj.1, hproj.2,
    (@retry_budgets_compose Scalars.strict roomyBooked smallInput 0 ts s hrun).1⟩

end SmallBudgets

end TechScreen
