import TechScreen.Services.Reachable
import TechScreen.Orchestrator.Phases

/-!
# What a Transition Asks For

The commands of a transition are executed one by one after its state has been
persisted. This module says what is true between the two: which transition an
assessment, a decision or an utterance comes from, and, in a run in which calls
and tasks are executed one after another, where what has been asked for is to be
found. A pending assessment was asked for by its candidate turn. A terminal
session has asked for one decision. What a task has still to say is what the
stored state would repeat. And a recorded decision is the one that was asked
for.

## Main definitions

* `FromPending`: An entry of the command that the state would repeat.
* `ShellTask.Redeemable`: A task that owes nothing else.
* `Settling`: Executed commands and recorded decisions were asked for.

## Theorems

* `pending_of_edge`, `runAssessor_of_edge`, `speech_pending`: What a step asks for.
* `delivered_mem_replay`: A replay contains what was delivered.
* `delivered_stored_or_pending`: A delivered utterance is stored, or would be repeated.
* `decision_recorded`: Once a decision is recorded, it is the one asked for.
-/

namespace TechScreen

open Lib

section Commands
variable [Scalars] {cfg : OrchestratorConfig} {s s' : SessionState} {e : Event}
  {out : List Command}

omit [Scalars] in
/-- Leaving a competency schedules the assessment of the answer, as staying does. -/
theorem Answer.leaving_pendingAssessments {now : Instant} (a : Answer s now)
    (cfg : OrchestratorConfig) (turnId : Uuid) :
    (a.leaving cfg turnId).pendingAssessments = s.tech.pendingAssessments ++ [turnId] := by
  unfold Answer.leaving markGap
  split
  · split <;> rfl
  · rfl

/-- A pending assessment was pending before, or is asked for in this step. -/
theorem pending_of_edge (hedge : Edge cfg s e s' out) {turn : Uuid}
    (h : turn ∈ s'.tech.pendingAssessments) :
    turn ∈ s.tech.pendingAssessments ∨ ∃ c, .runAssessor c ∈ out ∧ c.turnId = turn := by
  -- An edge that schedules an assessment asks for it in the same step.
  have hnew : ∀ turnId (c : RunAssessor), c.turnId = turnId → .runAssessor c ∈ out →
      turn ∈ s.tech.pendingAssessments ++ [turnId] →
      turn ∈ s.tech.pendingAssessments ∨ ∃ c, .runAssessor c ∈ out ∧ c.turnId = turn := by
    intro turnId c hid hc hturn
    rcases List.mem_append.mp hturn with hturn | hturn
    · exact Or.inl hturn
    · exact Or.inr ⟨c, hc, by rw [hid, List.mem_singleton.mp hturn]⟩
  cases hedge with
  | probed turnId text now a hphase hawaiting hclarify hprobes =>
      exact hnew turnId (a.assessor turnId) rfl List.mem_cons_self h
  | seeded turnId text now a seed hphase hawaiting hanswered hseed =>
      exact hnew turnId (a.assessor turnId) rfl List.mem_cons_self h
  | advanced turnId text now a following hphase hawaiting hleaves hnext =>
      refine hnew turnId (a.assessor turnId) rfl List.mem_cons_self ?_
      rw [← a.leaving_pendingAssessments cfg]
      exact h
  | finished turnId text now a hphase hawaiting hleaves hlast =>
      refine hnew turnId (a.assessor turnId) rfl List.mem_cons_self ?_
      rw [← a.leaving_pendingAssessments cfg]
      exact h
  | delivered turnId output now hphase hawaiting hpending =>
      rcases noteDrift_fst s output.internalMoveExecuted cfg with ⟨drift, hdrift⟩
      simp only [delivered, hdrift] at h
      exact Or.inl h
  -- Results only take turns off the list.
  | assessed forTurnId output now hlive hpending =>
      rw [onAssessmentCompleted, if_neg (not_not.mpr hpending)] at h
      exact Or.inl (List.mem_of_mem_filter h)
  | assessmentFailed forTurnId errorKind now hlive hpending =>
      rw [onAssessmentFailed, if_neg (not_not.mpr hpending)] at h
      cases hfocus : s.tech.assessmentFocus.get? forTurnId with
      | none =>
          simp only [hfocus] at h
          exact Or.inl (List.mem_of_mem_filter h)
      | some node =>
          simp only [hfocus] at h
          exact Or.inl (List.mem_of_mem_filter h)
  | _ => exact Or.inl h

/-- An assessment is asked for by the candidate turn that it is for. -/
theorem runAssessor_of_edge (hedge : Edge cfg s e s' out) {c : RunAssessor}
    (h : Command.runAssessor c ∈ out) :
    ∃ text now, e = .candidateTurnReceived c.turnId text now := by
  have hgap : ∀ {now} (a : Answer s now), Command.runAssessor c ∉ a.gap cfg := by
    intro now a hc
    rw [Answer.gap] at hc
    split at hc
    · simp at hc
    · exact absurd hc List.not_mem_nil
  cases hedge with
  | probed turnId text now a hphase hawaiting hclarify hprobes =>
      simp at h
      exact ⟨text, now, by rw [h]; rfl⟩
  | seeded turnId text now a seed hphase hawaiting hanswered hseed =>
      simp at h
      exact ⟨text, now, by rw [h]; rfl⟩
  | advanced turnId text now a following hphase hawaiting hleaves hnext =>
      simp [hgap a] at h
      exact ⟨text, now, by rw [h]; rfl⟩
  | finished turnId text now a hphase hawaiting hleaves hlast =>
      simp [hgap a] at h
      exact ⟨text, now, by rw [h]; rfl⟩
  | aborted e reason decision persist hlive hturn => cases persist <;> simp [abort] at h
  | reconnected now hlive =>
      rw [onReconnected] at h
      cases hp : s.pendingCommand with
      | none => simp [hp] at h
      | some c => simp [hp] at h
  | _ => simp at h

/-- Every pending assessment was asked for. -/
theorem SessionRun.pending_requested {sessionId : Uuid} {planInput : Dict String Json}
    {ms : List (Taken SessionState Event Command)} (h : SessionRun cfg sessionId planInput ms s) :
    ∀ turn ∈ s.tech.pendingAssessments, ∃ c, .runAssessor c ∈ outputs ms ∧ c.turnId = turn := by
  induction h with
  | nil => exact fun turn hturn => absurd hturn List.not_mem_nil
  | snoc ms a b e out _ hab ih =>
      intro turn hturn
      rw [outputs_snoc]
      rcases pending_of_edge (edge_of_step hab) hturn with hold | ⟨c, hc, hid⟩
      · rcases ih turn hold with ⟨c, hc, hid⟩
        exact ⟨c, List.mem_append_left _ hc, hid⟩
      · exact ⟨c, List.mem_append_right _ hc, hid⟩

/-- A terminal session has asked for exactly one decision. -/
theorem SessionRun.decision_of_terminal {sessionId : Uuid} {planInput : Dict String Json}
    {ms : List (Taken SessionState Event Command)} (h : SessionRun cfg sessionId planInput ms s)
    (hs : ¬ live s) :
    ∃ c, .recordDecision c ∈ outputs ms ∧ ∀ c', .recordDecision c' ∈ outputs ms → c' = c := by
  have hone := h.decisions
  rw [if_neg hs, TechScreen.decisions, List.countP_eq_length_filter, List.length_eq_one_iff] at hone
  rcases hone with ⟨command, hfilter⟩
  have hmem : ∀ x, x ∈ outputs ms ∧ x.isDecision = true ↔ x = command := by
    intro x
    rw [← List.mem_filter, hfilter, List.mem_singleton]
  rcases (hmem command).mpr rfl with ⟨hin, hdecision⟩
  cases command with
  | recordDecision c =>
      refine ⟨c, hin, fun c' hc' => ?_⟩
      have heq := (hmem (.recordDecision c')).mp ⟨hc', rfl⟩
      rw [Command.recordDecision.injEq] at heq
      exact heq
  | _ => exact absurd hdecision Bool.false_ne_true

/-- A session that has asked for a decision is terminal. -/
theorem SessionRun.terminal_of_decision {sessionId : Uuid} {planInput : Dict String Json}
    {ms : List (Taken SessionState Event Command)} (h : SessionRun cfg sessionId planInput ms s)
    {c : RecordDecision} (hc : Command.recordDecision c ∈ outputs ms) : ¬ live s := by
  intro hs
  have hnone := h.decisions
  rw [if_pos hs, TechScreen.decisions, List.countP_eq_zero] at hnone
  exact hnone _ hc rfl

end Commands

section Speech
variable (svc : DevSession)

/-- The entry belongs to the command that the state would have repeated. -/
def FromPending (s : SessionState) (x : TranscriptEntry) : Prop :=
  live s ∧ ∃ c, s.pendingCommand = some c ∧ x ∈ c.entries svc s

/-- What a transition says is what its state would repeat. -/
theorem speech_pending [Scalars] {cfg : OrchestratorConfig} {s s' : SessionState} {e : Event}
    {out : List Command} (hedge : Edge cfg s e s' out) {c : Command} (hc : c ∈ out)
    {x : TranscriptEntry} (hx : x ∈ c.entries svc s') : FromPending svc s' x := by
  -- A gap is recorded, and nobody hears of it.
  have hgap : ∀ {now} (a : Answer s now), c ∈ a.gap cfg → x ∉ c.entries svc s' := by
    intro now a hc hx
    rw [Answer.gap] at hc
    split at hc
    · rw [List.mem_singleton.mp hc] at hx
      exact absurd hx List.not_mem_nil
    · exact absurd hc List.not_mem_nil
  have hsilent : (∀ c ∈ out, ∀ x, x ∉ c.entries svc s') → FromPending svc s' x :=
    fun h => absurd hx (h c hc x)
  cases hedge with
  -- The edges that speak set the pending command to what they say.
  | opened now plan hphase hplan =>
      simp only [List.mem_cons, List.not_mem_nil, or_false] at hc
      rcases hc with rfl | rfl
      · exact ⟨by simp [live, opened, terminalPhases], _, rfl, hx⟩
      · exact absurd hx List.not_mem_nil
  | closed e activity hphase =>
      simp only [List.mem_cons, List.not_mem_nil, or_false] at hc
      rcases hc with rfl | rfl
      · exact ⟨by simp [live, enterClose, terminalPhases], _, rfl, hx⟩
      · exact absurd hx List.not_mem_nil
  | delivered turnId output now hphase hawaiting hpending =>
      simp only [List.mem_cons, List.not_mem_nil, or_false] at hc
      rcases hc with rfl | rfl
      · refine ⟨?_, _, rfl, hx⟩
        rcases hphase with hp | hp <;> simp [live, delivered, terminalPhases, hp]
      · exact absurd hx List.not_mem_nil
  | reconnected now hlive =>
      rw [onReconnected] at hc
      cases hp : s.pendingCommand with
      | none =>
          simp only [hp, List.mem_singleton] at hc
          rw [hc] at hx
          exact absurd hx List.not_mem_nil
      | some p =>
          simp only [hp, List.mem_cons, List.not_mem_nil, or_false] at hc
          rcases hc with rfl | rfl
          · exact ⟨hlive, p, hp, hx⟩
          · exact absurd hx List.not_mem_nil
  -- The others ask for calls and records, which are silent.
  | advanced turnId text now a following hphase hawaiting hleaves hnext =>
      simp only [List.mem_cons, List.mem_append, List.not_mem_nil, or_false] at hc
      rcases hc with rfl | rfl | hc | rfl
      · exact absurd hx List.not_mem_nil
      · exact absurd hx List.not_mem_nil
      · exact absurd hx (hgap a hc)
      · exact absurd hx List.not_mem_nil
  | finished turnId text now a hphase hawaiting hleaves hlast =>
      simp only [List.mem_cons, List.mem_append, List.not_mem_nil, or_false] at hc
      rcases hc with rfl | rfl | hc | rfl
      · exact absurd hx List.not_mem_nil
      · exact absurd hx List.not_mem_nil
      · exact absurd hx (hgap a hc)
      · exact absurd hx List.not_mem_nil
  | aborted e reason decision persist hlive hturn =>
      refine hsilent ?_
      cases persist <;> simp [abort, Command.entries]
  | _ => exact hsilent (by simp [Command.entries, PendingCommand.entries])

/-- The utterances that a machine's run delivers are in the transcript of the
    replay of its events. -/
theorem delivered_mem_replay [Scalars] {es : List Event} {w w' : Working} {s' : SessionState}
    {out : List Command} (hfeed : feed (step svc.config) w.state es = .ok (s', out))
    (h : replay svc w es = .ok w') {c : DeliverUtterance} (hc : .deliverUtterance c ∈ out) :
    ⟨.interviewer, c.utterance, some c.turnId⟩ ∈ w'.transcript := by
  induction es generalizing w out with
  | nil =>
      simp only [feed, Except.ok.injEq, Prod.mk.injEq] at hfeed
      rw [← hfeed.2] at hc
      exact absurd hc List.not_mem_nil
  | cons e es ih =>
      rw [replay, List.foldlM_cons] at h
      cases ht : transition w.state e svc.config with
      | error x =>
          rw [applyEvent, ht] at h
          exact absurd h (by simp [Except.map, bind, Except.bind])
      | ok r =>
          -- The first event: it says what it delivers, or a later one does.
          have hone : step svc.config w.state e = .ok (r.newState, r.commands) :=
            (step_eq_ok_iff _ _ _ _ _).mpr ht
          rw [feed_cons_ok _ _ _ _ _ _ hone] at hfeed
          rw [applyEvent, ht] at h
          cases hf : feed (step svc.config) r.newState es with
          | error x => rw [hf] at hfeed; exact absurd hfeed (by simp [Except.map])
          | ok q =>
              rcases q with ⟨s₁, out₁⟩
              rw [hf] at hfeed
              simp only [Except.map, Except.ok.injEq, Prod.mk.injEq] at hfeed
              rw [hfeed.1] at hf
              rw [← hfeed.2] at hc
              rcases List.mem_append.mp hc with hc | hc
              · refine (said_mem_replay svc h).1 _ (List.mem_append_right _ ?_)
                exact List.mem_flatMap.mpr ⟨_, hc, List.mem_singleton_self _⟩
              · exact ih hf h hc

end Speech

section Tasks
variable (svc : DevSession)

/-- All that a task owes, or will owe, is what its state would repeat. -/
def ShellTask.Redeemable : ShellTask → Prop
  | .persist d _ commands => ∀ x ∈ commands.flatMap (Command.entries svc d.working.state),
      FromPending svc d.working.state x
  | .execute d mark commands followUps =>
      ∀ x ∈ (ShellTask.execute d mark commands followUps).owes svc,
        FromPending svc d.working.state x
  | .save d mark followUps =>
      ∀ x ∈ (ShellTask.save d mark followUps).owes svc, FromPending svc d.working.state x
  | _ => True

variable [Scalars]

theorem taskStep_redeemable {row : Working} {o : Oracle} {task : ShellTask} {p : Progress}
    (hquiet : task.Quiet svc) (hold : task.Redeemable svc)
    (h : taskStep svc row o task = some p) : p.task.Redeemable svc := by
  cases move_of_taskStep svc h with
  | crashed | assessed | loaded | admitted | refused | posted | drained | overran | stuck
  | unspoken | raised | saved => exact trivial
  | applied d e queue r hqueue hsteps hr =>
      intro x hx
      rcases List.mem_flatMap.mp hx with ⟨c, hc, hin⟩
      exact speech_pending svc (edge_of_transition hr) hc hin
  | persisted d e commands =>
      intro x hx
      rw [ShellTask.owes, List.drop_length, List.nil_append] at hx
      exact hold x hx
  | spoken d mark followUps hmark =>
      intro x hx
      rw [(taskStep_owes svc hquiet rfl h).1] at hx
      exact hold x hx
  | executed d mark command commands followUps q hone =>
      intro x hx
      rw [(taskStep_owes svc hquiet rfl h).1] at hx
      exact hold x hx

/-- Every task of the service is redeemable, however the tasks interleave. -/
theorem tasks_redeemable {planInput : Dict String Json} {now : Instant}
    {ts : List (Taken World Choice Effect)} {w : World}
    (h : Run (shellStep svc) (created svc planInput now) ts w) :
    ∀ task ∈ w.tasks, task.Quiet svc ∧ task.Redeemable svc := by
  refine shell_tasks svc (Q := fun task => task.Quiet svc ∧ task.Redeemable svc) ?_
    (fun _ => ⟨trivial, trivial⟩) (fun _ _ => ⟨trivial, trivial⟩)
    (fun us a o task p _ _ hp hkept => ?_) h
  · exact ⟨fun e he => absurd he List.not_mem_nil, trivial⟩
  · exact ⟨(taskStep_quiet svc hkept.1 hp).1, taskStep_redeemable svc hkept.1 hkept.2 hp⟩

end Tasks

section OneAtATime
variable [Scalars] (svc : DevSession) {planInput : Dict String Json} {now : Instant}
  {ts : List (Taken World Choice Effect)} {w : World}

omit [Scalars] in
theorem ShellTask.state?_of_owes {task : ShellTask} (h : task.owes svc ≠ []) :
    task.state? ≠ none ∧ task.rests = false := by
  cases task with
  | execute d mark commands followUps => exact ⟨Option.some_ne_none _, rfl⟩
  | save d mark followUps => exact ⟨Option.some_ne_none _, rfl⟩
  | _ => exact absurd rfl h

/-- A task under way is in step with the row. -/
theorem matches_of_sequential (h : Run (shellStep svc) (created svc planInput now) ts w)
    (hts : Sequential ts) {i : Nat} {task : ShellTask} (ht : w.tasks[i]? = some task)
    (hholds : task.state? ≠ none) : task.Matches svc w.row := by
  rcases sequential_run svc h hts with ⟨hdate, hcurrent, _⟩
  exact (machine_of_upToDate svc h hdate).1.inStep i task ht (hcurrent i task ht hholds)

/-- The stored row is the replay of the accepted events, up to what one task
    still owes. -/
theorem serial_of_sequential (h : Run (shellStep svc) (created svc planInput now) ts w)
    (hts : Sequential ts) : Serial svc (created svc planInput now).row (outputs ts) w := by
  rcases sequential_run svc h hts with ⟨hdate, hcurrent, hone⟩
  have htask : ∀ i, w.owes svc i ≠ [] → ∃ task, w.tasks[i]? = some task ∧
      task.state? ≠ none ∧ task.rests = false := by
    intro i hi
    cases ht : w.tasks[i]? with
    | none => rw [World.owes, ht] at hi; exact absurd rfl hi
    | some task =>
        rw [World.owes_of_task svc ht] at hi
        exact ⟨task, rfl, ShellTask.state?_of_owes svc hi⟩
  rcases (machine_of_upToDate svc h hdate).1.serial with
    (⟨i, hi, hstale⟩ | ⟨i, j, hij, hi, hj⟩) | hserial
  · rcases htask i hi with ⟨task, ht, hholds, _⟩
    exact absurd (hcurrent i task ht hholds) hstale
  · rcases htask i hi with ⟨t, ht, _, hti⟩
    rcases htask j hj with ⟨u, hu, _, huj⟩
    exact absurd (hone i j t u ht hu hti huj) hij
  · exact hserial

/-- A delivered utterance is stored, or the stored state would repeat it. -/
theorem delivered_stored_or_pending
    (h : Run (shellStep svc) (created svc planInput now) ts w) (hts : Sequential ts)
    {c : DeliverUtterance} (hc : .deliverUtterance c ∈ requested (outputs ts)) :
    ⟨.interviewer, c.utterance, some c.turnId⟩ ∈ w.row.transcript ∨
      FromPending svc w.row.state ⟨.interviewer, c.utterance, some c.turnId⟩ := by
  -- The row is a replay of the events that the machine has accepted.
  rcases machine_of_upToDate svc h (upToDate_of_sequential svc h hts) with
    ⟨_, ms, hrun, hevents, houtputs⟩
  rcases serial_of_sequential svc h hts with ⟨debt, hreplay, hall, hdebt⟩
  have hfeed := (feed_eq_ok_iff _ (accepted (outputs ts)) _ _ _).mpr ⟨ms, hrun, hevents, houtputs⟩
  have hmem := delivered_mem_replay svc hfeed hreplay hc
  rcases List.mem_append.mp hmem with hmem | hmem
  · exact Or.inl hmem
  · -- What the replay has and the row has not is what one task still owes.
    rcases hdebt with rfl | ⟨i, hi⟩
    · exact absurd hmem List.not_mem_nil
    · have howes : w.owes svc i ≠ [] := by
        rw [hi]
        exact List.ne_nil_of_mem hmem
      cases ht : w.tasks[i]? with
      | none => rw [World.owes, ht] at howes; exact absurd rfl howes
      | some task =>
          rw [World.owes_of_task svc ht] at hi howes
          have hmatch := matches_of_sequential svc h hts ht (ShellTask.state?_of_owes svc howes).1
          have hredeem := (tasks_redeemable svc h task (List.mem_of_getElem? ht)).2
          rw [← hi] at hmem
          refine Or.inr ?_
          cases task with
          | execute d mark commands followUps =>
              rw [← hmatch.1]
              exact hredeem _ hmem
          | save d mark followUps =>
              rw [← hmatch.1]
              exact hredeem _ hmem
          | _ => exact absurd rfl howes

/-- The commands under execution and the recorded decisions were asked for. -/
structure Settling (outs : List Effect) (w : World) : Prop where
  executing : ∀ d mark commands followUps, .execute d mark commands followUps ∈ w.tasks →
    ∀ c ∈ commands, c ∈ requested outs
  recorded : ∀ reason ∈ w.decisions, ∃ c, .recordDecision c ∈ requested outs ∧
    reason = recordedReason w.row.state c

/-- A task that executes commands has just persisted them, or has executed some
    already. -/
theorem execute_of_taskStep {row : Working} {o : Oracle} {task : ShellTask} {p : Progress}
    {d : Drive} {mark : Nat} {commands : List Command} {followUps : List Event}
    (htask : p.task = .execute d mark commands followUps) (h : taskStep svc row o task = some p) :
    (∃ e, p.effects = [.accepted e commands]) ∨
      ∃ d' mark' commands' followUps', task = .execute d' mark' commands' followUps' ∧
        commands ⊆ commands' := by
  cases move_of_taskStep svc h with
  | persisted d' e commands' =>
      cases htask
      exact Or.inl ⟨e, rfl⟩
  | executed d' mark' command rest followUps' q hone =>
      cases htask
      exact Or.inr ⟨d', _, command :: commands, followUps', rfl, List.subset_cons_self _ _⟩
  | crashed | assessed | loaded | admitted | refused | posted | drained | overran | stuck
  | applied | spoken | unspoken | raised | saved => cases htask

/-- Only the execution of a decision records one. -/
theorem decision_of_taskStep {row : Working} {o : Oracle} {task : ShellTask} {p : Progress}
    {reason : String} (hreason : reason ∈ p.decisions) (h : taskStep svc row o task = some p) :
    ∃ d mark c commands followUps,
      task = .execute d mark (.recordDecision c :: commands) followUps ∧
      reason = recordedReason d.working.state c := by
  cases move_of_taskStep svc h with
  | executed d mark command commands followUps q hone =>
      -- No other command under execution records anything.
      have hpending : ∀ c, executePending svc d.working o c = .ok q → q.decisions = [] := by
        intro c hc
        cases c with
        | runInterviewer c =>
            rw [executePending] at hc
            cases hr : runInterviewer o c with
            | error x => rw [hr] at hc; cases hc
            | ok e => rw [hr] at hc; cases hc; rfl
        | _ => cases hc; rfl
      cases command with
      | recordDecision c =>
          cases hone
          exact ⟨d, mark, c, commands, followUps, rfl, List.mem_singleton.mp hreason⟩
      | runInterviewer c =>
          rw [hpending (.runInterviewer c) hone] at hreason
          exact absurd hreason List.not_mem_nil
      | reissuePendingCommand c =>
          rw [hpending c hone] at hreason
          exact absurd hreason List.not_mem_nil
      | _ =>
          cases hone
          exact absurd hreason List.not_mem_nil
  | crashed | assessed | loaded | admitted | refused | posted | drained | overran | stuck
  | applied | persisted | spoken | unspoken | raised | saved =>
      exact absurd hreason List.not_mem_nil

/-- Once a session is terminal, no task changes its stored state. -/
theorem terminal_row {a : World} {o : Oracle} {task : ShellTask} {p : Progress}
    (hdead : ¬ live a.row.state) (hmatch : task.state? ≠ none → task.Matches svc a.row)
    (hp : taskStep svc a.row o task = some p) : p.row.state = a.row.state := by
  cases hw : task.writes with
  | false => rw [taskStep_row svc hw hp]
  | true =>
      have hm := hmatch (ShellTask.state?_of_writes hw)
      cases task with
      | persist d e commands =>
          cases hp
          have hstep := (step_eq_ok_iff _ _ _ _ _).mp (step_of_terminal svc.config hdead e)
          have hsame := hm.1.symm.trans hstep
          rw [Except.ok.injEq, TransitionResult.mk.injEq] at hsame
          exact hsame.1
      | save d mark followUps =>
          cases hp
          exact hm.1
      | _ => exact absurd hw Bool.false_ne_true

theorem settling_of_sequential (h : Run (shellStep svc) (created svc planInput now) ts w)
    (hts : Sequential ts) : Settling (outputs ts) w := by
  induction h with
  | nil =>
      refine ⟨fun d mark commands followUps htask => ?_, fun reason hreason => ?_⟩
      · rw [created, List.mem_singleton] at htask
        cases htask
      · exact absurd hreason List.not_mem_nil
  | snoc ts a b c out hrun hab ih =>
      have hpre : Sequential ts := fun t ht => hts t (List.mem_append_left _ ht)
      have hold := ih hpre
      -- What was asked for stays asked for.
      have hgrow : ∀ {x}, x ∈ requested (outputs ts) → x ∈ requested (outputs ts ++ out) := by
        intro x hx
        rw [requested_append]
        exact List.mem_append_left _ hx
      rw [outputs_snoc]
      rcases shellStep_cases svc hab with
        ⟨text, rfl, rfl, rfl⟩ | ⟨i, o, task, p, rfl, ht, hp, rfl, rfl⟩
      · refine ⟨fun d mark commands followUps htask c hc => ?_, fun reason hreason => ?_⟩
        · rcases List.mem_append.mp htask with htask | htask
          · exact hgrow (hold.executing d mark commands followUps htask c hc)
          · cases List.mem_singleton.mp htask
        · rcases hold.recorded reason hreason with ⟨c, hc, hr⟩
          exact ⟨c, hgrow hc, hr⟩
      · -- A step stores what was asked for in this step, or executes what was before.
        have hmatch : task.state? ≠ none → task.Matches svc a.row :=
          matches_of_sequential svc hrun hpre ht
        refine ⟨fun d mark commands followUps htask c hc => ?_, fun reason hreason => ?_⟩
        · rcases List.mem_append.mp htask with htask | htask
          · rcases List.mem_or_eq_of_mem_set htask with htask | heq
            · exact hgrow (hold.executing d mark commands followUps htask c hc)
            · rcases execute_of_taskStep svc heq.symm hp with
                ⟨e, heffects⟩ | ⟨d', mark', commands', followUps', rfl, hsub⟩
              · rw [requested_append, heffects]
                refine List.mem_append_right _ ?_
                simp only [requested, List.flatMap_cons, List.flatMap_nil, List.append_nil]
                exact hc
              · exact hgrow (hold.executing d' mark' commands' followUps'
                  (List.mem_of_getElem? ht) c (hsub hc))
          · rcases taskStep_spawned svc hp _ htask with ⟨c, inputs, heq⟩
            cases heq
        · rcases List.mem_append.mp hreason with hreason | hreason
          · rcases hold.recorded reason hreason with ⟨c, hc, hr⟩
            refine ⟨c, hgrow hc, ?_⟩
            rcases (machine_of_upToDate svc hrun (upToDate_of_sequential svc hrun hpre)).2 with
              ⟨ms, hms, _, houtputs⟩
            have hdead : ¬ live a.row.state :=
              hms.terminal_of_decision (by rw [houtputs]; exact hc)
            rw [hr, terminal_row svc hdead hmatch hp]
          · rcases decision_of_taskStep svc hreason hp with
              ⟨d, mark, c, commands, followUps, rfl, hr⟩
            refine ⟨c, hgrow (hold.executing d mark _ followUps (List.mem_of_getElem? ht) _
              List.mem_cons_self), ?_⟩
            rw [hr, (hmatch (Option.some_ne_none _)).1, taskStep_row svc rfl hp]

/-- Once a decision is recorded, it is the one that was asked for. -/
theorem decision_recorded (h : Run (shellStep svc) (created svc planInput now) ts w)
    (hts : Sequential ts) (hdecisions : w.decisions ≠ []) {c : RecordDecision}
    (hc : .recordDecision c ∈ requested (outputs ts)) :
    recordedReason w.row.state c ∈ w.decisions := by
  rcases (machine_of_upToDate svc h (upToDate_of_sequential svc h hts)).2 with
    ⟨ms, hms, _, houtputs⟩
  rw [← houtputs] at hc
  rcases hms.decision_of_terminal (hms.terminal_of_decision hc) with ⟨c₀, _, honly⟩
  rcases List.exists_mem_of_ne_nil _ hdecisions with ⟨reason, hreason⟩
  rcases (settling_of_sequential svc h hts).recorded reason hreason with ⟨c', hc', hr⟩
  rw [← houtputs] at hc'
  rw [honly c hc, ← honly c' hc', ← hr]
  exact hreason

end OneAtATime

end TechScreen
