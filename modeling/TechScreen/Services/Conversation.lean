import TechScreen.Services.Settling

/-!
# The Conversation

What a session amounts to when calls and tasks are executed one after another: a
run of the machine together with its transcript, in which an event adds the
candidate's message and what its commands say. The steps in between, the copies
and the two persists of every event are gone.

Not every event of the machine's alphabet can come up in it. A message comes to a
session that takes one, and is named after its place among the messages; a reply
or a failure is that of the call in flight; a tick follows the closing. The
conversation of a run of the service is a run of these events, and an assessor
task is started by the step of it that has asked for the assessment.

## Main definitions

* `converse`: One event of the conversation.
* `Event.Fits`: An event that can come up in it.
* `Choice.Worded`: Messages and utterances that are not empty.
* `conversation`: The conversation that a run of the service holds.

## Theorems

* `fits_of_run`: What the tasks wait for fits the row.
* `conversation_of_run`: The conversation of a run ends at the row.
* `assess_of_run`: Where an assessor task comes from.
-/

namespace TechScreen

open Lib

section Converse
variable [Scalars] {svc : DevSession}

/-- One event of the conversation: the candidate's message, the transition, and
    what its commands say. -/
def converse (svc : DevSession) : Step Working Event Command OrchestratorError := fun w e =>
  (transition w.state e svc.config).map (fun r =>
    (⟨r.newState, w.transcript ++ e.said ++ r.commands.flatMap (Command.entries svc r.newState)⟩,
      r.commands))

theorem converse_eq_ok_iff (w w' : Working) (e : Event) (out : List Command) :
    converse svc w e = .ok (w', out) ↔ transition w.state e svc.config = .ok ⟨w'.state, out⟩ ∧
      w'.transcript = w.transcript ++ e.said ++ out.flatMap (Command.entries svc w'.state) := by
  obtain ⟨s', transcript'⟩ := w'
  unfold converse
  cases h : transition w.state e svc.config with
  | error x => simp only [Except.map, reduceCtorEq, false_and]
  | ok r =>
      obtain ⟨s, commands⟩ := r
      simp only [Except.map, Except.ok.injEq, Prod.mk.injEq, Working.mk.injEq,
        TransitionResult.mk.injEq]
      constructor
      · rintro ⟨⟨rfl, rfl⟩, rfl⟩
        exact ⟨⟨rfl, rfl⟩, rfl⟩
      · rintro ⟨⟨rfl, rfl⟩, rfl⟩
        exact ⟨⟨rfl, rfl⟩, rfl⟩

/-- The conversation is the replay of its events. -/
theorem replay_of_converse {w w' : Working} {ms : List (Taken Working Event Command)}
    (h : Run (converse svc) w ms w') : replay svc w (ms.map Taken.event) = .ok w' := by
  induction h with
  | nil => rfl
  | snoc ms a b e out _ hab ih =>
      obtain ⟨hstep, htranscript⟩ := (converse_eq_ok_iff a b e out).mp hab
      rw [List.map_append, List.map_cons, List.map_nil, replay_snoc svc w a _ e ih, applyEvent,
        hstep]
      simp only [Except.map, ← htranscript]

section States
variable {w : Working} {planInput : Dict String Json} {ms : List (Taken Working Event Command)}
  {transcript : List TranscriptEntry}

/-- Its states are states of the machine. -/
theorem session_of_converse
    (h : Run (converse svc) ⟨initialState svc.sessionId planInput svc.config, transcript⟩ ms w) :
    ∃ ts, SessionRun svc.config svc.sessionId planInput ts w.state := by
  refine h.invariant (fun w => ∃ ts, SessionRun svc.config svc.sessionId planInput ts w.state)
    ⟨[], Run.nil⟩ (fun a e b out ha hab => ?_)
  obtain ⟨ts, hts⟩ := ha
  exact ⟨_, hts.snoc ts a.state b.state e out
    ((step_eq_ok_iff _ _ _ _ _).mpr ((converse_eq_ok_iff a b e out).mp hab).1)⟩

theorem stateInv_of_converse
    (h : Run (converse svc) ⟨initialState svc.sessionId planInput svc.config, transcript⟩ ms w) :
    StateInv svc.config w.state ∧ w.state.sessionId = svc.sessionId := by
  obtain ⟨ts, hts⟩ := session_of_converse h
  exact ⟨SessionRun.stateInv hts, (SessionRun.identity hts).id_eq⟩

/-- The transcript grows. -/
theorem transcript_prefix_of_converse {a : Working} (h : Run (converse svc) a ms w) :
    a.transcript <+: w.transcript := by
  refine h.invariant (fun w => a.transcript <+: w.transcript) (List.prefix_refl _)
    (fun b e c out hb hbc => hb.trans ?_)
  rw [((converse_eq_ok_iff b c e out).mp hbc).2, List.append_assoc]
  exact List.prefix_append _ _

end States

/-- An event that can come up in the conversation. -/
def Event.Fits (svc : DevSession) (w : Working) : Event → Prop
  | .sessionStarted _ => w.state.phase = .created
  | .candidateTurnReceived turnId text _ => Admitted w.state ∧ text ≠ "" ∧
      turnId = candidateTurnId svc.sessionId
        (w.transcript.countP (fun entry => entry.role = .candidate))
  | .interviewerReplyReady turnId output _ => output.utterance ≠ "" ∧
      ∃ c, Calling w.state c ∧ c.turnId = turnId
  | .interviewerFailed turnId _ _ => ∃ c, Calling w.state c ∧ c.turnId = turnId
  | .timerTick _ => w.state.phase = .close
  | .reconnected _ => False
  | _ => True

/-- A conversation up to one of its steps, and that step. -/
theorem split_of_converse {a w : Working} {ms : List (Taken Working Event Command)}
    (h : Run (converse svc) a ms w) (hfits : ∀ m ∈ ms, m.event.Fits svc m.before)
    (us : List (Taken Working Event Command)) (m : Taken Working Event Command)
    (vs : List (Taken Working Event Command)) (hsplit : ms = us ++ m :: vs) :
    Run (converse svc) a us m.before ∧ converse svc m.before m.event = .ok (m.after, m.out) ∧
      (∀ k ∈ us, k.event.Fits svc k.before) ∧ m.event.Fits svc m.before := by
  obtain ⟨hrun, hstep⟩ := Run.split h us m vs hsplit
  refine ⟨hrun, hstep, fun k hk => hfits k ?_, hfits m ?_⟩
  · rw [hsplit]
    exact List.mem_append_left _ hk
  · rw [hsplit]
    exact List.mem_append_right _ List.mem_cons_self

/-- Requests bring a text, and the interviewer does not return an empty
    utterance. -/
def Choice.Worded : Choice → Prop
  | .post text => text ≠ ""
  | .run _ o => ∀ output, o.interviewer = .output output → output.utterance ≠ ""

end Converse

section Tasks
variable (svc : DevSession)

def Errand.Fits : Errand → Prop
  | .feed e => ∀ w, e.Fits svc w
  | .postTurn text => text ≠ ""

/-- What a task waits for can come up in the conversation: next, if it is in the
    queue of a drive, or in the state of the copy, if it has just been given. -/
def ShellTask.Fits (row : Working) : ShellTask → Prop
  | .load errand => errand.Fits svc
  | .loadTranscript errand _ => errand.Fits svc
  | .drive d => ∀ e ∈ d.queue, e.Fits svc row
  | .persist d e _ => d.queue = [] ∧ e.Fits svc row
  | .execute d _ _ followUps => ∀ e ∈ d.queue ++ followUps,
      ∀ transcript, e.Fits svc ⟨d.working.state, transcript⟩
  | .save d _ followUps => ∀ e ∈ d.queue ++ followUps,
      ∀ transcript, e.Fits svc ⟨d.working.state, transcript⟩
  | _ => True

theorem ShellTask.fits_of_rests {row : Working} {task : ShellTask} (h : task.rests = true) :
    task.Fits svc row := by
  cases task with
  | assess | done | failed => exact trivial
  | load | loadTranscript | drive | persist | execute | save => cases h

/-- What an assessor call becomes can always come up. -/
theorem fits_of_runAssessor {o : Oracle} {command : RunAssessor} {e : Event}
    (h : runAssessor o command = .ok e) : (Errand.feed e).Fits svc := by
  intro w
  unfold runAssessor at h
  split at h <;> cases h <;> exact trivial

variable [Scalars]

/-- What a command gives can come up next. -/
theorem fits_of_executeOne {w : Working} {o : Oracle} {command : Command} {q : Performed}
    {steps : Nat} (h : executeOne svc w o command = .ok q) (hdue : command.Due w.state steps)
    (hworded : ∀ output, o.interviewer = .output output → output.utterance ≠ "") :
    ∀ e ∈ q.followUps, ∀ transcript, e.Fits svc ⟨w.state, transcript⟩ := by
  intro e he transcript
  unfold Command.Due at hdue
  cases hcall : command.call? with
  | some c =>
      -- A call gives the reply to the move in flight, or its failure.
      rw [hcall] at hdue
      rw [executeOne_of_call svc hcall] at h
      cases hr : runInterviewer o c with
      | error x =>
          rw [hr] at h
          cases h
      | ok event =>
          rw [hr] at h
          cases h
          rw [List.mem_singleton.mp he]
          unfold runInterviewer at hr
          split at hr
          · cases hr
            exact trivial
          · cases hr
            exact ⟨c, hdue.1, rfl⟩
          · cases hr
            exact ⟨c, hdue.1, rfl⟩
          · next output hout =>
              cases hr
              exact ⟨hworded output hout, c, hdue.1, rfl⟩
          · cases hr
  | none =>
      -- Without a call only the closing gives an event.
      rw [hcall] at hdue
      obtain ⟨hfollows, rfl⟩ := followUps_of_no_call svc h hcall e he
      exact hdue hfollows

/-- A step of a task that is in step with the row keeps what it waits for fit. -/
theorem taskStep_fits {row : Working} {o : Oracle} {task : ShellTask} {p : Progress}
    (hinv : StateInv svc.config row.state) (hpaced : task.Paced)
    (hmatch : task.state? ≠ none → task.Matches svc row)
    (hworded : ∀ output, o.interviewer = .output output → output.utterance ≠ "")
    (hfits : task.Fits svc row) (h : taskStep svc row o task = some p) : p.task.Fits svc p.row := by
  cases move_of_taskStep svc h with
  | crashed | refused | drained | overran | stuck | raised => exact trivial
  | assessed command inputs e hcall => exact fits_of_runAssessor svc hcall
  | loaded errand => exact hfits
  | admitted e state =>
      obtain rfl : state = row.state := hmatch (Option.some_ne_none _)
      intro e' he'
      rw [List.mem_singleton.mp he']
      exact hfits row
  | posted text state turnId hlive hopen hid =>
      obtain rfl : state = row.state := hmatch (Option.some_ne_none _)
      -- The request was not refused, so the state takes a message.
      have hadmitted : Admitted row.state := by
        by_cases hintro : row.state.phase = .intro
        · exact Or.inl hintro
        · refine Or.inr (hinv.awaitsCandidate ?_)
          by_contra hc
          exact hopen ⟨hintro, hc⟩
      intro e he
      rw [List.mem_singleton.mp he, hid]
      exact ⟨hadmitted, hfits, rfl⟩
  | applied d e queue r hqueue hsteps hr =>
      have hone := hpaced.one
      rw [hqueue, List.length_cons] at hone
      refine ⟨List.eq_nil_of_length_eq_zero (by dsimp only; omega), hfits e ?_⟩
      rw [hqueue]
      exact List.mem_cons_self
  | persisted d e commands =>
      intro e' he' transcript
      rw [hfits.1] at he'
      exact absurd he' List.not_mem_nil
  | spoken d mark followUps hmark => exact hfits
  | unspoken d mark followUps hmark =>
      -- The copy has the state of the row.
      obtain ⟨hstate, -⟩ := hmatch (Option.some_ne_none _)
      intro e he
      have hfit := hfits e he row.transcript
      rw [hstate] at hfit
      exact hfit
  | executed d mark command commands followUps q hone =>
      have hdue := hpaced.commands command List.mem_cons_self
      intro e he
      -- The event was waited for before, or the command has just given it.
      rw [← List.append_assoc, List.mem_append] at he
      exact he.elim (hfits e) (fits_of_executeOne svc hone hdue hworded e)
  | saved d mark followUps => exact fun e he => hfits e he d.working.transcript

end Tasks

section Runs
variable [Scalars] (svc : DevSession) {planInput : Dict String Json} {now : Instant}
  {ts : List (Taken World Choice Effect)} {w : World}

/-- When calls and tasks are executed one after another, every task waits for
    what can come up next. -/
theorem fits_of_run (h : Run (shellStep svc) (created svc planInput now) ts w)
    (hseq : Sequential ts) (hworded : ∀ t ∈ ts, t.event.Worded) :
    ∀ task ∈ w.tasks, task.Fits svc w.row := by
  induction h with
  | nil =>
      intro task htask
      rw [created, List.mem_singleton] at htask
      rw [htask]
      intro e he
      rw [List.mem_singleton.mp he]
      exact rfl
  | snoc ts a b c out hrun hab ih =>
      have hpre : Sequential ts := fun t ht => hseq t (List.mem_append_left _ ht)
      have hall := ih hpre (fun t ht => hworded t (List.mem_append_left _ ht))
      have hlast : (⟨a, c, b, out⟩ : Taken World Choice Effect) ∈ ts ++ [⟨a, c, b, out⟩] :=
        List.mem_append_right _ (List.mem_singleton_self _)
      rcases shellStep_cases svc hab with
        ⟨text, rfl, rfl, rfl⟩ | ⟨i, o, task, p, rfl, hi, hp, rfl, rfl⟩
      · exact forall_tasks_posted hall (hworded _ hlast)
      · intro t htask
        obtain ⟨j, hj⟩ := List.mem_iff_getElem?.mp htask
        rcases getElem?_moved hi hj with ⟨-, rfl⟩ | ⟨hne, hj⟩ | hspawned
        · have hmem := List.mem_of_getElem? hi
          obtain ⟨ms, hms⟩ := stored_state_reachable svc hrun
          exact taskStep_fits svc (SessionRun.stateInv hms) ((paced_of_run svc hrun).2 task hmem).2
            (matches_of_sequential svc hrun hpre hi) (hworded _ hlast) (hall task hmem) hp
        · -- The others rest.
          rcases hseq _ hlast j t hj with hrests | ⟨o', hmoves⟩
          · exact ShellTask.fits_of_rests svc hrests
          · rw [Choice.run.injEq] at hmoves
            exact absurd hmoves.1.symm hne
        · obtain ⟨command, inputs, rfl⟩ := taskStep_spawned svc hp t hspawned
          exact trivial

omit [Scalars] in
theorem ShellTask.owes_of_rests {task : ShellTask} (h : task.rests = true) :
    task.owes svc = [] := by
  cases task with
  | assess | done | failed => rfl
  | load | loadTranscript | drive | persist | execute | save => cases h

/-- The event of the conversation that a task stores, with the row before it and
    with what its commands will have said. -/
def ShellTask.converses? (row : Working) : ShellTask → Option (Taken Working Event Command)
  | .persist d e commands => some ⟨row, e, ⟨d.working.state,
      d.working.transcript ++ commands.flatMap (Command.entries svc d.working.state)⟩, commands⟩
  | _ => none

/-- The event of the conversation that is stored in a step of the service. -/
def conversesIn (t : Taken World Choice Effect) : Option (Taken Working Event Command) :=
  match t.event with
  | .run i _ => t.before.tasks[i]?.bind (ShellTask.converses? svc t.before.row)
  | .post _ => none

/-- The conversation that a run of the service holds. -/
def conversation (ts : List (Taken World Choice Effect)) : List (Taken Working Event Command) :=
  ts.filterMap (conversesIn svc)

omit [Scalars] in
theorem conversation_snoc (ts : List (Taken World Choice Effect))
    (t : Taken World Choice Effect) :
    conversation svc (ts ++ [t]) = conversation svc ts ++ (conversesIn svc t).toList := by
  rw [conversation, List.filterMap_append, List.filterMap_cons, List.filterMap_nil]
  cases conversesIn svc t <;> rfl

omit [Scalars] in
theorem conversesIn_of_task {t : Taken World Choice Effect} {a : World} {i : Nat} {o : Oracle}
    {task : ShellTask} (hi : a.tasks[i]? = some task) (hbefore : t.before = a)
    (hevent : t.event = .run i o) : conversesIn svc t = task.converses? svc a.row := by
  unfold conversesIn
  rw [hbefore, hevent]
  simp only [hi, Option.bind_some]

/-- A step that stores no event accepts none. -/
theorem accepted_of_silent {row : Working} {o : Oracle} {task : ShellTask} {p : Progress}
    (hquiet : task.Quiet svc) (hsilent : task.converses? svc row = none)
    (h : taskStep svc row o task = some p) : accepted p.effects = [] := by
  cases hw : task.writes with
  | false => exact (taskStep_owes svc hquiet hw h).2
  | true =>
      cases task with
      | persist d e commands => cases hsilent
      | save d mark followUps =>
          cases h
          rfl
      | assess | load | loadTranscript | drive | execute | done | failed => cases hw

/-- When calls and tasks are executed one after another, and one of them stores
    an event, the row is where the conversation has come to. -/
theorem replay_row (h : Run (shellStep svc) (created svc planInput now) ts w)
    (hseq : Sequential ts) (hfree : ∀ i, w.owes svc i = []) :
    replay svc (created svc planInput now).row (accepted (outputs ts)) = .ok w.row :=
  Serial.debt_eq_nil (serial_of_sequential svc h hseq) hfree

omit [Scalars] in
/-- Nobody owes anything while a task that owes nothing moves. -/
theorem free_of_mover {t : Taken World Choice Effect} {i : Nat} {o : Oracle} {task : ShellTask}
    (hseq : Sequential (ts ++ [t])) (hevent : t.event = .run i o)
    (hi : t.before.tasks[i]? = some task) (hfree : task.owes svc = []) :
    ∀ j, t.before.owes svc j = [] := by
  intro j
  cases hj : t.before.tasks[j]? with
  | none => rw [World.owes, hj]
  | some u =>
      rw [World.owes_of_task svc hj]
      rcases hseq t (List.mem_append_right _ (List.mem_singleton_self t)) j u hj with
        hrests | ⟨o', hmoves⟩
      · exact ShellTask.owes_of_rests svc hrests
      · rw [hevent, Choice.run.injEq] at hmoves
        rw [← hmoves.1, hi, Option.some.injEq] at hj
        rw [← hj]
        exact hfree

/-- The conversation of a run is a run of events that fit, over the events that
    were accepted. -/
theorem conversation_of_run (h : Run (shellStep svc) (created svc planInput now) ts w)
    (hseq : Sequential ts) (hworded : ∀ t ∈ ts, t.event.Worded) :
    ∃ w', Run (converse svc) (created svc planInput now).row (conversation svc ts) w' ∧
      (conversation svc ts).map Taken.event = accepted (outputs ts) ∧
      ∀ m ∈ conversation svc ts, m.event.Fits svc m.before := by
  induction h with
  | nil => exact ⟨_, Run.nil, rfl, fun m hm => absurd hm List.not_mem_nil⟩
  | snoc ts a b c out hrun hab ih =>
      have hpre : Sequential ts := fun t ht => hseq t (List.mem_append_left _ ht)
      have hwpre : ∀ t ∈ ts, t.event.Worded := fun t ht => hworded t (List.mem_append_left _ ht)
      obtain ⟨w', hconverse, hevents, hfits⟩ := ih hpre hwpre
      have hstill : conversesIn svc ⟨a, c, b, out⟩ = none → accepted out = [] →
          ∃ w', Run (converse svc) (created svc planInput now).row
              (conversation svc (ts ++ [⟨a, c, b, out⟩])) w' ∧
            (conversation svc (ts ++ [⟨a, c, b, out⟩])).map Taken.event
              = accepted (outputs (ts ++ [⟨a, c, b, out⟩])) ∧
            ∀ m ∈ conversation svc (ts ++ [⟨a, c, b, out⟩]), m.event.Fits svc m.before := by
        intro hnone hout
        rw [conversation_snoc, hnone, Option.toList_none, List.append_nil, outputs_snoc,
          accepted_append, hout, List.append_nil]
        exact ⟨w', hconverse, hevents, hfits⟩
      rcases shellStep_cases svc hab with
        ⟨text, rfl, rfl, rfl⟩ | ⟨i, o, task, p, rfl, hi, hp, rfl, rfl⟩
      · exact hstill rfl rfl
      · have hmem := List.mem_of_getElem? hi
        have hquiet := (tasks_redeemable svc hrun task hmem).1
        cases hsaid : task.converses? svc a.row with
        | none =>
            -- The task stores no event, so the conversation does not move.
            exact hstill ((conversesIn_of_task svc hi rfl rfl).trans hsaid)
              (accepted_of_silent svc hquiet hsaid hp)
        | some m =>
            cases task with
            | persist d e commands =>
                cases hsaid
                have hmatch := matches_of_sequential svc hrun hpre hi (Option.some_ne_none _)
                have hfit := (fits_of_run svc hrun hpre hwpre _ hmem).2
                -- Nobody owes anything: the row is where the conversation has come to.
                have hrow : w' = a.row := by
                  have hfree := free_of_mover svc hseq rfl hi rfl
                  have hreplay := replay_row svc hrun hpre hfree
                  rw [← hevents, replay_of_converse hconverse, Except.ok.injEq] at hreplay
                  exact hreplay
                have hone : converse svc a.row e = .ok (⟨d.working.state, d.working.transcript
                    ++ commands.flatMap (Command.entries svc d.working.state)⟩, commands) :=
                  (converse_eq_ok_iff _ _ _ _).mpr ⟨hmatch.1, by rw [hmatch.2]⟩
                rw [conversation_snoc, conversesIn_of_task svc hi rfl rfl]
                rw [hrow] at hconverse
                cases hp
                refine ⟨_, hconverse.snoc _ _ _ _ _ hone, ?_, ?_⟩
                · rw [List.map_append, hevents, outputs_snoc, accepted_append]
                  rfl
                · intro m hm
                  rcases List.mem_append.mp hm with hm | hm
                  · exact hfits m hm
                  · rw [List.mem_singleton.mp hm]
                    exact hfit
            | assess | load | loadTranscript | drive | execute | save | done | failed =>
                cases hsaid

end Runs

section Assessors
variable [Scalars] (svc : DevSession)

/-- An answer that is assessed is replied to later: its commands say nothing. -/
theorem silent_of_assessor {cfg : OrchestratorConfig} {s s' : SessionState} {e : Event}
    {out : List Command} (hedge : Edge cfg s e s' out) {c : RunAssessor}
    (h : Command.runAssessor c ∈ out) : ∀ k ∈ out, ∀ s, k.entries svc s = [] := by
  rcases speaks_or_calls svc hedge with hnone | hsilent
  · -- There is a move next to the assessment.
    exfalso
    have hmove : ∀ r, Command.runInterviewer r ∉ out := fun r hr => by cases hnone _ hr
    obtain ⟨text, now, he⟩ := runAssessor_of_edge hedge h
    have hsecond : ∀ {k r : Command} {rest : List Command}, r ∈ k :: r :: rest :=
      List.mem_cons_of_mem _ List.mem_cons_self
    cases hedge with
    | probed | seeded | advanced | finished => exact hmove _ hsecond
    | entered => exact hmove _ List.mem_cons_self
    | asked => exact hmove _ List.mem_cons_self
    | closed => simp at h
    | completed => simp at h
    | ignored => exact absurd h List.not_mem_nil
    | aborted e reason decision persist hlive hturn => cases persist <;> simp [abort] at h
    | opened | cutShort | delivered | retried | assessed | assessmentFailed | reconnected =>
        cases he
  · exact hsilent

/-- The step of the conversation that asks for the assessment, and what the
    assessor is called with. -/
def AskedIn (ms : List (Taken Working Event Command)) (c : RunAssessor)
    (inputs : AssessorTurnInput) : Prop :=
  ∃ m ∈ ms, .runAssessor c ∈ m.out ∧
    inputs = assessorInputs svc ⟨m.after.state, m.before.transcript ++ m.event.said⟩ c

/-- The assessments that a task starts, or is, are asked for in the conversation. -/
def ShellTask.Asks (ms : List (Taken Working Event Command)) : ShellTask → Prop
  | .persist _ _ commands => ∀ c, .runAssessor c ∈ commands →
      ∀ k ∈ commands, ∀ s, k.entries svc s = []
  | .execute d _ commands _ => ∀ c, .runAssessor c ∈ commands →
      (∀ k ∈ commands, ∀ s, k.entries svc s = []) ∧
        ∃ m ∈ ms, .runAssessor c ∈ m.out ∧ m.after.state = d.working.state ∧
          m.before.transcript ++ m.event.said = d.working.transcript
  | .assess c inputs => AskedIn svc ms c inputs
  | _ => True

variable {svc}

omit [Scalars] in
theorem AskedIn.mono {ms more : List (Taken Working Event Command)} {c : RunAssessor}
    {inputs : AssessorTurnInput} (h : AskedIn svc ms c inputs) :
    AskedIn svc (ms ++ more) c inputs := by
  obtain ⟨m, hm, hout, hinputs⟩ := h
  exact ⟨m, List.mem_append_left _ hm, hout, hinputs⟩

omit [Scalars] in
theorem ShellTask.Asks.mono {ms more : List (Taken Working Event Command)} {task : ShellTask}
    (h : task.Asks svc ms) : task.Asks svc (ms ++ more) := by
  cases task with
  | assess c inputs => exact AskedIn.mono h
  | persist d e commands => exact h
  | execute d mark commands followUps =>
      intro c hc
      obtain ⟨hsilent, m, hm, hrest⟩ := h c hc
      exact ⟨hsilent, m, List.mem_append_left _ hm, hrest⟩
  | load | loadTranscript | drive | save | done | failed => exact trivial

variable (svc)

/-- A step of a task that is in step with the row keeps what it asks for, with
    the event of the conversation that the step stores. -/
theorem taskStep_asks {row : Working} {o : Oracle} {task : ShellTask} {p : Progress}
    {ms : List (Taken Working Event Command)} (hmatch : task.state? ≠ none → task.Matches svc row)
    (hasks : task.Asks svc ms) (h : taskStep svc row o task = some p) :
    p.task.Asks svc (ms ++ (task.converses? svc row).toList) ∧
      ∀ t ∈ p.spawned, t.Asks svc (ms ++ (task.converses? svc row).toList) := by
  have hnone : ∀ t ∈ ([] : List ShellTask),
      t.Asks svc (ms ++ (task.converses? svc row).toList) := fun t ht => absurd ht List.not_mem_nil
  cases move_of_taskStep svc h with
  | crashed | assessed | loaded | admitted | refused | posted | drained | overran | stuck
  | spoken | unspoken | raised | saved => exact ⟨trivial, hnone⟩
  | applied d e queue r hqueue hsteps hr =>
      exact ⟨fun c hc => silent_of_assessor svc (edge_of_transition hr) hc, hnone⟩
  | persisted d e commands =>
      refine ⟨fun c hc => ⟨hasks c hc, ?_⟩, hnone⟩
      refine ⟨_, List.mem_append_right _ (List.mem_singleton_self _), hc, rfl, ?_⟩
      exact (hmatch (Option.some_ne_none _)).2.symm
  | executed d mark command commands followUps q hone =>
      obtain ⟨hentries, -, hspawned⟩ := executeOne_ok svc hone
      refine ⟨fun c hc => ?_, fun t ht => ?_⟩
      · obtain ⟨hsilent, m, hm, hout, hstate, htranscript⟩ :=
          hasks c (List.mem_cons_of_mem command hc)
        refine ⟨fun k hk => hsilent k (List.mem_cons_of_mem command hk), m,
          List.mem_append_left _ hm, hout, hstate, ?_⟩
        -- The command says nothing, so the copy is what it was.
        rw [Working.append, hentries, hsilent command List.mem_cons_self, List.append_nil]
        exact htranscript
      · obtain ⟨c, rfl, rfl⟩ := hspawned t ht
        obtain ⟨-, m, hm, hout, hstate, htranscript⟩ := hasks c List.mem_cons_self
        refine ⟨m, List.mem_append_left _ hm, hout, ?_⟩
        rw [hstate, htranscript]

/-- Only the task of an assessment calls the assessor. -/
theorem task_of_assessorCalled {row : Working} {o : Oracle} {task : ShellTask} {p : Progress}
    {c : RunAssessor} {inputs : AssessorTurnInput} (h : taskStep svc row o task = some p)
    (hcalled : .assessorCalled c inputs ∈ p.effects) : task = .assess c inputs := by
  have hcalls : ∀ w command, Effect.assessorCalled c inputs ∉ callsMade svc w o command := by
    intro w command hc
    unfold callsMade at hc
    cases hcall : command.call? with
    | none =>
        rw [hcall] at hc
        exact absurd hc List.not_mem_nil
    | some r =>
        rw [hcall] at hc
        dsimp only at hc
        split at hc
        · cases List.mem_singleton.mp hc
        · exact absurd hc List.not_mem_nil
  cases move_of_taskStep svc h with
  | crashed command inputs' x hcall =>
      cases List.mem_singleton.mp hcalled
      rfl
  | assessed command inputs' e hcall =>
      dsimp only at hcalled
      split at hcalled
      · cases List.mem_singleton.mp hcalled
        rfl
      · exact absurd hcalled List.not_mem_nil
  | persisted d e commands => cases List.mem_singleton.mp hcalled
  | raised | executed => exact absurd hcalled (hcalls _ _)
  | loaded | admitted | refused | posted | drained | overran | stuck | applied | spoken
  | unspoken | saved => exact absurd hcalled List.not_mem_nil

/-- When calls and tasks are executed one after another, every assessor task, and
    every call of the assessor, is asked for in the conversation. -/
theorem assess_of_run {planInput : Dict String Json} {now : Instant}
    {ts : List (Taken World Choice Effect)} {w : World}
    (h : Run (shellStep svc) (created svc planInput now) ts w) (hseq : Sequential ts) :
    (∀ task ∈ w.tasks, task.Asks svc (conversation svc ts)) ∧
      ∀ c inputs, .assessorCalled c inputs ∈ outputs ts →
        AskedIn svc (conversation svc ts) c inputs := by
  induction h with
  | nil =>
      refine ⟨fun task htask => ?_, fun c inputs hc => absurd hc List.not_mem_nil⟩
      rw [created, List.mem_singleton] at htask
      rw [htask]
      exact trivial
  | snoc ts a b c out hrun hab ih =>
      have hpre : Sequential ts := fun t ht => hseq t (List.mem_append_left _ ht)
      obtain ⟨htasks, hcalls⟩ := ih hpre
      rw [conversation_snoc, outputs_snoc]
      rcases shellStep_cases svc hab with
        ⟨text, rfl, rfl, rfl⟩ | ⟨i, o, task, p, rfl, hi, hp, rfl, rfl⟩
      · refine ⟨forall_tasks_posted (fun t ht => (htasks t ht).mono) trivial,
          fun c inputs hc => ?_⟩
        · rw [List.append_nil] at hc
          exact (hcalls c inputs hc).mono
      · rw [conversesIn_of_task svc hi rfl rfl]
        have hmem := List.mem_of_getElem? hi
        have hstep :=
          taskStep_asks svc (matches_of_sequential svc hrun hpre hi) (htasks task hmem) hp
        refine ⟨forall_tasks_moved (fun t ht => (htasks t ht).mono) hstep.1 hstep.2,
          fun c inputs hc => ?_⟩
        · rcases List.mem_append.mp hc with hc | hc
          · exact (hcalls c inputs hc).mono
          · obtain rfl := task_of_assessorCalled svc hp hc
            exact AskedIn.mono (htasks _ hmem)

end Assessors

end TechScreen
