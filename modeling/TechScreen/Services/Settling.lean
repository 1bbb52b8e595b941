import TechScreen.Orchestrator.Budget
import TechScreen.Services.Obligations
import TechScreen.Services.Pace
import TechScreen.Services.Recovery

/-!
# The Drive Loop Settles

A drive loop feeds the events that come of executing commands back into the
machine, which may ask for more commands. What keeps the two from going round and
round is that a candidate's message issues one move, that a move is repeated at
most once, and that nothing else leads to anything. So three events are enough:
the message, a call that failed, and what became of its repetition.

A call of `post_turn` that returns has come to the end of this. It is followed
from the request to its return, with what it has appended to the transcript, what
it waits for and what it has still to execute.

## Main definitions

* `Event.ahead`, `Command.ahead`: How many events may still be processed.
* `Bounded`: A drive that stays within three events.
* `AwaitsCandidate`: The technical phase or Q&A waits for the candidate.
* `Stage`: How far the answer to a candidate's message has come.
* `Returned`: What a call that returns leaves behind.

## Theorems

* `bounded_of_run`: Every drive stays within three events.
* `Stage.transition`, `Stage.execute`: The stages of a call.
* `drive_settles`: Three events, and what a call that returns leaves behind.
-/

namespace TechScreen

open Lib

section Ahead

/-- How many events may be processed from this one on. -/
def Event.ahead (s : SessionState) : Event → Int
  | .candidateTurnReceived .. => 3
  | .interviewerFailed .. => 2 - s.interviewerFailureStreak
  | _ => 1

/-- How many events may be processed because of this command. -/
def Command.ahead (s : SessionState) (command : Command) : Int :=
  match command.call? with
  | some _ => 2 - s.interviewerFailureStreak
  | none => 1

theorem Event.one_le_ahead {s : SessionState} (h : OnLadder s) (e : Event) : 1 ≤ e.ahead s := by
  unfold OnLadder at h
  cases e <;> simp only [Event.ahead] <;> omega

theorem Event.ahead_le {s : SessionState} (h : OnLadder s) (e : Event) : e.ahead s ≤ 3 := by
  unfold OnLadder at h
  cases e <;> simp only [Event.ahead] <;> omega

section Transitions
variable [Scalars] {cfg : OrchestratorConfig} {s s' : SessionState} {e : Event}
  {r : TransitionResult}

/-- Only a candidate's message, a failed call and a tick lead to anything. -/
theorem quiet_of_transition (h : transition s e cfg = .ok r) (hturn : e.isCandidateTurn = false)
    (hfailed : e.failedTurn = none) (htick : ∀ now, e = .timerTick now → s.phase = .close)
    (hreconnected : ∀ now, e ≠ .reconnected now) : ∀ c ∈ r.commands, c.followsUp = false := by
  unfold transition at h
  by_cases hdead : s.phase ∈ terminalPhases
  · rw [if_pos hdead, Except.ok.injEq] at h
    subst h
    exact fun c hc => absurd hc List.not_mem_nil
  rw [if_neg hdead] at h
  -- Aborting asks for a decision and for nothing that answers.
  have habort : ∀ reason decision persist, ∀ c ∈ (abort s reason decision persist).commands,
      c.followsUp = false := by
    intro reason decision persist
    cases persist <;> simp [abort, Command.followsUp]
  cases e with
  | sessionStarted now =>
      simp only [onSessionStarted] at h
      split at h
      · split at h <;> cases h
        · exact habort _ _ _
        · simp [Command.followsUp]
      · cases h
        exact fun c hc => absurd hc List.not_mem_nil
  | interviewerReplyReady turnId output now =>
      simp only [onInterviewerReply] at h
      split_ifs at h <;> cases h <;> simp [ignore, complete, Command.followsUp]
  | assessmentCompleted forTurnId output now =>
      simp only [onAssessmentCompleted] at h
      split_ifs at h <;> cases h <;> simp [ignore, Command.followsUp]
  | assessmentFailed forTurnId errorKind now =>
      simp only [onAssessmentFailed] at h
      split_ifs at h <;> cases h <;> simp [ignore, Command.followsUp]
  -- In CLOSE a tick completes the session, unless the candidate has timed out.
  | timerTick now =>
      have hclose := htick now rfl
      simp only [onTimerTick] at h
      cases hover : candidateTimedOut s now cfg with
      | error x =>
          rw [hover] at h
          cases h
      | ok timedOut =>
          rw [hover] at h
          cases timedOut with
          | true =>
              cases h
              exact habort _ _ _
          | false =>
              simp only [bind, Except.bind, hclose] at h
              cases h
              simp [complete, Command.followsUp]
  | operatorAbort reason now =>
      cases h
      exact habort _ _ _
  | candidateTurnReceived turnId text now => cases hturn
  | interviewerFailed turnId errorKind now => cases hfailed
  | reconnected now => exact absurd rfl (hreconnected now)

/-- What an event leads to counts against what it had ahead. -/
theorem ahead_of_transition {steps : Nat} (h : transition s e cfg = .ok r) (hladder : OnLadder s)
    (hdue : e.Due s steps) :
    ∀ c ∈ r.commands, c.followsUp = true → c.ahead r.newState + 1 ≤ e.ahead s := by
  intro c hc hfollows
  have hedge := edge_of_transition h
  have hquiet : e.isCandidateTurn = false → e.failedTurn = none →
      (∀ now, e = .timerTick now → s.phase = .close) → (∀ now, e ≠ .reconnected now) →
      c.ahead r.newState + 1 ≤ e.ahead s := by
    intro hturn hfailed htick hreconnected
    rw [quiet_of_transition h hturn hfailed htick hreconnected c hc] at hfollows
    cases hfollows
  cases e with
  | candidateTurnReceived turnId text now =>
      have hladder' := onLadder_of_edge hedge hladder
      unfold OnLadder at hladder'
      unfold Command.ahead Event.ahead
      cases c.call? <;> dsimp only <;> omega
  | interviewerFailed turnId errorKind now =>
      -- The call is repeated one rung up, or the session is over.
      obtain ⟨⟨k, hcalling, rfl⟩, _⟩ := hdue
      rw [transition_of_failed hcalling, Except.ok.injEq] at h
      unfold OnLadder at hladder
      split at h
      · rw [← h] at hc
        simp only [abort, if_true, List.mem_cons, List.not_mem_nil, or_false] at hc
        rcases hc with rfl | rfl <;> cases hfollows
      · rw [← h] at hc ⊢
        simp only [List.mem_cons, List.not_mem_nil, or_false] at hc
        rcases hc with rfl | rfl | rfl
        · simp only [Command.ahead, Command.call?, Event.ahead]
          omega
        · cases hfollows
        · cases hfollows
  | timerTick now => exact hquiet rfl rfl (fun _ _ => hdue) (fun _ hc => by cases hc)
  | reconnected now => exact absurd hdue id
  | sessionStarted | interviewerReplyReady | assessmentCompleted | assessmentFailed
  | operatorAbort => exact hquiet rfl rfl (fun _ hc => by cases hc) (fun _ hc => by cases hc)

end Transitions

end Ahead

section Bounds
variable (svc : DevSession)

/-- A drive that waits for these events and commands stays within three events. -/
structure Bounded (d : Drive) (events : List Event) (commands : List Command) : Prop where
  steps : (d.steps : Int) ≤ 3
  events : ∀ e ∈ events, d.steps + e.ahead d.working.state ≤ 3
  commands : ∀ c ∈ commands, c.followsUp = true → d.steps + c.ahead d.working.state ≤ 3

/-- The events that the drive of a task has processed. -/
def ShellTask.processed : ShellTask → Nat
  | .drive d => d.steps
  | .persist d _ _ => d.steps
  | .execute d _ _ _ => d.steps
  | .save d _ _ => d.steps
  | _ => 0

def ShellTask.Bounded : ShellTask → Prop
  | .drive d => TechScreen.Bounded d d.queue []
  | .persist d _ commands => TechScreen.Bounded d d.queue commands
  | .execute d _ commands followUps => TechScreen.Bounded d (d.queue ++ followUps) commands
  | .save d _ followUps => TechScreen.Bounded d (d.queue ++ followUps) []
  | .failed x => ∀ message, x ≠ .runaway message
  | _ => True

theorem ShellTask.Bounded.within {task : ShellTask} (h : task.Bounded) :
    task.processed ≤ 3 ∧ ∀ message, task ≠ .failed (.runaway message) := by
  have hsteps : ∀ {d events commands}, TechScreen.Bounded d events commands → d.steps ≤ 3 :=
    fun hb => by exact_mod_cast hb.steps
  cases task with
  | drive d => exact ⟨hsteps h, fun _ hc => by cases hc⟩
  | persist d e commands => exact ⟨hsteps h, fun _ hc => by cases hc⟩
  | execute d mark commands followUps => exact ⟨hsteps h, fun _ hc => by cases hc⟩
  | save d mark followUps => exact ⟨hsteps h, fun _ hc => by cases hc⟩
  | failed x => exact ⟨Nat.zero_le _, fun message hx => h message (ShellTask.failed.inj hx)⟩
  | assess | load | loadTranscript | done => exact ⟨Nat.zero_le _, fun _ hc => by cases hc⟩

variable [Scalars]

/-- What a command gives has no more ahead than the command. -/
theorem ahead_of_executeOne {w : Working} {o : Oracle} {command : Command} {q : Performed}
    (h : executeOne svc w o command = .ok q) (hladder : OnLadder w.state) :
    ∀ e ∈ q.followUps, command.followsUp = true ∧ e.ahead w.state ≤ command.ahead w.state := by
  intro e he
  unfold OnLadder at hladder
  unfold Command.ahead
  cases hcall : command.call? with
  | some c =>
      have hfollows : command.followsUp = true := by
        by_contra hno
        rw [Bool.not_eq_true] at hno
        rw [Command.call_of_quiet hno] at hcall
        cases hcall
      refine ⟨hfollows, ?_⟩
      rw [executeOne_of_call svc hcall] at h
      cases hr : runInterviewer o c with
      | error x =>
          rw [hr] at h
          cases h
      | ok event =>
          rw [hr] at h
          cases h
          rw [List.mem_singleton.mp he]
          unfold runInterviewer at hr
          split at hr <;> cases hr <;> simp only [Event.ahead] <;> omega
  | none =>
      obtain ⟨hfollows, rfl⟩ := followUps_of_no_call svc h hcall e he
      exact ⟨hfollows, Int.le_refl 1⟩

/-- A step of a task stays within three events. -/
theorem taskStep_bounded {row : Working} {o : Oracle} {task : ShellTask} {p : Progress}
    (hladder : task.StateHas OnLadder) (hpaced : task.Paced) (hbounded : task.Bounded)
    (h : taskStep svc row o task = some p) : p.task.Bounded := by
  -- A drive starts with one event.
  have hstart : ∀ (w : Working) (e : Event), OnLadder w.state →
      TechScreen.Bounded ⟨w, [e], 0⟩ [e] [] := by
    intro w e hw
    refine ⟨by simp only [Nat.cast_zero]; omega, fun e' he' => ?_,
      fun c hc => absurd hc List.not_mem_nil⟩
    rw [List.mem_singleton.mp he']
    have hahead := e.ahead_le hw
    simp only [Nat.cast_zero]
    omega
  cases move_of_taskStep svc h with
  | assessed | loaded | drained => exact trivial
  | crashed command inputs x hcall =>
      unfold runAssessor at hcall
      split at hcall <;> cases hcall
      exact fun _ hc => by cases hc
  | admitted e state => exact hstart _ e (hladder state rfl)
  | posted text state turnId hlive hopen hid => exact hstart _ _ (hladder state rfl)
  | refused | stuck => exact fun _ hc => by cases hc
  | overran d e queue message hqueue hsteps =>
      -- What the event may still lead to fits into the limit.
      have hahead := hbounded.events e (by rw [hqueue]; exact List.mem_cons_self)
      have hleast := Event.one_le_ahead (hladder _ rfl) e
      unfold maxDriveSteps at hsteps
      omega
  | applied d e queue r hqueue hsteps hr =>
      have hstate : OnLadder d.working.state := hladder _ rfl
      have hmem : e ∈ d.queue := by
        rw [hqueue]
        exact List.mem_cons_self
      have hone := hpaced.one
      rw [hqueue, List.length_cons] at hone
      obtain rfl : queue = [] := List.eq_nil_of_length_eq_zero (by omega)
      have hahead := hbounded.events e hmem
      have hleast := Event.one_le_ahead hstate e
      refine ⟨by push_cast; omega, fun x hx => absurd hx List.not_mem_nil,
        fun c hc hfollows => ?_⟩
      have hless := ahead_of_transition hr hstate (hpaced.events e hmem) c hc hfollows
      push_cast
      omega
  | persisted d e commands =>
      refine ⟨hbounded.steps, ?_, hbounded.commands⟩
      rw [List.append_nil]
      exact hbounded.events
  | spoken d mark followUps hmark => exact hbounded
  | unspoken | saved => exact ⟨hbounded.steps, hbounded.events, hbounded.commands⟩
  | raised d mark command commands followUps x hone =>
      -- Only a call can raise, and only what its agent raises.
      obtain ⟨c, hc⟩ := Option.ne_none_iff_exists'.mp (call_of_executeOne_error svc hone)
      rw [executeOne_of_call svc hc] at hone
      unfold runInterviewer at hone
      split at hone <;> cases hone
      exact fun _ hc => by cases hc
  | executed d mark command commands followUps q hone =>
      refine ⟨hbounded.steps, fun e he => ?_, fun c hc hfollows =>
        hbounded.commands c (List.mem_cons_of_mem command hc) hfollows⟩
      rw [← List.append_assoc, List.mem_append] at he
      rcases he with he | he
      · exact hbounded.events e he
      · obtain ⟨hfollows, hless⟩ := ahead_of_executeOne svc hone (hladder _ rfl) e he
        have hahead := hbounded.commands command List.mem_cons_self hfollows
        change (d.steps : Int) + e.ahead d.working.state ≤ 3
        omega

/-- However the tasks interleave, every drive stays within three events. -/
theorem bounded_of_run {planInput : Dict String Json} {now : Instant}
    {ts : List (Taken World Choice Effect)} {w : World}
    (h : Run (shellStep svc) (created svc planInput now) ts w) :
    ∀ task ∈ w.tasks, task.Bounded := by
  refine shell_tasks svc ?_ (fun _ => trivial) (fun _ _ => trivial)
    (fun us a o task p hrun hmem hp hbounded => ?_) h
  · refine ⟨by simp only [Nat.cast_zero]; omega, fun e he => ?_,
      fun c hc => absurd hc List.not_mem_nil⟩
    rw [List.mem_singleton.mp he]
    simp only [Event.ahead, Nat.cast_zero]
    omega
  · have hpaced := (paced_of_run svc hrun).2 task hmem
    exact taskStep_bounded svc hpaced.1 hpaced.2 hbounded hp

end Bounds

section Stages

/-- The technical phase or Q&A waits for the candidate. -/
def AwaitsCandidate (s : SessionState) : Prop :=
  (s.phase = .tech ∨ s.phase = .qa) ∧ s.awaiting = some .candidate

/-- A state that takes a candidate's message. -/
def Admitted (s : SessionState) : Prop := s.phase = .intro ∨ AwaitsCandidate s

/-- The execution of the command adds to the transcript, or gives an event. -/
def Command.acts : Command → Bool
  | .runInterviewer _ => true
  | .deliverUtterance _ => true
  | .emitScriptedOpening _ => true
  | .emitScriptedClosing _ => true
  | .reissuePendingCommand _ => true
  | _ => false

/-- The commands that act. -/
def acting (commands : List Command) : List Command := commands.filter Command.acts

/-- How far the answer to a candidate's message has come: the state of the copy,
    what has been appended to the transcript since, which events the drive waits
    for, and which commands it has still to execute. -/
inductive Stage (turn : TranscriptEntry) (s : SessionState) :
    List TranscriptEntry → List Event → List Command → Prop
  | answering (turnId : Uuid) (text : String) (now : Instant) (hadmitted : Admitted s) :
      Stage turn s [turn] [.candidateTurnReceived turnId text now] []
  | asking (c : RunInterviewer) (commands : List Command) (hcalling : Calling s c)
      (hacting : acting commands = [.runInterviewer c]) : Stage turn s [turn] [] commands
  | asked (c : RunInterviewer) (o : Oracle) (e : Event) (commands : List Command)
      (hcalling : Calling s c) (hcall : runInterviewer o c = .ok e)
      (hquiet : acting commands = []) :
      Stage turn s [turn] [e] commands
  | delivering (c : DeliverUtterance) (commands : List Command) (hawaits : AwaitsCandidate s)
      (hacting : acting commands = [.deliverUtterance c]) : Stage turn s [turn] [] commands
  | delivered (c : DeliverUtterance) (commands : List Command) (hawaits : AwaitsCandidate s)
      (hquiet : acting commands = []) :
      Stage turn s [turn, ⟨.interviewer, c.utterance, some c.turnId⟩] [] commands
  | closing (c : EmitScriptedClosing) (commands : List Command) (hphase : s.phase = .close)
      (hacting : acting commands = [.emitScriptedClosing c]) : Stage turn s [turn] [] commands
  | closed (said : List TranscriptEntry) (now : Instant) (commands : List Command)
      (hphase : s.phase = .close) (hquiet : acting commands = []) :
      Stage turn s said [.timerTick now] commands
  | ended (said : List TranscriptEntry) (commands : List Command) (hover : ¬ live s)
      (hquiet : acting commands = []) : Stage turn s said [] commands

variable {turn : TranscriptEntry} {s : SessionState} {said : List TranscriptEntry}

/-- At the end of a call the session is over, or the candidate has been asked. -/
theorem Stage.finished (h : Stage turn s said [] []) :
    ¬ live s ∨ (AwaitsCandidate s ∧ ∃ c : DeliverUtterance,
      said = [turn, ⟨.interviewer, c.utterance, some c.turnId⟩]) := by
  cases h with
  | asking c commands hcalling hacting => cases hacting
  | delivering c commands hawaits hacting => cases hacting
  | delivered c commands hawaits hquiet => exact Or.inr ⟨hawaits, c, rfl⟩
  | closing c commands hphase hacting => cases hacting
  | ended said commands hover hquiet => exact Or.inl hover

section Transitions
variable [Scalars] {cfg : OrchestratorConfig} {r : TransitionResult} {e : Event}

/-- A message that is taken leads to a move, or to the closing. -/
theorem Stage.of_message {turnId : Uuid} {text : String} {now : Instant} (hadmitted : Admitted s)
    (h : transition s (.candidateTurnReceived turnId text now) cfg = .ok r) :
    Stage turn r.newState [turn] [] r.commands := by
  have hgap : ∀ {now} (a : Answer s now), acting (a.gap cfg ++ [.persistState]) = [] := by
    intro now a
    unfold Answer.gap
    split <;> rfl
  rcases hadmitted with hphase | ⟨hphase | hphase, hawaiting⟩
  · -- The turn that ends the introduction asks for the first question.
    rw [TechScreen.transition, if_neg (by rw [hphase]; decide)] at h
    simp only [hphase, reduceCtorEq, if_false, onCandidateTurn, onIntroCandidateTurn] at h
    cases hplan : requirePlan s with
    | error x =>
        rw [hplan] at h
        cases h
    | ok plan =>
        rw [hplan] at h
        cases h
        exact Stage.asking _ _ ⟨Or.inl rfl, rfl, rfl⟩ rfl
  · -- An answer that TECH awaits takes one of the four edges of the table.
    have hawaits : awaitsAnswer s (.candidateTurnReceived turnId text now) = true :=
      awaitsAnswer_of_tech hphase hawaiting
    have hnot : ∀ p, s.phase = p → p ≠ .tech → Stage turn r.newState [turn] [] r.commands :=
      fun p hp hne => absurd (hp.symm.trans hphase) hne
    obtain ⟨s', out⟩ := r
    cases edge_of_transition h with
    | ignored e hidle => exact absurd (hidle.symm.trans hawaits) Bool.false_ne_true
    | probed turnId text now a hp hc hclarify hprobes =>
        exact Stage.asking _ _ ⟨Or.inl hphase, rfl, rfl⟩ rfl
    | seeded turnId text now a seed hp hc hanswered hseed =>
        exact Stage.asking _ _ ⟨Or.inl hphase, rfl, rfl⟩ rfl
    | advanced turnId text now a following hp hc hleaves hnext =>
        refine Stage.asking _ _ ⟨Or.inl hphase, rfl, rfl⟩ ?_
        exact congrArg (List.cons _) (hgap a)
    | finished turnId text now a hp hc hleaves hlast =>
        refine Stage.asking _ _ ⟨Or.inr rfl, rfl, rfl⟩ ?_
        exact congrArg (List.cons _) (hgap a)
    | entered turnId text now plan hp hplan => exact hnot _ hp (by decide)
    | asked turnId text now plan hp hplan => exact hnot _ hp (by decide)
    | closed e activity hp => exact hnot _ hp (by decide)
    | completed e hp => exact hnot _ hp (by decide)
    | aborted e reason decision persist hlive hturn => cases hturn
  · -- In Q&A the candidate asks, and is answered while the budget lasts.
    rw [TechScreen.transition, if_neg (by rw [hphase]; decide)] at h
    simp only [hphase, reduceCtorEq, if_false, onCandidateTurn, onQaCandidateTurn] at h
    cases hover : qaBudgetExhausted s now with
    | error x =>
        rw [hover] at h
        cases h
    | ok exhausted =>
        rw [hover] at h
        cases exhausted with
        | true =>
            cases h
            exact Stage.closing _ _ rfl rfl
        | false =>
            simp only [bind, Except.bind, Bool.false_eq_true, if_false] at h
            cases hplan : requirePlan s with
            | error x =>
                rw [hplan] at h
                cases h
            | ok plan =>
                rw [hplan] at h
                cases h
                exact Stage.asking _ _ ⟨Or.inr rfl, rfl, rfl⟩ rfl

/-- A call that is in flight is answered. -/
theorem transition_of_reply {c : RunInterviewer} (hcalling : Calling s c)
    (output : InterviewerOutput) (now : Instant) :
    TechScreen.transition s (.interviewerReplyReady c.turnId output now) cfg = .ok
      ⟨TechScreen.delivered s c.turnId output cfg,
        [.deliverUtterance ⟨c.turnId, output.utterance⟩, .persistState]⟩ := by
  have hopen : ¬ ((s.phase ≠ .tech ∧ s.phase ≠ .qa) ∨ s.awaiting ≠ some .interviewer) := by
    rintro (⟨htech, hqa⟩ | hawaiting)
    · exact hcalling.phase.elim htech hqa
    · exact hawaiting hcalling.awaiting
  have hanswers : answersPendingCommand s c.turnId = true := by
    unfold answersPendingCommand
    rw [hcalling.pending]
    exact decide_eq_true rfl
  have hphase : s.phase ≠ .created ∧ s.phase ≠ .close := by
    rcases hcalling.phase with hphase | hphase <;> rw [hphase] <;> decide
  rw [TechScreen.transition, if_neg hcalling.live]
  simp only [if_neg hphase.1, onInterviewerReply, hanswers, Bool.not_true, Bool.false_eq_true,
    if_false, if_neg hphase.2, if_neg hopen]
  rfl

/-- A stage whose event is applied is followed by another one. -/
theorem Stage.transition (hstage : Stage turn s said [e] [])
    (h : TechScreen.transition s e cfg = .ok r) :
    Stage turn r.newState said [] r.commands := by
  have habort : ∀ reason decision, r = abort s reason decision true →
      Stage turn r.newState said [] r.commands := by
    rintro reason decision rfl
    have hover : Phase.aborted ∈ terminalPhases := by decide
    exact Stage.ended _ _ (fun hlive => hlive hover) rfl
  cases hstage with
  | answering turnId text now hadmitted => exact Stage.of_message hadmitted h
  | asked c o e commands hcalling hcall hquiet =>
      -- The call was answered, failed, or was refused by the cost guard.
      unfold runInterviewer at hcall
      have hfailed : ∀ kind, TechScreen.transition s (.interviewerFailed c.turnId kind o.now) cfg
          = .ok r → Stage turn r.newState [turn] [] r.commands := by
        intro kind hkind
        rw [transition_of_failed hcalling, Except.ok.injEq] at hkind
        split at hkind
        · exact habort _ _ hkind.symm
        · rw [← hkind]
          exact Stage.asking _ _ ⟨hcalling.phase, hcalling.awaiting, rfl⟩ rfl
      split at hcall <;> cases hcall
      · rw [TechScreen.transition, if_neg hcalling.live, Except.ok.injEq] at h
        exact habort _ _ h.symm
      · exact hfailed _ h
      · exact hfailed _ h
      · rw [transition_of_reply hcalling, Except.ok.injEq] at h
        rw [← h]
        exact Stage.delivering _ _ ⟨hcalling.phase, rfl⟩ rfl
  | closed said now commands hphase hquiet =>
      rw [TechScreen.transition, if_neg (by rw [hphase]; decide)] at h
      simp only [onTimerTick] at h
      cases hover : candidateTimedOut s now cfg with
      | error x =>
          rw [hover] at h
          cases h
      | ok timedOut =>
          rw [hover] at h
          cases timedOut with
          | true =>
              cases h
              exact habort _ _ rfl
          | false =>
              simp only [bind, Except.bind, hphase] at h
              cases h
              have hover : Phase.completed ∈ terminalPhases := by decide
              exact Stage.ended _ _ (fun hlive => hlive hover) rfl

end Transitions

section Execution
variable [Scalars] {svc : DevSession} {w : Working} {o : Oracle} {command : Command}
  {commands : List Command} {events : List Event} {q : Performed}

/-- A command that does not act adds nothing. -/
theorem executeOne_of_quiet (hquiet : command.acts = false)
    (h : executeOne svc w o command = .ok q) : q.entries = [] ∧ q.followUps = [] := by
  cases command with
  | runInterviewer | deliverUtterance | emitScriptedOpening | emitScriptedClosing
  | reissuePendingCommand => cases hquiet
  | runAssessor | flagTurnDegraded | recordGap | recordDecision | endSession | persistState =>
      cases h
      exact ⟨rfl, rfl⟩

/-- Executing a command takes the stage on. -/
theorem Stage.execute (hstage : Stage turn w.state said events (command :: commands))
    (h : executeOne svc w o command = .ok q) :
    Stage turn w.state (said ++ q.entries) (events ++ q.followUps) commands := by
  cases hacts : command.acts with
  | false =>
      obtain ⟨hentries, hfollowUps⟩ := executeOne_of_quiet hacts h
      have hskip : acting (command :: commands) = acting commands := by
        unfold acting
        rw [List.filter_cons_of_neg (by rw [hacts]; exact Bool.false_ne_true)]
      rw [hentries, hfollowUps, List.append_nil, List.append_nil]
      cases hstage with
      | asking c _ hcalling hacting => exact Stage.asking c _ hcalling (hskip ▸ hacting)
      | asked c o e _ hcalling hcall hquiet =>
          exact Stage.asked c o e _ hcalling hcall (hskip ▸ hquiet)
      | delivering c _ hawaits hacting => exact Stage.delivering c _ hawaits (hskip ▸ hacting)
      | delivered c _ hawaits hquiet => exact Stage.delivered c _ hawaits (hskip ▸ hquiet)
      | closing c _ hphase hacting => exact Stage.closing c _ hphase (hskip ▸ hacting)
      | closed _ now _ hphase hquiet => exact Stage.closed _ now _ hphase (hskip ▸ hquiet)
      | ended _ _ hover hquiet => exact Stage.ended _ _ hover (hskip ▸ hquiet)
  | true =>
      -- The one command that acts has its turn.
      have htake : acting (command :: commands) = command :: acting commands := by
        unfold acting
        rw [List.filter_cons_of_pos hacts]
      have hbusy : acting (command :: commands) ≠ [] := by
        rw [htake]
        exact List.cons_ne_nil _ _
      cases hstage with
      | asking c _ hcalling hacting =>
          rw [htake, List.cons.injEq] at hacting
          obtain ⟨rfl, hrest⟩ := hacting
          rw [executeOne, executePending] at h
          cases hcall : runInterviewer o c with
          | error x =>
              rw [hcall] at h
              cases h
          | ok e =>
              rw [hcall] at h
              cases h
              exact Stage.asked c o e _ hcalling hcall hrest
      | delivering c _ hawaits hacting =>
          rw [htake, List.cons.injEq] at hacting
          obtain ⟨rfl, hrest⟩ := hacting
          cases h
          exact Stage.delivered c _ hawaits hrest
      | closing c _ hphase hacting =>
          rw [htake, List.cons.injEq] at hacting
          obtain ⟨rfl, hrest⟩ := hacting
          cases h
          exact Stage.closed _ o.now _ hphase hrest
      | asked c o e _ hcalling hcall hquiet => exact absurd hquiet hbusy
      | delivered c _ hawaits hquiet => exact absurd hquiet hbusy
      | closed _ now _ hphase hquiet => exact absurd hquiet hbusy
      | ended _ _ hover hquiet => exact absurd hquiet hbusy

end Execution

end Stages

section Calls
variable (svc : DevSession)

/-- The candidate's entry that a call adds to a transcript. -/
def candidateEntry (text : String) (transcript : List TranscriptEntry) : TranscriptEntry :=
  ⟨.candidate, text, some (candidateTurnId svc.sessionId
    (transcript.countP (fun entry => entry.role = .candidate)))⟩

/-- The copy of a drive is at a stage of the answer to this message. -/
def Drive.At (text : String) (start : List TranscriptEntry) (d : Drive) (events : List Event)
    (commands : List Command) : Prop :=
  ∃ said, d.working.transcript = start ++ said ∧
    Stage (candidateEntry svc text start) d.working.state said events commands

/-- A task is a call of `post_turn` with this text, on this transcript. -/
def ShellTask.Answers (text : String) (start : List TranscriptEntry) (row : Working) :
    ShellTask → Prop
  | .load errand => errand = .postTurn text ∧ row.transcript = start
  | .loadTranscript errand s => errand = .postTurn text ∧ row.transcript = start ∧
      (s.awaiting = some .candidate → s.phase = .tech ∨ s.phase = .qa)
  | .drive d => d.At svc text start d.queue []
  | .persist d _ commands => d.queue = [] ∧ d.At svc text start [] commands
  | .execute d _ commands followUps => d.At svc text start (d.queue ++ followUps) commands
  | .save d _ followUps => d.At svc text start (d.queue ++ followUps) []
  | .assess _ _ => False
  | _ => True

omit svc in
/-- A drive of a call waits for one event at most. -/
theorem Stage.single {turn : TranscriptEntry} {s : SessionState} {said : List TranscriptEntry}
    {e : Event} {events : List Event} {commands : List Command}
    (h : Stage turn s said (e :: events) commands) : events = [] := by
  cases h <;> rfl

omit svc in
theorem StateInv.awaitsCandidate {cfg : OrchestratorConfig} {s : SessionState}
    (h : StateInv cfg s) (hawaiting : s.awaiting = some .candidate) : AwaitsCandidate s := by
  refine ⟨?_, hawaiting⟩
  have hphase := h.phase
  unfold PhaseInv at hphase
  -- In every other phase the interviewer is awaited, or nobody.
  cases hp : s.phase with
  | tech => exact Or.inl rfl
  | qa => exact Or.inr rfl
  | created =>
      rw [hp] at hphase
      cases hawaiting.symm.trans hphase.2.1.1
  | intro =>
      rw [hp] at hphase
      cases hawaiting.symm.trans hphase.2.1
  | close =>
      rw [hp] at hphase
      cases hawaiting.symm.trans hphase.2.1
  | completed =>
      rw [hp] at hphase
      cases hawaiting.symm.trans hphase.2.1
  | aborted =>
      rw [hp] at hphase
      cases hawaiting.symm.trans hphase.1

variable [Scalars]

/-- A step of a call takes it from stage to stage. -/
theorem taskStep_answers {row : Working} {o : Oracle} {task : ShellTask} {p : Progress}
    {text : String} {start : List TranscriptEntry} (hinv : StateInv svc.config row.state)
    (hanswers : task.Answers svc text start row) (h : taskStep svc row o task = some p) :
    p.task.Answers svc text start p.row := by
  cases move_of_taskStep svc h with
  | crashed | assessed => exact absurd hanswers id
  | refused | drained | overran | stuck | raised => exact trivial
  | loaded errand =>
      exact ⟨hanswers.1, hanswers.2, fun hawaiting => (hinv.awaitsCandidate hawaiting).1⟩
  | admitted e state => cases hanswers.1
  | posted text' state turnId hlive hopen hid =>
      obtain ⟨htext, hstart, hphase⟩ := hanswers
      cases htext
      -- The check at the door lets only these phases through.
      have hadmitted : Admitted state := by
        by_cases hintro : state.phase = .intro
        · exact Or.inl hintro
        · have hawaiting : state.awaiting = some .candidate := by
            by_contra hc
            exact hopen ⟨hintro, hc⟩
          exact Or.inr ⟨hphase hawaiting, hawaiting⟩
      rw [hid]
      refine ⟨[candidateEntry svc text start], ?_, Stage.answering _ text o.now hadmitted⟩
      rw [← hstart]
      rfl
  | applied d e queue r hqueue hsteps hr =>
      obtain ⟨said, hsaid, hstage⟩ := hanswers
      rw [hqueue] at hstage
      obtain rfl := hstage.single
      exact ⟨rfl, said, hsaid, hstage.transition hr⟩
  | persisted d e commands =>
      obtain ⟨hqueue, hat⟩ := hanswers
      change d.At svc text start (d.queue ++ []) commands
      rw [hqueue]
      exact hat
  | spoken | unspoken | saved => exact hanswers
  -- What is said is added to what the call has said so far.
  | executed d mark command commands followUps q hone =>
      obtain ⟨said, hsaid, hstage⟩ := hanswers
      refine ⟨said ++ q.entries, ?_, ?_⟩
      · rw [← List.append_assoc, ← hsaid]
        rfl
      · rw [← List.append_assoc]
        exact hstage.execute hone

variable {planInput : Dict String Json} {now : Instant} {ts : List (Taken World Choice Effect)}
  {w : World}

/-- When calls and tasks are executed one after another, a call is followed from
    its request on: it is at a stage of the answer, or it is over. -/
theorem answers_of_run (h : Run (shellStep svc) (created svc planInput now) ts w)
    (hseq : Sequential ts) (us : List (Taken World Choice Effect)) (u : Taken World Choice Effect)
    (vs : List (Taken World Choice Effect)) (text : String) (hts : ts = us ++ u :: vs)
    (hpost : u.event = .post text) :
    u.before.tasks.length < w.tasks.length ∧
      ∀ task, w.tasks[u.before.tasks.length]? = some task →
        task.over = true ∨ task.Answers svc text u.before.row.transcript w.row := by
  induction h generalizing vs with
  | nil => simp at hts
  | snoc ts a b c out hrun hab ih =>
      have hpre : Sequential ts := fun t ht => hseq t (List.mem_append_left _ ht)
      have hmover := hseq ⟨a, c, b, out⟩ (List.mem_append_right _ (List.mem_singleton_self _))
      rcases List.eq_nil_or_concat vs with rfl | ⟨vs', v, rfl⟩
      · -- The request has just arrived.
        obtain ⟨-, hu⟩ := List.append_inj' hts rfl
        rw [List.cons.injEq] at hu
        obtain ⟨rfl, -⟩ := hu
        dsimp only at hpost ⊢
        rw [hpost] at hab
        cases hab
        refine ⟨by rw [List.length_append]; exact Nat.lt_succ_self _, fun task htask => ?_⟩
        rw [List.getElem?_append_right (Nat.le_refl _), Nat.sub_self] at htask
        cases htask
        exact Or.inr ⟨rfl, rfl⟩
      · -- The request came earlier; only the call itself moves it along.
        rw [List.concat_eq_append, ← List.cons_append, ← List.append_assoc] at hts
        obtain ⟨hlt, hold⟩ := ih hpre vs' (List.append_inj' hts rfl).1
        rcases shellStep_cases svc hab with
          ⟨text', rfl, rfl, rfl⟩ | ⟨i, o, mover, p, rfl, hi, hp, rfl, rfl⟩
        · refine ⟨by rw [List.length_append]; exact Nat.lt_succ_of_lt hlt, fun task htask => ?_⟩
          rw [List.getElem?_append_left hlt] at htask
          exact hold task htask
        · refine ⟨by rw [List.length_append, List.length_set]; omega, fun task htask => ?_⟩
          rw [List.getElem?_append_left (by rw [List.length_set]; exact hlt),
            ← List.append_nil (a.tasks.set i p.task)] at htask
          rcases getElem?_moved hi htask with ⟨rfl, rfl⟩ | ⟨hne, htask⟩ | hnone
          · obtain ⟨ms, hms⟩ := stored_state_reachable svc hrun
            rcases hold mover hi with hover | hanswers
            · cases mover with
              | done | failed => cases hp
              | assess | load | loadTranscript | drive | persist | execute | save => cases hover
            · exact Or.inr (taskStep_answers svc (SessionRun.stateInv hms) hanswers hp)
          · -- Nobody else moves before the call is over.
            rcases hmover _ task htask with hrests | ⟨o', hrun⟩
            · refine Or.inl ((hold task htask).elim id (fun hanswers => ?_))
              cases task with
              | done | failed => rfl
              | assess => exact absurd hanswers id
              | load | loadTranscript | drive | persist | execute | save => cases hrests
            · rw [Choice.run.injEq] at hrun
              exact absurd hrun.1.symm hne
          · exact absurd hnone List.not_mem_nil

/-- What a call that returns leaves behind: the session is over, or it awaits the
    candidate again and the interviewer has said one thing in reply. -/
def Returned (text : String) (before after : Working) : Prop :=
  ¬ live after.state ∨ (AwaitsCandidate after.state ∧ ∃ c : DeliverUtterance,
    after.transcript = before.transcript
      ++ [candidateEntry svc text before.transcript, ⟨.interviewer, c.utterance, some c.turnId⟩])

omit planInput now ts w in
/-- Only a drive that waits for nothing returns. -/
theorem drive_of_done {row : Working} {o : Oracle} {task : ShellTask} {p : Progress}
    (h : taskStep svc row o task = some p) (hdone : p.task = .done) :
    ∃ d, task = .drive d ∧ d.queue = [] := by
  cases move_of_taskStep svc h with
  | drained d hqueue => exact ⟨d, rfl, hqueue⟩
  | crashed | assessed | loaded | admitted | refused | posted | overran | stuck | applied
  | persisted | spoken | unspoken | raised | executed | saved => cases hdone

/-- A call that returns has come to the end of its stages. -/
theorem returned_of_run {t : Taken World Choice Effect} {us vs : List (Taken World Choice Effect)}
    {u : Taken World Choice Effect} {text : String}
    (h : Run (shellStep svc) (created svc planInput now) (us ++ u :: vs) t.before)
    (hseq : Sequential (us ++ u :: vs))
    (hstep : shellStep svc t.before t.event = .ok (t.after, t.out)) (hpost : u.event = .post text)
    (hbefore : t.before.tasks[u.before.tasks.length]? ≠ some .done)
    (hafter : t.after.tasks[u.before.tasks.length]? = some .done) :
    Returned svc text u.before.row t.after.row := by
  -- The call was at some stage before the step, and it returns in this one.
  obtain ⟨hlt, hcall⟩ := answers_of_run svc h hseq us u vs text rfl hpost
  obtain ⟨a, c, b, out⟩ := t
  dsimp only at h hstep hbefore hafter hlt hcall ⊢
  rcases shellStep_cases svc hstep with
    ⟨text', rfl, rfl, rfl⟩ | ⟨i, o, task, p, rfl, hi, hp, rfl, rfl⟩
  · rw [List.getElem?_append_left hlt] at hafter
    exact absurd hafter hbefore
  · rw [List.getElem?_append_left (by rw [List.length_set]; exact hlt),
      ← List.append_nil (a.tasks.set i p.task)] at hafter
    rcases getElem?_moved hi hafter with ⟨hsame, hdone⟩ | ⟨_, hafter⟩ | hnone
    · rw [hsame] at hcall hbefore
      obtain ⟨d, rfl, hqueue⟩ := drive_of_done svc hp hdone.symm
      rcases hcall _ hi with hover | ⟨said, hsaid, hstage⟩
      · cases hover
      rw [hqueue] at hstage
      obtain ⟨hstate, htranscript⟩ := matches_of_sequential svc h hseq hi (Option.some_ne_none _)
      rw [hqueue, List.flatMap_nil, List.append_nil] at htranscript
      cases hp
      unfold Returned
      rw [← hstate, ← htranscript]
      -- With nothing queued the stage is the last one.
      rcases hstage.finished with hover | ⟨hawaits, c, hc⟩
      · exact Or.inl hover
      · exact Or.inr ⟨hawaits, c, by rw [hsaid, hc]⟩
    · exact absurd hafter hbefore
    · exact absurd hnone List.not_mem_nil

end Calls

/-- The drive loop settles: no drive processes more than three events, so none
    runs into its limit; and when calls and tasks are executed one after another,
    every call of `post_turn` that returns leaves a session that is over, or that
    awaits the candidate with one more utterance of the interviewer. -/
theorem drive_settles [Scalars] (svc : DevSession) (planInput : Dict String Json) (now : Instant)
    (ts : List (Taken World Choice Effect)) (w : World)
    (h : Run (shellStep svc) (created svc planInput now) ts w) (hseq : Sequential ts) :
    (∀ task ∈ w.tasks, task.processed ≤ 3 ∧ ∀ message, task ≠ .failed (.runaway message)) ∧
    ∀ us u vs t xs text, ts = us ++ u :: (vs ++ t :: xs) → u.event = .post text →
      t.before.tasks[u.before.tasks.length]? ≠ some .done →
      t.after.tasks[u.before.tasks.length]? = some .done →
      Returned svc text u.before.row t.after.row := by
  refine ⟨fun task htask => (bounded_of_run svc h task htask).within, ?_⟩
  intro us u vs t xs text hts hpost hbefore hafter
  have hsplit : ts = (us ++ u :: vs) ++ t :: xs := by
    rw [hts, List.append_assoc, List.cons_append]
  obtain ⟨hrun, hstep⟩ := Run.split h _ t xs hsplit
  have hpre : Sequential (us ++ u :: vs) := by
    intro v hv
    refine hseq v ?_
    rw [hsplit]
    exact List.mem_append_left _ hv
  exact returned_of_run svc hrun hpre hstep hpost hbefore hafter

section SmallService

/-- The text of a request. -/
def Choice.text? : Choice → Option String
  | .post text => some text
  | .run _ _ => none

/-- The call with this number has returned. -/
def World.hasReturned (w : World) (i : Nat) : Bool :=
  match w.tasks[i]? with
  | some .done => true
  | _ => false

theorem hasReturned_iff (w : World) (i : Nat) :
    w.hasReturned i = true ↔ w.tasks[i]? = some .done := by
  unfold World.hasReturned
  split
  · next h => exact ⟨fun _ => h, fun _ => rfl⟩
  · next h => exact ⟨fun hc => absurd hc Bool.false_ne_true, fun hc => absurd hc h⟩

/-- The first message of the small interview is answered with the first
    question. -/
theorem drive_settles_small : ∃ ts w us u vs t, SmallShell ts w ∧ Sequential ts ∧
    ts = us ++ u :: (vs ++ [t]) ∧ u.event = .post "ready" ∧
    (∀ task ∈ w.tasks, task.processed ≤ 3) ∧
    Returned smallService "ready" u.before.row t.after.row := by
  have hrec : (smallShellRecord smallOpening).map (fun r => (sequentially r.1,
      (r.1.drop 7).head?.map (fun u => (u.event.text?, u.before.tasks.length)),
      (r.1.drop 8).getLast?.map (fun t => (t.before.hasReturned 1, t.after.hasReturned 1))))
        = .ok (true, some (some "ready", 1), some (false, true)) := by decide +kernel
  obtain ⟨ts, w, hrun, hproj⟩ := exists_run_of_record _ _ _ _ _ hrec
  simp only [Prod.mk.injEq] at hproj
  obtain ⟨hcheck, hhead, hlast⟩ := hproj
  obtain ⟨u, hu, htext⟩ := Option.map_eq_some_iff.mp hhead
  obtain ⟨t, ht, hreturns⟩ := Option.map_eq_some_iff.mp hlast
  rw [Prod.mk.injEq] at htext hreturns
  -- The request is the eighth step, and the call returns in the last one.
  have hts : ts = ts.take 7 ++ u :: ((ts.drop 8).dropLast ++ [t]) := by
    rw [List.dropLast_append_getLast? t ht]
    obtain ⟨rest, hrest⟩ := List.head?_eq_some_iff.mp hu
    have htail : ts.drop 8 = rest := by
      rw [← List.drop_drop (i := 1) (j := 7), hrest]
      rfl
    rw [htail, ← hrest, List.take_append_drop]
  have hpost : u.event = .post "ready" := by
    cases hevent : u.event with
    | post text =>
        rw [hevent] at htext
        rw [Option.some.inj htext.1]
    | run i o =>
        rw [hevent] at htext
        cases htext.1
  have hseq := sequential_of_check hcheck
  have hall := @drive_settles Scalars.strict smallService smallInput 0 ts w hrun hseq
  refine ⟨ts, w, _, u, _, t, hrun, hseq, hts, hpost, fun task htask => (hall.1 task htask).1,
    hall.2 _ u _ t [] "ready" hts hpost ?_ ?_⟩
  · rw [htext.2, ne_eq, ← hasReturned_iff, hreturns.1]
    exact Bool.false_ne_true
  · rw [htext.2, ← hasReturned_iff]
    exact hreturns.2

end SmallService

end TechScreen
