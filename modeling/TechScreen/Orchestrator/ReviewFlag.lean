import TechScreen.Orchestrator.Delivery
import TechScreen.Orchestrator.LateAssessments

/-!
# The Review Flag

A session is flagged for review when its interviewer has strayed from the issued
moves too often, or its candidate was suspected of cheating too often. The flag
is computed where one of the two counters moves and carried along everywhere
else, and the counters live at different levels of the state.

`ReviewStep` says what a transition does to the three: nothing, one delivery, or
one accepted output. The counters are then read off the run: the replies that
were delivered against the move issued for their turn, and the flags in the
outputs that were accepted.

## Main definitions

* `moveIssuedFor`: The move that was issued for a turn.
* `driftedReplies`: The delivered replies that strayed from it.
* `ReviewStep`: What a transition does to the counters and the flag.

## Theorems

* `reviewStep_of_step`: Every transition is one of three.
* `review_flag_exact`: The flag and the counters in every state reached.
-/

namespace TechScreen

open Lib

/-- The interviewer call that a command asks for, retries included. -/
def Command.interviewer? : Command → Option RunInterviewer
  | .runInterviewer c => some c
  | _ => none

/-- The move of the last interviewer call for a turn. -/
def moveIssuedFor (out : List Command) (turnId : Uuid) : Option InterviewerMove :=
  ((out.filterMap Command.interviewer?).reverse.find? (fun c => c.turnId = turnId)).map
    RunInterviewer.move

/-- The step delivers a reply that has strayed from the move issued for it. -/
def drifts (done : List (Taken SessionState Event Command))
    (t : Taken SessionState Event Command) : Bool :=
  match t.event with
  | .interviewerReplyReady turnId output _ =>
      decide (turnId ∈ deliveredIds t.out) &&
        (moveIssuedFor (outputs done) turnId).any (fun move => move ≠ output.internalMoveExecuted)
  | _ => false

/-- The replies delivered so far that have strayed from the moves issued. -/
def driftedReplies (ts : List (Taken SessionState Event Command)) : Nat :=
  countAlong drifts [] ts

/-- What a transition does to the counters and the flag. -/
inductive ReviewStep (cfg : OrchestratorConfig) (s : SessionState) (e : Event) (s' : SessionState)
    (out : List Command) : Prop
  | idle (hdrift : s'.tech.driftCount = s.tech.driftCount)
      (hcheat : s'.cheatFlagCount = s.cheatFlagCount)
      (hflag : s'.flaggedForReview = s.flaggedForReview) (hundelivered : deliveredIds out = [])
      (hnone : outputsIn (evidenceOf cfg s e) = [])
  | delivers (r : RunInterviewer) (output : InterviewerOutput) (now : Instant)
      (hflight : InFlight s) (hpending : s.pendingCommand = some (.runInterviewer r))
      (hevent : e = .interviewerReplyReady r.turnId output now)
      (hdelivered : deliveredIds out = [r.turnId])
      (hdrift : s'.tech.driftCount
        = s.tech.driftCount + if r.move ≠ output.internalMoveExecuted then 1 else 0)
      (hcheat : s'.cheatFlagCount = s.cheatFlagCount)
      (hflag : s'.flaggedForReview = (s.flaggedForReview ||
        decide (r.move ≠ output.internalMoveExecuted ∧
          s'.tech.driftCount ≥ cfg.flags.driftToReview)))
  | accepts (output : AssessorOutput) (hdrift : s'.tech.driftCount = s.tech.driftCount)
      (hcheat : s'.cheatFlagCount = s.cheatFlagCount + cheatFlags output)
      (hflag : s'.flaggedForReview = (s.flaggedForReview ||
        decide (s'.cheatFlagCount ≥ cfg.flags.cheatFlagsToReview)))
      (hundelivered : deliveredIds out = [])
      (hone : outputsIn (evidenceOf cfg s e) = [output])

section Steps
variable [Scalars] {cfg : OrchestratorConfig} {s s' : SessionState} {e : Event}
  {out : List Command}

omit [Scalars] in
/-- Leaving a competency keeps the count of drifts. -/
theorem Answer.leaving_driftCount {now : Instant} (a : Answer s now) (cfg : OrchestratorConfig)
    (turnId : Uuid) : (a.leaving cfg turnId).driftCount = s.tech.driftCount := by
  unfold Answer.leaving markGap
  split
  · split <;> rfl
  · rfl

omit [Scalars] in
/-- Only a result brings an output. -/
theorem outputsIn_evidenceOf (h : e.isAssessment = false) :
    outputsIn (evidenceOf cfg s e) = [] := by
  cases e with
  | candidateTurnReceived turnId text now =>
      rw [evidenceOf]
      split
      · split <;> rfl
      · rfl
  | assessmentCompleted | assessmentFailed => exact absurd h Bool.true_eq_false_eq_False
  | sessionStarted | interviewerReplyReady | interviewerFailed | timerTick | reconnected
  | operatorAbort => rfl

omit [Scalars] in
/-- A delivery is counted against the move in flight. -/
theorem reviewStep_delivered (h : StateInv cfg s) {turnId : Uuid} (output : InterviewerOutput)
    (now : Instant) (hflight : InFlight s) (hpending : answersPendingCommand s turnId = true) :
    ReviewStep cfg s (.interviewerReplyReady turnId output now) (delivered s turnId output cfg)
      [.deliverUtterance ⟨turnId, output.utterance⟩, .persistState] := by
  obtain ⟨_, r, hr, hmove, _⟩ := h.inFlight hflight
  obtain rfl : r.turnId = turnId := turnId_of_answers hpending hr
  refine ReviewStep.delivers r output now hflight hr rfl rfl ?_ rfl ?_
  · -- The move in flight is the one issued last.
    unfold delivered noteDrift
    rw [hmove]
    by_cases hdrift : r.move = output.internalMoveExecuted
    · rw [if_neg (fun hc => hc.2 (congrArg some hdrift)), if_neg (not_not.mpr hdrift),
        Int.add_zero]
    · rw [if_pos ⟨rfl, fun hc => hdrift (Option.some.inj hc)⟩, if_pos hdrift]
  · unfold delivered noteDrift
    rw [hmove]
    by_cases hdrift : r.move = output.internalMoveExecuted
    · rw [if_neg (fun hc => hc.2 (congrArg some hdrift)),
        decide_eq_false (fun hc => hc.1 hdrift), Bool.or_false]
    · rw [if_pos ⟨rfl, fun hc => hdrift (Option.some.inj hc)⟩]
      simp only [ne_eq, hdrift, not_false_eq_true, true_and]

theorem reviewStep_of_edge (h : StateInv cfg s) (hassessment : e.isAssessment = false)
    (hedge : Edge cfg s e s' out) : ReviewStep cfg s e s' out := by
  have hnone : outputsIn (evidenceOf cfg s e) = [] := outputsIn_evidenceOf hassessment
  have hidle : s'.tech.driftCount = s.tech.driftCount → s'.cheatFlagCount = s.cheatFlagCount →
      s'.flaggedForReview = s.flaggedForReview → deliveredIds out = [] →
      ReviewStep cfg s e s' out :=
    fun hdrift hcheat hflag hquiet => ReviewStep.idle hdrift hcheat hflag hquiet hnone
  cases hedge with
  | advanced turnId text now a following hphase hawaiting hleaves hnext =>
      exact hidle (a.leaving_driftCount cfg turnId) rfl rfl (deliveredIds_leaving a _ _)
  | finished turnId text now a hphase hawaiting hleaves hlast =>
      exact hidle (a.leaving_driftCount cfg turnId) rfl rfl (deliveredIds_leaving a _ _)
  | aborted e reason decision persist hlive hturn =>
      cases persist <;> exact hidle rfl rfl rfl rfl
  | delivered turnId output now hphase hawaiting hpending =>
      -- The one edge outside the assessments that counts anything.
      exact reviewStep_delivered h output now ⟨hphase, hawaiting⟩ hpending
  | reconnected now hlive =>
      refine hidle rfl rfl rfl ?_
      unfold onReconnected
      cases s.pendingCommand with
      | none => rfl
      | some c => rfl
  | assessed | assessmentFailed => exact absurd hassessment Bool.true_eq_false_eq_False
  | ignored | opened | entered | probed | seeded | cutShort | asked | closed | completed
  | retried => exact hidle rfl rfl rfl rfl

/-- A result is counted if it is an output that was waited for. -/
theorem reviewStep_of_assessment (hassessment : e.isAssessment = true)
    (hstep : step cfg s e = .ok (s', out)) : ReviewStep cfg s e s' out := by
  have htransition := (step_eq_ok_iff cfg s s' e out).mp hstep
  by_cases hlive : live s
  · rw [transition_of_assessment cfg hlive hassessment, Except.ok.injEq,
      TransitionResult.mk.injEq] at htransition
    rw [← htransition.1, ← htransition.2]
    cases e with
    | assessmentCompleted forTurnId output now =>
        by_cases hmem : forTurnId ∈ s.tech.pendingAssessments
        · -- An output that is waited for adds its flags, and the flag is tested.
          have hmem' : forTurnId ∈ s.assessments.pendingAssessments := hmem
          rw [Assessments.absorb, if_pos hmem']
          refine ReviewStep.accepts output rfl rfl rfl rfl ?_
          rw [evidenceOf, if_pos ⟨hlive, hmem⟩]
          rfl
        · -- A late or repeated output is dropped.
          have hmem' : forTurnId ∉ s.assessments.pendingAssessments := hmem
          rw [Assessments.absorb, if_neg hmem']
          refine ReviewStep.idle rfl rfl (Bool.or_false _) rfl ?_
          rw [evidenceOf, if_neg (fun hc => hmem hc.2)]
          rfl
    | assessmentFailed forTurnId errorKind now =>
        -- A failed assessment carries no flags.
        have hquiet : (s.assessments.absorb cfg (.assessmentFailed forTurnId errorKind now)).2.1
              = false ∧
            (s.assessments.absorb cfg (.assessmentFailed forTurnId errorKind now)).1.cheatFlagCount
              = s.cheatFlagCount ∧
            deliveredIds (s.assessments.absorb cfg
              (.assessmentFailed forTurnId errorKind now)).2.2 = [] := by
          unfold Assessments.absorb
          dsimp only
          split <;> exact ⟨rfl, rfl, rfl⟩
        refine ReviewStep.idle rfl hquiet.2.1 ?_ hquiet.2.2 ?_
        · simp only [SessionState.placed, hquiet.1, Bool.or_false]
        · rw [evidenceOf]
          split
          · cases s.tech.assessmentFocus.get? forTurnId <;> rfl
          · rfl
    | sessionStarted | candidateTurnReceived | interviewerReplyReady | interviewerFailed
    | timerTick | reconnected | operatorAbort => exact absurd hassessment Bool.false_ne_true
  · -- A terminal session ignores the result.
    rw [transition_of_not_live hlive, Except.ok.injEq] at htransition
    have hsame := congrArg TransitionResult.newState htransition
    have hquiet := congrArg TransitionResult.commands htransition
    simp only [ignore] at hsame hquiet
    rw [← hsame, ← hquiet]
    refine ReviewStep.idle rfl rfl rfl rfl ?_
    cases e with
    | assessmentCompleted forTurnId output now =>
        rw [evidenceOf, if_neg (fun hc => hlive hc.1)]
        rfl
    | assessmentFailed forTurnId errorKind now =>
        rw [evidenceOf, if_neg (fun hc => hlive hc.1)]
        rfl
    | sessionStarted | candidateTurnReceived | interviewerReplyReady | interviewerFailed
    | timerTick | reconnected | operatorAbort => exact absurd hassessment Bool.false_ne_true

/-- Every transition leaves the counters alone, delivers a reply or accepts an
    output. -/
theorem reviewStep_of_step (h : StateInv cfg s) (hstep : step cfg s e = .ok (s', out)) :
    ReviewStep cfg s e s' out := by
  by_cases hassessment : e.isAssessment = true
  · exact reviewStep_of_assessment hassessment hstep
  · exact reviewStep_of_edge h (Bool.not_eq_true _ ▸ hassessment) (edge_of_step hstep)

end Steps

section Runs
variable [Scalars] {cfg : OrchestratorConfig} {s : SessionState} {sessionId : Uuid}
  {planInput : Dict String Json} {ts : List (Taken SessionState Event Command)}

omit [Scalars] in
/-- The last call is the last one for its own turn. -/
theorem moveIssuedFor_of_last {out : List Command} {r : RunInterviewer}
    (h : (issued out).getLast? = some (.runInterviewer r)) :
    moveIssuedFor out r.turnId = some r.move := by
  -- Scripts may be issued too, so the calls are looked at one command at a time.
  have hlast : (out.filterMap Command.interviewer?).getLast? = some r := by
    induction out using List.reverseRecOn with
    | nil => simp only [issued, List.filterMap_nil, List.getLast?_nil, reduceCtorEq] at h
    | append_singleton out c ih =>
        rw [issued_append] at h
        rw [List.filterMap_append]
        cases c with
        | runInterviewer c =>
            have hone : issued [Command.runInterviewer c] = [.runInterviewer c] := rfl
            rw [hone, List.getLast?_concat, Option.some.injEq,
              PendingCommand.runInterviewer.injEq] at h
            rw [← h]
            exact List.getLast?_concat
        | emitScriptedOpening c =>
            have hone : issued [Command.emitScriptedOpening c] = [.emitScriptedOpening c] := rfl
            rw [hone, List.getLast?_concat, Option.some.injEq] at h
            cases h
        | emitScriptedClosing c =>
            have hone : issued [Command.emitScriptedClosing c] = [.emitScriptedClosing c] := rfl
            rw [hone, List.getLast?_concat, Option.some.injEq] at h
            cases h
        | _ =>
            change (issued out ++ []).getLast? = some (.runInterviewer r) at h
            change (out.filterMap Command.interviewer? ++ []).getLast? = some r
            rw [List.append_nil] at h ⊢
            exact ih h
  rw [List.getLast?_eq_head?_reverse] at hlast
  unfold moveIssuedFor
  cases hrev : (out.filterMap Command.interviewer?).reverse with
  | nil =>
      rw [hrev] at hlast
      cases hlast
  | cons c cs =>
      rw [hrev, List.head?_cons, Option.some.injEq] at hlast
      rw [hlast, List.find?_cons_of_pos (by exact decide_eq_true rfl)]
      rfl

/-- What a run has counted. -/
structure Counted (cfg : OrchestratorConfig) (ts : List (Taken SessionState Event Command))
    (s : SessionState) : Prop where
  drift : s.tech.driftCount = driftedReplies ts
  cheat : s.cheatFlagCount = ((outputsIn (history cfg ts)).map cheatFlags).sum
  flag : s.flaggedForReview = true ↔ s.tech.driftCount ≥ cfg.flags.driftToReview ∨
    s.cheatFlagCount ≥ cfg.flags.cheatFlagsToReview

/-- The counters and the flag are read off the run. -/
theorem SessionRun.counted (h : SessionRun cfg sessionId planInput ts s) : Counted cfg ts s := by
  induction h with
  | nil =>
      -- No threshold is met by a session that has counted nothing.
      have hdrift := cfg.flags.driftToReview_ge
      have hcheat := cfg.flags.cheatFlagsToReview_ge
      refine ⟨rfl, rfl, ?_⟩
      simp only [initialState, Bool.false_eq_true, false_iff, not_or]
      omega
  | snoc ts a b e out hrun hab ih =>
      have hcount : driftedReplies (ts ++ [⟨a, e, b, out⟩])
          = driftedReplies ts + if drifts ts ⟨a, e, b, out⟩ then 1 else 0 :=
        countAlong_snoc drifts [] ts ⟨a, e, b, out⟩
      have hhistory : ((outputsIn (history cfg (ts ++ [⟨a, e, b, out⟩]))).map cheatFlags).sum
          = ((outputsIn (history cfg ts)).map cheatFlags).sum
            + ((outputsIn (evidenceOf cfg a e)).map cheatFlags).sum := by
        rw [history, List.flatMap_append, List.flatMap_singleton, outputsIn, List.filterMap_append,
          List.map_append, List.sum_append]
        rfl
      -- A step that delivers nothing has not strayed.
      have hsteady : deliveredIds out = [] → drifts ts ⟨a, e, b, out⟩ = false := by
        intro hquiet
        cases e with
        | interviewerReplyReady turnId output now =>
            simp only [drifts, hquiet, List.not_mem_nil, decide_false, Bool.false_and]
        | _ => rfl
      cases reviewStep_of_step (SessionRun.stateInv hrun) hab with
      | idle hdrift hcheat hflag hundelivered hnone =>
          rw [hsteady hundelivered, if_neg Bool.false_ne_true, Nat.add_zero] at hcount
          rw [hnone, List.map_nil, List.sum_nil, Nat.add_zero] at hhistory
          refine ⟨?_, ?_, ?_⟩
          · rw [hdrift, hcount]
            exact ih.drift
          · rw [hcheat, hhistory]
            exact ih.cheat
          · rw [hflag, hdrift, hcheat]
            exact ih.flag
      | delivers r output now hflight hpending hevent hdelivered hdrift hcheat hflag =>
          obtain ⟨r', hlast, hr'⟩ := (SessionRun.traceInv hrun).last hflight
          rw [hpending, Option.some.injEq, PendingCommand.runInterviewer.injEq] at hr'
          have hissued : moveIssuedFor (outputs ts) r.turnId = some r.move :=
            moveIssuedFor_of_last (hr' ▸ hlast)
          have hstrays : drifts ts ⟨a, e, b, out⟩
              = decide (r.move ≠ output.internalMoveExecuted) := by
            subst hevent
            simp only [drifts, hdelivered, List.mem_singleton, decide_true, Bool.true_and,
              hissued, Option.any_some]
          have hnone : outputsIn (evidenceOf cfg a e) = [] := by
            rw [hevent]
            rfl
          rw [hstrays] at hcount
          rw [hnone, List.map_nil, List.sum_nil, Nat.add_zero] at hhistory
          refine ⟨?_, ?_, ?_⟩
          · rw [hdrift, hcount, ih.drift]
            by_cases hmove : r.move = output.internalMoveExecuted
            · simp only [hmove, ne_eq, not_true_eq_false, if_false, decide_false,
                Bool.false_eq_true, Nat.add_zero, Int.add_zero]
            · simp only [hmove, ne_eq, not_false_eq_true, if_true, decide_true, Nat.cast_add,
                Nat.cast_one]
          · rw [hcheat, hhistory]
            exact ih.cheat
          · -- Without a drift the count has stayed; with one it has grown, and is looked at.
            rw [hflag, Bool.or_eq_true, decide_eq_true_eq, ih.flag, hcheat, hdrift]
            by_cases hmove : r.move = output.internalMoveExecuted
            · simp only [hmove, ne_eq, not_true_eq_false, false_and, or_false, if_false,
                Int.add_zero]
            · simp only [hmove, ne_eq, not_false_eq_true, true_and, if_true]
              omega
      | accepts output hdrift hcheat hflag hundelivered hone =>
          rw [hsteady hundelivered, if_neg Bool.false_ne_true, Nat.add_zero] at hcount
          rw [hone, List.map_singleton, List.sum_singleton] at hhistory
          refine ⟨?_, ?_, ?_⟩
          · rw [hdrift, hcount]
            exact ih.drift
          · rw [hcheat, hhistory, ih.cheat, Nat.cast_add]
          · rw [hflag, Bool.or_eq_true, decide_eq_true_eq, ih.flag, hcheat, hdrift]
            omega

end Runs

/-- In every state reached the session is flagged exactly if one of its counters
    has met its threshold; the counters are the replies that have strayed from the
    move issued for their turn, and the flags in the accepted outputs; and neither
    the flag nor a counter ever goes down. -/
theorem review_flag_exact [Scalars] (cfg : OrchestratorConfig) (sessionId : Uuid)
    (planInput : Dict String Json) (ts : List (Taken SessionState Event Command))
    (s : SessionState) (h : SessionRun cfg sessionId planInput ts s) :
    (s.flaggedForReview = true ↔ s.tech.driftCount ≥ cfg.flags.driftToReview ∨
      s.cheatFlagCount ≥ cfg.flags.cheatFlagsToReview) ∧
    s.tech.driftCount = driftedReplies ts ∧
    s.cheatFlagCount = ((outputsIn (history cfg ts)).map cheatFlags).sum ∧
    ∀ t ∈ ts, (t.before.flaggedForReview = true → t.after.flaggedForReview = true) ∧
      t.before.tech.driftCount ≤ t.after.tech.driftCount ∧
      t.before.cheatFlagCount ≤ t.after.cheatFlagCount := by
  have hcounted := h.counted
  refine ⟨hcounted.flag, hcounted.drift, hcounted.cheat, fun t ht => ?_⟩
  -- Every step of the run is one of the three kinds.
  obtain ⟨us, _, hus, hstep⟩ := h.of_mem t ht
  cases reviewStep_of_step (SessionRun.stateInv hus) hstep with
  | idle hdrift hcheat hflag hundelivered hnone =>
      rw [hdrift, hcheat, hflag]
      exact ⟨id, le_refl _, le_refl _⟩
  | delivers r output now hflight hpending hevent hdelivered hdrift hcheat hflag =>
      rw [hdrift, hcheat, hflag, Bool.or_eq_true]
      refine ⟨Or.inl, ?_, le_refl _⟩
      split <;> omega
  | accepts output hdrift hcheat hflag hundelivered hone =>
      rw [hdrift, hcheat, hflag, Bool.or_eq_true]
      exact ⟨Or.inl, le_refl _, by omega⟩

/-- A probe that was answered by a redirection, and an answer that looked like
    cheating: one flag is enough for a review. -/
theorem review_flag_exact_small : ∃ ts s, SmallRun ts s ∧ driftedReplies ts = 1 ∧
    s.tech.driftCount = 1 ∧ s.cheatFlagCount = 1 ∧ s.flaggedForReview = true := by
  have hrec : (smallRecord (smallEvents.take 4 ++ [driftedReply, lateResult])).map
      (fun r => (driftedReplies r.1, r.2.cheatFlagCount)) = .ok (1, 1) := by decide +kernel
  rcases exists_run_of_record _ _ _ _ _ hrec with ⟨ts, s, hrun, hproj⟩
  simp only [Prod.mk.injEq] at hproj
  obtain ⟨hflag, hdrift, _⟩ := @review_flag_exact Scalars.strict _ _ _ ts s hrun
  refine ⟨ts, s, hrun, hproj.1, ?_, hproj.2, hflag.mpr (Or.inr ?_)⟩
  · rw [hdrift, hproj.1]
    rfl
  · rw [hproj.2]
    decide

end TechScreen
