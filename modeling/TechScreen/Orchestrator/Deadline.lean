import TechScreen.Orchestrator.SessionLimit

/-!
# The End of a Session

Two facts about how a session comes to its end, one about time and one about
choice.

Time: a timer that keeps ticking ends every session. Once the session has run
past its limit, and for longer than a candidate may be silent, a tick that
finds it live aborts it or takes it one phase on, so three such ticks leave no
session alive, whatever else arrives in between. `Phase.ticksLeft` counts the
ticks that a phase can still outlive. Before the candidate has said anything
the start of the session is the last that was heard of it, and the first such
tick aborts.

Choice: no session is ever beyond completing. From every state that a started
session can reach, one and the same script completes it: the answer to the
outstanding command, a turn of the candidate and three ticks. The clock types
have to hold the time budgets of the plan, since the machine raises otherwise.

## Main definitions

* `Phase.ticksLeft`: The ticks past the deadline that a phase can outlive.
* `overdueTick`: A tick past the deadline.
* `ClockFits`: The time budgets fit the clock types.
* `Attended`: The candidate was heard just now, in a session past its limit.
* `wrapUp`: The script that completes a session.

## Theorems

* `ticksLeft_of_step`: What one step does to the ticks that are left.
* `overdue_ticks_end`: Three ticks past the deadline end every session.
* `transition_succeeds`: A transition within the clock types raises nothing.
* `wrapUp_completes`: Every started session can be completed.
-/

namespace TechScreen

open Lib

/-- The ticks past the deadline that a phase can outlive. -/
def Phase.ticksLeft : Phase → Nat
  | .created => 3
  | .intro => 3
  | .tech => 3
  | .qa => 2
  | .close => 1
  | .completed => 0
  | .aborted => 0

/-- A phase never gets more ticks than the one before it. -/
theorem Phase.ticksLeft_le_of_phaseStep {p q : Phase} (h : PhaseStep p q) :
    q.ticksLeft ≤ p.ticksLeft := by
  rcases h with rfl | hnext | ⟨_, rfl⟩
  · exact Nat.le_refl _
  · cases p with
    | completed => cases hnext
    | aborted => cases hnext
    | created | intro | tech | qa | close =>
        rw [← Option.some.inj hnext]
        decide
  · exact Nat.zero_le _

theorem ticksLeft_pos_of_live {s : SessionState} (h : live s) : 1 ≤ s.phase.ticksLeft := by
  unfold live at h
  generalize s.phase = p at h
  cases p with
  | completed => exact absurd (by decide) h
  | aborted => exact absurd (by decide) h
  | created | intro | tech | qa | close => decide

/-- At `now` the session is past its limit, and older than a candidate may be
    silent. -/
def overdue (cfg : OrchestratorConfig) (s : SessionState) (now : Instant) : Bool :=
  match s.plan, s.sessionStartedAt with
  | some plan, some t =>
      now - t ≥ plan.sessionMaxMinutes * 60000000 &&
        now - t > cfg.timing.candidateTimeoutMinutes * 60000000
  | _, _ => false

/-- A tick past the deadline. -/
def overdueTick (cfg : OrchestratorConfig) (t : Taken SessionState Event Command) : Bool :=
  match t.event with
  | .timerTick now => overdue cfg t.before now
  | _ => false

/-- Before the first turn of the candidate, the start of the session is the last
    that was heard of it. -/
def UnheardSinceStart (s : SessionState) : Prop :=
  s.phase = .intro → s.lastCandidateActivity = s.sessionStartedAt

section Overdue
variable {cfg : OrchestratorConfig} {s : SessionState} {now : Instant}

theorem exists_of_overdue (h : overdue cfg s now = true) :
    ∃ plan t, s.plan = some plan ∧ s.sessionStartedAt = some t ∧
      now - t ≥ plan.sessionMaxMinutes * 60000000 ∧
      now - t > cfg.timing.candidateTimeoutMinutes * 60000000 := by
  unfold overdue at h
  cases hplan : s.plan with
  | none =>
      rw [hplan] at h
      cases h
  | some plan =>
      cases hstart : s.sessionStartedAt with
      | none =>
          rw [hplan, hstart] at h
          cases h
      | some t =>
          rw [hplan, hstart, Bool.and_eq_true, decide_eq_true_eq, decide_eq_true_eq] at h
          exact ⟨plan, t, rfl, rfl, h.1, h.2⟩

theorem pastLimit_of_overdue (h : overdue cfg s now = true) : PastLimit s now := by
  obtain ⟨plan, t, hplan, hstart, hpast, _⟩ := exists_of_overdue h
  exact ⟨plan, t, hplan, hstart, hpast⟩

/-- In INTRO the candidate has been silent for the whole session. -/
theorem candidateTimedOut_of_overdue (h : overdue cfg s now = true)
    (hunheard : s.lastCandidateActivity = s.sessionStartedAt) :
    candidateTimedOut s now cfg = .ok true ∨
      candidateTimedOut s now cfg = .error .overflowError := by
  obtain ⟨_, t, _, hstart, _, hsilent⟩ := exists_of_overdue h
  unfold candidateTimedOut timedeltaMinutes
  rw [hunheard, hstart]
  dsimp only
  by_cases hfits : cfg.timing.candidateTimeoutMinutes / 1440 ≤ 999999999
  · left
    rw [if_pos hfits]
    simp only [bind, Except.bind, hsilent, decide_true]
  · right
    rw [if_neg hfits]
    rfl

/-- A tick that does not abort a session past its deadline takes it one phase
    on, and INTRO does not outlive it. -/
theorem ticksLeft_of_overdueTick {r : TransitionResult} (hlive : live s)
    (hcreated : s.phase ≠ .created) (hunheard : UnheardSinceStart s)
    (hover : overdue cfg s now = true) (h : onTimerTick s now cfg = .ok r) :
    r.newState.phase.ticksLeft + 1 ≤ s.phase.ticksLeft := by
  have hpos := ticksLeft_pos_of_live hlive
  have hpast := pastLimit_of_overdue hover
  by_cases htech : s.phase = .tech
  · rw [htech]
    rcases onTimerTick_of_pastLimit htech hpast h with ⟨_, hr⟩ | ⟨_, hqa, _⟩
    · have haborted : r.newState.phase = .aborted := by rw [hr]; rfl
      rw [haborted]
      decide
    · rw [hqa]
      decide
  unfold onTimerTick at h
  cases hsilent : candidateTimedOut s now cfg with
  | error x =>
      rw [hsilent] at h
      cases h
  | ok silent =>
      rw [hsilent] at h
      simp only [bind, Except.bind] at h
      cases silent with
      | true =>
          -- Silence aborts, and an aborted session has nothing left.
          rw [if_pos rfl, Except.ok.injEq] at h
          rw [← h]
          exact hpos
      | false =>
          rw [if_neg Bool.false_ne_true] at h
          cases hphase : s.phase with
          | intro =>
              -- Nobody was heard, so the tick has found silence.
              rcases candidateTimedOut_of_overdue hover (hunheard hphase) with ht | ht
              · rw [hsilent] at ht
                cases ht
              · rw [hsilent] at ht
                cases ht
          | qa =>
              rw [hphase] at h
              rcases sessionBudgetExhausted_of_pastLimit hpast with hb | hb
              · simp only [hb, if_true, Except.ok.injEq] at h
                rw [← h]
                exact Nat.le_refl 2
              · simp only [hb, reduceCtorEq] at h
          | close =>
              rw [hphase, Except.ok.injEq] at h
              rw [← h]
              exact Nat.le_refl 1
          | tech => exact absurd hphase htech
          | created => exact absurd hphase hcreated
          | completed => exact absurd (by rw [hphase]; decide) hlive
          | aborted => exact absurd (by rw [hphase]; decide) hlive

end Overdue

section Steps
variable [Scalars] {cfg : OrchestratorConfig} {s s' : SessionState} {e : Event}
  {out : List Command}

theorem unheardSinceStart_of_edge (h : UnheardSinceStart s) (hedge : Edge cfg s e s' out) :
    UnheardSinceStart s' := by
  -- No edge but the first leads into INTRO.
  have hne : ∀ {p : Phase}, s.phase = p → p ≠ .intro → s'.phase = s.phase →
      UnheardSinceStart s' := by
    intro p hp hnot hsame hintro
    exact absurd (hp.symm.trans (hsame.symm.trans hintro)) hnot
  cases hedge with
  | ignored e hidle => exact h
  | opened now plan hphase hplan => exact fun _ => rfl
  | probed turnId text now a hphase => exact hne hphase (by decide) rfl
  | seeded turnId text now a seed hphase => exact hne hphase (by decide) rfl
  | advanced turnId text now a following hphase => exact hne hphase (by decide) rfl
  | asked turnId text now plan hphase => exact hne hphase (by decide) rfl
  | delivered turnId output now hphase hawaiting hpending => exact h
  | retried turnId errorKind now pending hphase hawaiting hpending hid hstreak => exact h
  | assessed forTurnId output now hlive hpending =>
      rw [onAssessmentCompleted, if_neg (not_not.mpr hpending)]
      exact h
  | assessmentFailed forTurnId errorKind now hlive hpending =>
      rw [onAssessmentFailed, if_neg (not_not.mpr hpending)]
      exact h
  | reconnected now hlive => exact h
  | entered | finished | cutShort | closed | completed | aborted =>
      exact fun hintro => Phase.noConfusion hintro

/-- A tick past the deadline that finds the session live. -/
def outlived (cfg : OrchestratorConfig) (t : Taken SessionState Event Command) : Bool :=
  decide (live t.before) && overdueTick cfg t

/-- The ticks that are left never grow, and a tick past the deadline uses one up
    while the session is live. -/
theorem ticksLeft_of_step (hinv : StateInv cfg s) (hunheard : UnheardSinceStart s)
    (hstep : step cfg s e = .ok (s', out)) :
    s'.phase.ticksLeft + (if outlived cfg ⟨s, e, s', out⟩ then 1 else 0)
      ≤ s.phase.ticksLeft := by
  by_cases hlate : outlived cfg ⟨s, e, s', out⟩ = true
  · rw [if_pos hlate]
    rw [outlived, Bool.and_eq_true, decide_eq_true_eq] at hlate
    obtain ⟨hlive, hover⟩ := hlate
    have htaken := (step_eq_ok_iff cfg s s' e out).mp hstep
    cases e with
    | timerTick now =>
        rw [transition, if_neg hlive] at htaken
        have hcreated : s.phase ≠ .created := by
          -- A session that has not started has no plan to be past.
          intro hc
          obtain ⟨plan, _, hplan, _⟩ := exists_of_overdue hover
          rw [(hinv.created hc).1] at hplan
          cases hplan
        exact ticksLeft_of_overdueTick hlive hcreated hunheard hover htaken
    | _ => cases hover
  · rw [if_neg hlate]
    exact Phase.ticksLeft_le_of_phaseStep (phaseLaw_of_step hstep).phase

/-- A session that is live now was live all along. -/
theorem SessionRun.live_before {sessionId : Uuid} {planInput : Dict String Json}
    {ts : List (Taken SessionState Event Command)}
    (h : SessionRun cfg sessionId planInput ts s) (hlive : live s) :
    ∀ t ∈ ts, live t.before := by
  induction h with
  | nil => exact fun t ht => absurd ht List.not_mem_nil
  | snoc ts a b e out _ hab ih =>
      have ha : live a := by
        by_contra hdead
        have hsame := step_of_terminal cfg hdead e
        rw [hab, Except.ok.injEq, Prod.mk.injEq] at hsame
        exact hdead (hsame.1 ▸ hlive)
      intro t ht
      rcases List.mem_append.mp ht with hold | hnew
      · exact ih ha t hold
      · rw [List.mem_singleton.mp hnew]
        exact ha

/-- The ticks past the deadline that a session has outlived, with the ones it can
    still outlive, are no more than three. -/
theorem SessionRun.outlived_le {sessionId : Uuid} {planInput : Dict String Json}
    {ts : List (Taken SessionState Event Command)}
    (h : SessionRun cfg sessionId planInput ts s) :
    s.phase.ticksLeft + ts.countP (outlived cfg) ≤ 3 :=
  Run.countP_le (fun a => StateInv cfg a ∧ UnheardSinceStart a) (fun a => a.phase.ticksLeft)
    (outlived cfg)
    ⟨stateInv_initialState cfg sessionId planInput, fun hintro => Phase.noConfusion hintro⟩
    (fun _ _ _ _ ha hab => ⟨stateInv_of_edge ha.1 (edge_of_step hab),
      unheardSinceStart_of_edge ha.2 (edge_of_step hab)⟩)
    (fun _ _ _ _ ha hab => ticksLeft_of_step ha.1 ha.2 hab) h

end Steps

/-- However the agents and the candidate behave, and whatever arrives in
    between, three ticks past the deadline leave no session alive. -/
theorem overdue_ticks_end [Scalars] (cfg : OrchestratorConfig) (sessionId : Uuid)
    (planInput : Dict String Json) (ts : List (Taken SessionState Event Command))
    (s : SessionState) (h : SessionRun cfg sessionId planInput ts s)
    (hticks : 3 ≤ ts.countP (overdueTick cfg)) : s.phase ∈ terminalPhases := by
  by_contra hlive
  have hbefore := SessionRun.live_before h hlive
  have hsame : ts.countP (outlived cfg) = ts.countP (overdueTick cfg) := by
    refine List.countP_congr (fun t ht => ?_)
    rw [outlived, decide_eq_true (hbefore t ht), Bool.true_and]
  have hbound := SessionRun.outlived_le h
  have hpos := ticksLeft_pos_of_live hlive
  omega

section SmallInterview

/-- A small interview whose candidate turns up after ten minutes, with some ticks
    one second later. -/
def lateStart (n : Nat) : List Event :=
  .sessionStarted 0 :: .candidateTurnReceived ⟨100⟩ "ready" 600000000
    :: List.replicate n (.timerTick 601000000)

/-- The bound is met: two ticks past the deadline leave the small interview in
    CLOSE, and the third ends it. -/
theorem overdue_ticks_end_small : (∃ ts s, SmallRun ts s ∧ live s ∧
      ts.countP (overdueTick OrchestratorConfig.committed) = 2) ∧
    ∃ ts s, SmallRun ts s ∧ ts.countP (overdueTick OrchestratorConfig.committed) = 3 ∧
      s.phase ∈ terminalPhases := by
  have htwo : (smallRecord (lateStart 2)).map (fun r =>
      (r.2.phase, r.1.countP (overdueTick OrchestratorConfig.committed)))
      = .ok (.close, 2) := by decide +kernel
  have hthree : (smallRecord (lateStart 3)).map (fun r =>
      r.1.countP (overdueTick OrchestratorConfig.committed)) = .ok 3 := by decide +kernel
  obtain ⟨ts, s, hrun, hproj⟩ := exists_run_of_record _ _ _ _ _ htwo
  obtain ⟨ts', s', hrun', hproj'⟩ := exists_run_of_record _ _ _ _ _ hthree
  simp only [Prod.mk.injEq] at hproj
  refine ⟨⟨ts, s, hrun, ?_, hproj.2⟩, ts', s', hrun', hproj', ?_⟩
  · rw [live, hproj.1]
    decide
  · exact @overdue_ticks_end Scalars.strict _ _ _ ts' s' hrun' (Nat.le_of_eq hproj'.symm)

end SmallInterview

/-- The time budgets of the plan fit the clock types. -/
structure ClockFits (plan : PlanSnapshot) : Prop where
  session : plan.sessionMaxMinutes / 1440 ≤ 999999999
  qa : plan.qaMinutes / 1440 ≤ 999999999
  competency : ∀ c ∈ plan.competencies, c.minutes.natAbs < 2 ^ 1024 - 2 ^ 970

/-- A computation that raises nothing. -/
def Succeeds {α : Type} (x : Except OrchestratorError α) : Prop := ∃ a, x = .ok a

theorem Succeeds.ok {α : Type} (a : α) : Succeeds (Except.ok a) := ⟨a, rfl⟩

theorem Succeeds.bind {α β : Type} {x : Except OrchestratorError α}
    {f : α → Except OrchestratorError β} (hx : Succeeds x)
    (hf : ∀ a, x = .ok a → Succeeds (f a)) : Succeeds (x >>= f) := by
  obtain ⟨a, ha⟩ := hx
  obtain ⟨b, hb⟩ := hf a ha
  exact ⟨b, by rw [ha]; exact hb⟩

theorem timedeltaMinutes_of_le {n : Int} (h : n / 1440 ≤ 999999999) :
    timedeltaMinutes n = .ok (n * 60000000) := by
  rw [timedeltaMinutes, if_pos h]

section Totality
variable {cfg : OrchestratorConfig} {s : SessionState}

/-- All budgets that the session can look at fit the clock types. -/
structure PlanFits (cfg : OrchestratorConfig) (s : SessionState) : Prop where
  silence : cfg.timing.candidateTimeoutMinutes / 1440 ≤ 999999999
  plan : ∀ plan, s.plan = some plan → ClockFits plan

theorem requirePlan_succeeds (h : Planned s) : Succeeds (requirePlan s) :=
  requirePlan_of_planned h

theorem secondsRemaining_succeeds {c : PlannedCompetency}
    (h : c.minutes.natAbs < 2 ^ 1024 - 2 ^ 970) (startedAt : Option Instant) (now : Instant) :
    Succeeds (secondsRemaining c startedAt now) := by
  unfold secondsRemaining
  refine Succeeds.bind ⟨_, by rw [pyFloat, if_pos h]⟩ (fun minutes _ => ?_)
  cases startedAt with
  | none => exact Succeeds.ok _
  | some t => exact Succeeds.ok _

theorem candidateTimedOut_succeeds (hfits : PlanFits cfg s) (now : Instant) :
    Succeeds (candidateTimedOut s now cfg) := by
  unfold candidateTimedOut
  cases s.lastCandidateActivity with
  | none => exact Succeeds.ok _
  | some t =>
      have hlimit := timedeltaMinutes_of_le hfits.silence
      exact Succeeds.bind ⟨_, hlimit⟩ (fun _ _ => Succeeds.ok _)

theorem sessionBudgetExhausted_succeeds (hfits : PlanFits cfg s) (now : Instant) :
    Succeeds (sessionBudgetExhausted s now) := by
  unfold sessionBudgetExhausted
  cases s.sessionStartedAt with
  | none => exact Succeeds.ok _
  | some t =>
      cases hplan : s.plan with
      | none => exact Succeeds.ok _
      | some plan =>
          have hlimit := timedeltaMinutes_of_le (hfits.plan plan hplan).session
          exact Succeeds.bind ⟨_, hlimit⟩ (fun _ _ => Succeeds.ok _)

theorem qaBudgetExhausted_succeeds (hfits : PlanFits cfg s) (now : Instant) :
    Succeeds (qaBudgetExhausted s now) := by
  unfold qaBudgetExhausted
  cases s.qaStartedAt with
  | none => exact Succeeds.ok _
  | some t =>
      cases hplan : s.plan with
      | none => exact Succeeds.ok _
      | some plan =>
          have hlimit := timedeltaMinutes_of_le (hfits.plan plan hplan).qa
          exact Succeeds.bind ⟨_, hlimit⟩ (fun _ _ => Succeeds.ok _)

theorem enterQa_succeeds (h : Planned s) (now : Instant) : Succeeds (enterQa s now) :=
  (requirePlan_succeeds h).bind (fun _ _ => Succeeds.ok _)

theorem leaveCompetency_succeeds (h : Planned s) (plan : PlanSnapshot) (c : PlannedCompetency)
    (tech : TechState) (now : Instant) (move : InterviewerMove) (assessor : RunAssessor)
    (tail : List Command) : Succeeds (leaveCompetency s plan c tech now move assessor tail) := by
  unfold leaveCompetency
  simp only
  split
  · exact (enterQa_succeeds (s := { s with lastCandidateActivity := some now, tech := tech })
      h now).bind (fun _ _ => Succeeds.ok _)
  · exact (Succeeds.ok _).bind (fun _ _ => Succeeds.ok _)

/-- The budget of the competency that the technical phase is on fits a float. -/
theorem currentCompetency_fits {c : PlannedCompetency} (hfits : PlanFits cfg s)
    (h : currentCompetency s = .ok c) : c.minutes.natAbs < 2 ^ 1024 - 2 ^ 970 := by
  unfold currentCompetency at h
  cases hp : requirePlan s with
  | error x =>
      rw [hp] at h
      cases h
  | ok plan =>
      have hplan := requirePlan_ok hp
      have hc := currentCompetency_ok hplan (c := c) (by rw [currentCompetency]; exact h)
      refine (hfits.plan plan hplan).competency c ?_
      exact List.mem_of_getElem? ((plan.competency_eq_some_iff _ c).mp hc).2

theorem onTechCandidateTurn_succeeds (h : StateInv cfg s) (hphase : s.phase = .tech)
    (hfits : PlanFits cfg s) (turnId : Uuid) (now : Instant) :
    Succeeds (onTechCandidateTurn s turnId now cfg) := by
  obtain ⟨hplanned, _, hin⟩ := h.tech hphase
  unfold onTechCandidateTurn
  refine (requirePlan_succeeds hplanned).bind (fun plan _ => ?_)
  refine Succeeds.bind (currentCompetency_of_inPlan hin) (fun c hc => ?_)
  refine (secondsRemaining_succeeds (currentCompetency_fits hfits hc) _ _).bind
    (fun remaining _ => ?_)
  simp only
  -- What the verdict is decides where the turn leads, not whether.
  split
  · exact Succeeds.ok _
  · exact leaveCompetency_succeeds hplanned _ _ _ _ _ _ _
  · split
    · split
      · exact Succeeds.ok _
      · exact leaveCompetency_succeeds hplanned _ _ _ _ _ _ _
    · exact leaveCompetency_succeeds hplanned _ _ _ _ _ _ _

theorem onCandidateTurn_succeeds (h : StateInv cfg s) (hfits : PlanFits cfg s) (turnId : Uuid)
    (now : Instant) : Succeeds (onCandidateTurn s turnId now cfg) := by
  unfold onCandidateTurn
  cases hphase : s.phase with
  | intro => exact (requirePlan_succeeds (h.intro hphase).1).bind (fun _ _ => Succeeds.ok _)
  | tech =>
      simp only
      split
      · exact Succeeds.ok _
      · exact onTechCandidateTurn_succeeds h hphase hfits turnId now
  | qa =>
      refine (qaBudgetExhausted_succeeds hfits now).bind (fun exhausted _ => ?_)
      split
      · exact Succeeds.ok _
      · exact (requirePlan_succeeds (h.qa hphase).1).bind (fun _ _ => Succeeds.ok _)
  | created | close | completed | aborted => exact Succeeds.ok _

theorem onTimerTick_succeeds (h : StateInv cfg s) (hfits : PlanFits cfg s) (now : Instant) :
    Succeeds (onTimerTick s now cfg) := by
  unfold onTimerTick
  refine (candidateTimedOut_succeeds hfits now).bind (fun timedOut _ => ?_)
  split
  · exact Succeeds.ok _
  · cases hphase : s.phase with
    | tech =>
        refine (sessionBudgetExhausted_succeeds hfits now).bind (fun exhausted _ => ?_)
        split
        · exact (enterQa_succeeds (h.tech hphase).1 now).bind (fun _ _ => Succeeds.ok _)
        · exact Succeeds.ok _
    | qa =>
        refine (sessionBudgetExhausted_succeeds hfits now).bind (fun exhausted _ => ?_)
        split
        · exact Succeeds.ok _
        · refine (qaBudgetExhausted_succeeds hfits now).bind (fun qaExhausted _ => ?_)
          split
          · exact Succeeds.ok _
          · exact Succeeds.ok _
    | created | intro | close | completed | aborted => exact Succeeds.ok _

/-- A transition within the clock types raises nothing. -/
theorem transition_succeeds [Scalars] (h : StateInv cfg s) (hfits : PlanFits cfg s) (e : Event) :
    Succeeds (transition s e cfg) := by
  unfold transition
  split
  · exact Succeeds.ok _
  · cases e with
    | candidateTurnReceived turnId text now =>
        simp only
        split
        · exact Succeeds.ok _
        · exact onCandidateTurn_succeeds h hfits turnId now
    | timerTick now => exact onTimerTick_succeeds h hfits now
    | sessionStarted now => simp only; split <;> exact Succeeds.ok _
    | interviewerReplyReady turnId output now => simp only; split <;> exact Succeeds.ok _
    | interviewerFailed turnId errorKind now => simp only; split <;> exact Succeeds.ok _
    | assessmentCompleted forTurnId output now => exact Succeeds.ok _
    | assessmentFailed forTurnId errorKind now => exact Succeeds.ok _
    | operatorAbort reason now => exact Succeeds.ok _
    | reconnected now => exact Succeeds.ok _

theorem step_succeeds [Scalars] (h : StateInv cfg s) (hfits : PlanFits cfg s) (e : Event) :
    ∃ s' out, step cfg s e = .ok (s', out) := by
  obtain ⟨r, hr⟩ := transition_succeeds h hfits e
  exact ⟨r.newState, r.commands, (step_eq_ok_iff cfg s r.newState e r.commands).mpr hr⟩

end Totality

section Accepted
variable [Scalars] {cfg : OrchestratorConfig} {sessionId : Uuid} {planInput : Dict String Json}
  {ts : List (Taken SessionState Event Command)} {s : SessionState}

/-- The only plan a session can have is what its raw plan was validated into. -/
theorem SessionRun.planFits (h : SessionRun cfg sessionId planInput ts s)
    (hsilence : cfg.timing.candidateTimeoutMinutes / 1440 ≤ 999999999)
    (hplan : ∀ plan, PlanSnapshot.validatePlan (.obj planInput.entries) = .ok plan →
      ClockFits plan) : PlanFits cfg s :=
  ⟨hsilence, fun plan hs => hplan plan ((SessionRun.identity h).plan_eq plan hs)⟩

end Accepted

/-- While the time budgets fit the clock types, no session raises anything: from
    its pre-start state it accepts every list of events, in any order and with
    any timestamps. -/
theorem events_accepted [Scalars] (cfg : OrchestratorConfig) (sessionId : Uuid)
    (planInput : Dict String Json)
    (hsilence : cfg.timing.candidateTimeoutMinutes / 1440 ≤ 999999999)
    (hplan : ∀ plan, PlanSnapshot.validatePlan (.obj planInput.entries) = .ok plan →
      ClockFits plan) (es : List Event) :
    ∃ s out, feed (step cfg) (initialState sessionId planInput cfg) es = .ok (s, out) := by
  induction es using List.reverseRecOn with
  | nil => exact ⟨_, [], rfl⟩
  | append_singleton es e ih =>
      obtain ⟨s, out, hfeed⟩ := ih
      obtain ⟨ts, hrun, _, _⟩ := (feed_eq_ok_iff _ _ _ _ _).mp hfeed
      have hrun' : SessionRun cfg sessionId planInput ts s := hrun
      obtain ⟨s', out', hstep⟩ :=
        step_succeeds hrun'.stateInv (hrun'.planFits hsilence hplan) e
      refine ⟨s', out ++ (out' ++ []), ?_⟩
      rw [feed_append _ _ _ _ _ _ hfeed, feed_cons_ok _ _ _ _ _ _ hstep]
      rfl

section SmallInterview

theorem validatePlan_smallInput :
    @PlanSnapshot.validatePlan Scalars.strict (.obj smallInput.entries) = .ok smallPlan := by
  have hread := @PlanSnapshot.modelValidate_planPayload Scalars.strict smallPlan
  have hsame : @PlanSnapshot.planPayload Scalars.strict smallPlan = .obj smallInput.entries := rfl
  simp only [PlanSnapshot.validatePlan, ← hsame, hread]

/-- The budgets of the small plan fit the clock types. -/
theorem clockFits_smallPlan (plan : PlanSnapshot)
    (h : @PlanSnapshot.validatePlan Scalars.strict (.obj smallInput.entries) = .ok plan) :
    ClockFits plan := by
  rw [validatePlan_smallInput, Except.ok.injEq] at h
  rw [← h]
  exact ⟨by decide, by decide, by decide +kernel⟩

theorem events_accepted_small : ∃ s out,
    feed (@step Scalars.strict OrchestratorConfig.committed)
      (initialState smallId smallInput OrchestratorConfig.committed) smallEvents
      = .ok (s, out) :=
  @events_accepted Scalars.strict OrchestratorConfig.committed smallId smallInput (by decide)
    clockFits_smallPlan smallEvents

end SmallInterview

/-- A session that is past its limit, whose candidate was heard just now. -/
structure Attended (cfg : OrchestratorConfig) (s : SessionState) (now : Instant) : Prop where
  inv : StateInv cfg s
  fits : PlanFits cfg s
  past : PastLimit s now
  heard : s.lastCandidateActivity = some now

section Completion
variable {cfg : OrchestratorConfig} {s s' : SessionState} {now : Instant}

/-- What a step does to the plan and the clock is all that the limit reads. -/
theorem PastLimit.of_eq (h : PastLimit s now) (hplan : s'.plan = s.plan)
    (hstart : s'.sessionStartedAt = s.sessionStartedAt) : PastLimit s' now := by
  obtain ⟨plan, t, hp, ht, hpast⟩ := h
  exact ⟨plan, t, hplan.trans hp, hstart.trans ht, hpast⟩

theorem PlanFits.of_eq (h : PlanFits cfg s) (hplan : s'.plan = s.plan) : PlanFits cfg s' :=
  ⟨h.silence, fun plan hp => h.plan plan (hplan.symm.trans hp)⟩

/-- A candidate who was heard just now has not been silent. -/
theorem Attended.present (h : Attended cfg s now) : candidateTimedOut s now cfg = .ok false := by
  have hpositive := cfg.timing.candidateTimeoutMinutes_ge
  have hnone : ¬ now - now > cfg.timing.candidateTimeoutMinutes * 60000000 := by
    rw [sub_self]
    change ¬ (0 : Int) > cfg.timing.candidateTimeoutMinutes * 60000000
    omega
  rw [candidateTimedOut, h.heard]
  simp only [timedeltaMinutes_of_le h.fits.silence, bind, Except.bind, hnone, decide_false]

theorem Attended.exhausted (h : Attended cfg s now) : sessionBudgetExhausted s now = .ok true := by
  obtain ⟨late, hlate⟩ := sessionBudgetExhausted_succeeds h.fits now
  rcases sessionBudgetExhausted_of_pastLimit h.past with hb | hb
  · exact hb
  · rw [hlate] at hb
    cases hb

variable [Scalars]

/-- A tick takes an attended session on to the next phase. -/
theorem Attended.tick (h : Attended cfg s now)
    (hphase : s.phase = .tech ∨ s.phase = .qa ∨ s.phase = .close) :
    ∃ s' out, step cfg s (.timerTick now) = .ok (s', out) ∧ Attended cfg s' now ∧
      s.phase.next = some s'.phase := by
  have hlive : live s := by
    rw [live]
    rcases hphase with hp | hp | hp <;> rw [hp] <;> decide
  -- What the tick does is what is left of the handler for a present candidate.
  have htick : ∀ r, onTimerTick s now cfg = .ok r →
      step cfg s (.timerTick now) = .ok (r.newState, r.commands) := by
    intro r hr
    refine (step_eq_ok_iff cfg s _ _ _).mpr ?_
    rw [transition, if_neg hlive]
    exact hr
  have hkept : ∀ s' out, step cfg s (.timerTick now) = .ok (s', out) → s'.plan = s.plan →
      s'.sessionStartedAt = s.sessionStartedAt →
      s'.lastCandidateActivity = s.lastCandidateActivity → Attended cfg s' now := by
    intro s' out hstep hplan hstart hheard
    exact ⟨stateInv_of_edge h.inv (edge_of_step hstep), h.fits.of_eq hplan,
      h.past.of_eq hplan hstart, hheard.trans h.heard⟩
  rcases hphase with hp | hp | hp
  · obtain ⟨plan, _, hplan, _⟩ := h.past
    have hstep := htick ⟨(issueInterviewer (inQa s now) .acknowledgeAndTransition none
        (qaContext plan)).1, [.runInterviewer (issueInterviewer (inQa s now)
          .acknowledgeAndTransition none (qaContext plan)).2]⟩
      (by simp only [onTimerTick, h.present, bind, Except.bind, hp, h.exhausted,
        enterQa_of_plan hplan, Bool.false_eq_true, if_false, if_true])
    exact ⟨_, _, hstep, hkept _ _ hstep rfl rfl rfl, by rw [hp]; rfl⟩
  · have hstep := htick (enterClose s)
      (by simp only [onTimerTick, h.present, bind, Except.bind, hp, h.exhausted,
        Bool.false_eq_true, if_false, if_true])
    exact ⟨_, _, hstep, hkept _ _ hstep rfl rfl rfl, by rw [hp]; rfl⟩
  · have hstep := htick (complete s)
      (by simp only [onTimerTick, h.present, bind, Except.bind, hp, Bool.false_eq_true, if_false])
    exact ⟨_, _, hstep, hkept _ _ hstep rfl rfl rfl, by rw [hp]; rfl⟩

/-- A terminal session stays as it is, whatever it is fed. -/
theorem feed_of_terminal (h : ¬ live s) (es : List Event) : feed (step cfg) s es = .ok (s, []) := by
  induction es with
  | nil => rfl
  | cons e es ih =>
      rw [feed_cons_ok _ _ _ _ _ _ (step_of_terminal cfg h e), ih]
      rfl

/-- As many ticks as the phase can outlive complete an attended session. -/
theorem Attended.ticks (h : Attended cfg s now) (n : Nat) (hn : s.phase.ticksLeft ≤ n)
    (hphase : s.phase = .tech ∨ s.phase = .qa ∨ s.phase = .close ∨ s.phase = .completed) :
    ∃ s' out, feed (step cfg) s (List.replicate n (.timerTick now)) = .ok (s', out) ∧
      s'.phase = .completed := by
  induction n generalizing s with
  | zero =>
      refine ⟨s, [], rfl, ?_⟩
      rcases hphase with hp | hp | hp | hp
      · rw [hp] at hn
        exact absurd hn (by decide)
      · rw [hp] at hn
        exact absurd hn (by decide)
      · rw [hp] at hn
        exact absurd hn (by decide)
      · exact hp
  | succ n ih =>
      by_cases hdone : s.phase = .completed
      · exact ⟨s, [], feed_of_terminal (by rw [live, hdone]; decide) _, hdone⟩
      -- One tick ends the phase, and a session that is over ignores the rest.
      obtain ⟨s₁, out₁, hstep, hattended, hnext⟩ := h.tick (by tauto)
      have hleft : s₁.phase.ticksLeft ≤ n ∧
          (s₁.phase = .tech ∨ s₁.phase = .qa ∨ s₁.phase = .close ∨ s₁.phase = .completed) := by
        rcases hphase with hp | hp | hp | hp
        · rw [hp] at hnext hn
          rw [← Option.some.inj hnext]
          exact ⟨Nat.le_of_succ_le_succ hn, Or.inr (Or.inl rfl)⟩
        · rw [hp] at hnext hn
          rw [← Option.some.inj hnext]
          exact ⟨Nat.le_of_succ_le_succ hn, Or.inr (Or.inr (Or.inl rfl))⟩
        · rw [hp] at hnext hn
          rw [← Option.some.inj hnext]
          exact ⟨Nat.le_of_succ_le_succ hn, Or.inr (Or.inr (Or.inr rfl))⟩
        · exact absurd hp hdone
      obtain ⟨s', out, hfeed, hcompleted⟩ := ih hattended hleft.1 hleft.2
      refine ⟨s', out₁ ++ out, ?_, hcompleted⟩
      rw [List.replicate_succ, feed_cons_ok _ _ _ _ _ _ hstep, hfeed]
      rfl

/-- A turn that the session takes in is the last that was heard of the
    candidate, and does not go further than CLOSE. -/
theorem attended_of_turn (hinv : StateInv cfg s) (hfits : PlanFits cfg s) (hpast : PastLimit s now)
    (hphase : s.phase = .intro ∨ (s.phase = .tech ∧ s.awaiting = some .candidate) ∨ s.phase = .qa)
    (turnId : Uuid) (text : String) :
    ∃ s' out, step cfg s (.candidateTurnReceived turnId text now) = .ok (s', out) ∧
      Attended cfg s' now ∧ (s'.phase = .tech ∨ s'.phase = .qa ∨ s'.phase = .close) := by
  have hlive : live s := by
    rw [live]
    rcases hphase with hp | ⟨hp, _⟩ | hp <;> rw [hp] <;> decide
  have hcreated : s.phase ≠ .created := by
    rcases hphase with hp | ⟨hp, _⟩ | hp <;> rw [hp] <;> decide
  have hkept : ∀ s' out, step cfg s (.candidateTurnReceived turnId text now) = .ok (s', out) →
      s'.plan = s.plan → s'.sessionStartedAt = s.sessionStartedAt →
      s'.lastCandidateActivity = some now → Attended cfg s' now := by
    intro s' out hstep hplan hstart hheard
    exact ⟨stateInv_of_edge hinv (edge_of_step hstep), hfits.of_eq hplan,
      hpast.of_eq hplan hstart, hheard⟩
  -- In a live session the turn goes to its handler.
  have htake : ∀ r, onCandidateTurn s turnId now cfg = .ok r →
      step cfg s (.candidateTurnReceived turnId text now) = .ok (r.newState, r.commands) := by
    intro r hr
    refine (step_eq_ok_iff cfg s _ _ _).mpr ?_
    rw [transition, if_neg hlive]
    simp only [if_neg hcreated]
    exact hr
  obtain ⟨plan, _, hplan, _⟩ := hpast
  have hrequire : requirePlan s = .ok plan := by rw [requirePlan, hplan]
  rcases hphase with hp | ⟨hp, hawaiting⟩ | hp
  · -- INTRO: the first question is asked.
    have hstep := htake ⟨(issueInterviewer (entered s now) .askSeed
        (some plan.firstCompetency.nodeId) (firstSeedContext plan.firstCompetency)).1,
        [.runInterviewer (interviewerCommand s .askSeed (some plan.firstCompetency.nodeId)
          (firstSeedContext plan.firstCompetency)), .persistState]⟩
      (by
        simp only [onCandidateTurn, hp, onIntroCandidateTurn, hrequire, bind, Except.bind]
        rfl)
    exact ⟨_, _, hstep, hkept _ _ hstep rfl rfl rfl, Or.inl rfl⟩
  · -- Whatever the verdict is, the turn is taken in.
    obtain ⟨s', out, hstep⟩ := step_succeeds hinv hfits (.candidateTurnReceived turnId text now)
    have hedge := edge_of_step hstep
    refine ⟨s', out, hstep, ?_⟩
    cases hedge with
    | ignored e hidle =>
        rw [awaitsAnswer, hp, hawaiting] at hidle
        cases hidle
    | probed _ _ _ a => exact ⟨hkept _ _ hstep rfl rfl rfl, Or.inl hp⟩
    | seeded _ _ _ a seed => exact ⟨hkept _ _ hstep rfl rfl rfl, Or.inl hp⟩
    | advanced _ _ _ a following => exact ⟨hkept _ _ hstep rfl rfl rfl, Or.inl hp⟩
    | finished _ _ _ a => exact ⟨hkept _ _ hstep rfl rfl rfl, Or.inr (Or.inl rfl)⟩
    | entered _ _ _ plan hintro => exact absurd (hp.symm.trans hintro) (by decide)
    | asked _ _ _ plan hqa => exact absurd (hp.symm.trans hqa) (by decide)
    | closed _ activity hqa => exact absurd (hp.symm.trans hqa) (by decide)
    | completed _ hclose => exact absurd (hp.symm.trans hclose) (by decide)
    | aborted _ reason decision persist _ hturn => cases hturn
  · -- Q&A: the answer is asked for, or the budget is spent and CLOSE follows.
    obtain ⟨exhausted, hbudget⟩ := qaBudgetExhausted_succeeds hfits now
    cases exhausted with
    | true =>
        have hstep := htake (enterClose { s with lastCandidateActivity := some now })
          (by simp only [onCandidateTurn, hp, onQaCandidateTurn, hbudget, bind, Except.bind,
            if_true])
        exact ⟨_, _, hstep, hkept _ _ hstep rfl rfl rfl, Or.inr (Or.inr rfl)⟩
    | false =>
        have hstep := htake ⟨(issueInterviewer { s with lastCandidateActivity := some now }
            .acknowledgeAndTransition none (qaContext plan)).1,
            [.runInterviewer (interviewerCommand s .acknowledgeAndTransition none
              (qaContext plan))]⟩
          (by
            simp only [onCandidateTurn, hp, onQaCandidateTurn, hbudget, hrequire, bind,
              Except.bind, Bool.false_eq_true, if_false]
            rfl)
        exact ⟨_, _, hstep, hkept _ _ hstep rfl rfl rfl, Or.inr (Or.inl hp)⟩

omit [Scalars] in
/-- A started session that is live has a command outstanding. -/
theorem exists_pending (hinv : StateInv cfg s) (hlive : live s) (hcreated : s.phase ≠ .created) :
    ∃ pending, s.pendingCommand = some pending := by
  have hconversing : Conversing s → ∃ pending, s.pendingCommand = some pending := by
    rintro (⟨_, c, hc, _⟩ | ⟨_, ⟨c, hc⟩, _⟩)
    · exact ⟨_, hc⟩
    · exact ⟨_, hc⟩
  cases hphase : s.phase with
  | created => exact absurd hphase hcreated
  | intro =>
      obtain ⟨c, hc⟩ := (hinv.intro hphase).2.2
      exact ⟨_, hc⟩
  | tech => exact hconversing (hinv.tech hphase).2.1
  | qa => exact hconversing (hinv.qa hphase).2
  | close =>
      obtain ⟨c, hc⟩ := (hinv.close hphase).2.2
      exact ⟨_, hc⟩
  | completed => exact absurd (by rw [hphase]; decide) hlive
  | aborted => exact absurd (by rw [hphase]; decide) hlive

/-- The answer to the outstanding command completes a session in CLOSE, and
    leaves any other one awaiting its candidate. -/
theorem answered_of_reply (hinv : StateInv cfg s) (hlive : live s) (hcreated : s.phase ≠ .created)
    {pending : PendingCommand} (hpending : s.pendingCommand = some pending)
    (output : InterviewerOutput) (now : Instant) :
    ∃ s' out, step cfg s (.interviewerReplyReady pending.turnId output now) = .ok (s', out) ∧
      s'.plan = s.plan ∧ s'.sessionStartedAt = s.sessionStartedAt ∧
      (s'.phase = .completed ∨ s'.phase = .intro ∨
        (s'.phase = .tech ∧ s'.awaiting = some .candidate) ∨ s'.phase = .qa) := by
  have hstep : step cfg s (.interviewerReplyReady pending.turnId output now)
      = .ok ((onInterviewerReply s pending.turnId output cfg).newState,
        (onInterviewerReply s pending.turnId output cfg).commands) := by
    refine (step_eq_ok_iff cfg s _ _ _).mpr ?_
    rw [transition, if_neg hlive]
    simp only [if_neg hcreated]
  -- The reply names the outstanding command.
  have hanswers : answersPendingCommand s pending.turnId = true := by
    rw [answersPendingCommand, hpending]
    exact decide_eq_true rfl
  refine ⟨_, _, hstep, ?_⟩
  unfold onInterviewerReply
  rw [hanswers, if_neg (by decide)]
  by_cases hclose : s.phase = .close
  · rw [if_pos hclose]
    exact ⟨rfl, rfl, Or.inl rfl⟩
  rw [if_neg hclose]
  by_cases hidle : (s.phase ≠ .tech ∧ s.phase ≠ .qa) ∨ s.awaiting ≠ some .interviewer
  · -- The reply is ignored, and the session awaits its candidate already.
    rw [if_pos hidle]
    refine ⟨rfl, rfl, Or.inr ?_⟩
    change s.phase = .intro ∨ (s.phase = .tech ∧ s.awaiting = some .candidate) ∨ s.phase = .qa
    cases hphase : s.phase with
    | intro => exact Or.inl rfl
    | qa => exact Or.inr (Or.inr rfl)
    | tech =>
        refine Or.inr (Or.inl ⟨rfl, ?_⟩)
        rcases hidle with ⟨hnot, _⟩ | hnot
        · exact absurd hphase hnot
        · rcases (hinv.tech hphase).2.1 with hflight | hdelivered
          · exact absurd hflight.1 hnot
          · exact hdelivered.1
    | created => exact absurd hphase hcreated
    | close => exact absurd hphase hclose
    | completed => exact absurd (by rw [hphase]; decide) hlive
    | aborted => exact absurd (by rw [hphase]; decide) hlive
  · rw [if_neg hidle]
    rw [not_or, not_and_or, not_not, not_not, not_not] at hidle
    -- The reply is delivered, and the candidate is awaited.
    rcases hidle.1 with htech | hqa
    · exact ⟨rfl, rfl, Or.inr (Or.inr (Or.inl ⟨htech, rfl⟩))⟩
    · exact ⟨rfl, rfl, Or.inr (Or.inr (Or.inr hqa))⟩

end Completion

/-- The script that completes a session: the answer to its outstanding command, a
    turn of the candidate and three ticks, all at the same instant. -/
def wrapUp (pending : PendingCommand) (output : InterviewerOutput) (turnId : Uuid) (text : String)
    (now : Instant) : List Event :=
  .interviewerReplyReady pending.turnId output now :: .candidateTurnReceived turnId text now
    :: List.replicate 3 (.timerTick now)

/-- While the time budgets fit the clock types, no session is beyond completing: in
    every live state that a started session reaches, a command is outstanding, and at
    every instant past the limit of the session the script that answers it ends in
    COMPLETED, whatever the answer and the turn of the candidate say. -/
theorem wrapUp_completes [Scalars] (cfg : OrchestratorConfig) (sessionId : Uuid)
    (planInput : Dict String Json)
    (hsilence : cfg.timing.candidateTimeoutMinutes / 1440 ≤ 999999999)
    (hplan : ∀ plan, PlanSnapshot.validatePlan (.obj planInput.entries) = .ok plan →
      ClockFits plan)
    (ts : List (Taken SessionState Event Command)) (s : SessionState)
    (h : SessionRun cfg sessionId planInput ts s) (hlive : live s) (hstarted : s.phase ≠ .created) :
    ∃ pending, s.pendingCommand = some pending ∧
      ∀ output turnId text now, PastLimit s now →
        ∃ s' out, feed (step cfg) s (wrapUp pending output turnId text now) = .ok (s', out) ∧
          s'.phase = .completed := by
  have hinv := h.stateInv
  have hfits := SessionRun.planFits h hsilence hplan
  obtain ⟨pending, hpending⟩ := exists_pending hinv hlive hstarted
  refine ⟨pending, hpending, fun output turnId text now hpast => ?_⟩
  -- The answer to what is outstanding, then a turn, then three ticks.
  obtain ⟨s₁, out₁, hreply, hplan₁, hstart₁, hnext⟩ :=
    answered_of_reply hinv hlive hstarted hpending output now
  have hinv₁ := stateInv_of_edge hinv (edge_of_step hreply)
  rcases hnext with hdone | hphase
  · -- CLOSE is over with the first event.
    refine ⟨s₁, out₁ ++ [], ?_, hdone⟩
    rw [wrapUp, feed_cons_ok _ _ _ _ _ _ hreply,
      feed_of_terminal (by rw [live, hdone]; decide)]
    rfl
  obtain ⟨s₂, out₂, hturn, hattended, hphase₂⟩ := attended_of_turn hinv₁ (hfits.of_eq hplan₁)
    (hpast.of_eq hplan₁ hstart₁) hphase turnId text
  have hleft : s₂.phase.ticksLeft ≤ 3 := by
    rcases hphase₂ with hp | hp | hp <;> rw [hp] <;> decide
  obtain ⟨s', out, hticks, hdone⟩ := hattended.ticks 3 hleft (by tauto)
  refine ⟨s', out₁ ++ (out₂ ++ out), ?_, hdone⟩
  rw [wrapUp, feed_cons_ok _ _ _ _ _ _ hreply, feed_cons_ok _ _ _ _ _ _ hturn, hticks]
  rfl

section SmallInterview

/-- The small interview, with its first seed asked, is completed by the script at
    the end of its eight minutes. -/
theorem wrapUp_completes_small : ∃ ts s, SmallRun ts s ∧ s.phase = .tech ∧
    ∃ pending s' out, s.pendingCommand = some pending ∧
      feed (@step Scalars.strict OrchestratorConfig.committed) s
        (wrapUp pending ⟨"Joins?", .askSeed⟩ ⟨101⟩ "late" 480000000) = .ok (s', out) ∧
      s'.phase = .completed := by
  have hrec : (smallRecord firstSeedAsked).map (fun r => (r.2.phase,
      r.2.plan.map PlanSnapshot.sessionMaxMinutes, r.2.sessionStartedAt))
      = .ok (.tech, some 8, some 0) := by decide +kernel
  obtain ⟨ts, s, hrun, hproj⟩ := exists_run_of_record _ _ _ _ _ hrec
  simp only [Prod.mk.injEq] at hproj
  obtain ⟨hphase, hplan, hstart⟩ := hproj
  obtain ⟨pending, hpending, hscript⟩ := @wrapUp_completes Scalars.strict
    OrchestratorConfig.committed smallId smallInput (by decide) clockFits_smallPlan ts s hrun
    (by rw [live, hphase]; decide) (by rw [hphase]; decide)
  obtain ⟨s', out, hfeed, hdone⟩ := hscript ⟨"Joins?", .askSeed⟩ ⟨101⟩ "late" 480000000
    (pastLimit_of_eight hplan hstart (le_refl _))
  exact ⟨ts, s, hrun, hphase, pending, s', out, hpending, hfeed, hdone⟩

end SmallInterview

end TechScreen
