import TechScreen.Orchestrator.AssessmentDocket
import TechScreen.Orchestrator.Budget
import TechScreen.Orchestrator.FailureLadder

/-!
# Redelivered Turns

A candidate turn carries an identifier, and a delivery may be repeated with the
same one. The machine does not look at the identifiers it has seen: what keeps a
repeated turn out is that the technical phase does not wait for it while a move
is in flight. So a turn that comes again is harmless exactly if it comes when no
answer is awaited.

The statements are about any list of transitions, in order, and not only about
the runs of one session state: the copies of a state that several tasks work on
take transitions side by side.

## Main definitions

* `repeats`: A step brings the turn of a step before it again.
* `spends`: A step uses up a probe, a seed or a competency.
* `AssessedOnce`: What a repeated turn must not do.
* `NoneAwaited`: No repeated turn is awaited.

## Theorems

* `spends_iff`: A candidate turn spends something if it is awaited.
* `scheduled_of_edge`: It is assessed if it is awaited.
* `assessedOnce_iff`: The two conditions are the same.
-/

namespace TechScreen

open Lib

/-- The step brings the candidate turn of a step before it again. -/
def repeats (done : List (Taken SessionState Event Command))
    (t : Taken SessionState Event Command) : Prop :=
  ∃ turn ∈ candidateTurns done, t.event.turnId? = some turn

/-- The step uses up a probe, a seed or a competency of the plan. -/
def spends (t : Taken SessionState Event Command) : Prop :=
  t.before.phase = .tech ∧ ¬ (t.after.phase = .tech ∧
    t.after.tech.competencyIndex = t.before.tech.competencyIndex ∧
    t.after.tech.seedIndex = t.before.tech.seedIndex ∧
    t.after.tech.probesUsed = t.before.tech.probesUsed)

/-- No turn is scheduled for assessment twice, and a turn that comes again uses
    up nothing. -/
structure AssessedOnce (ts : List (Taken SessionState Event Command)) : Prop where
  once : (Docket.keys (scheduled (outputs ts))).Nodup
  unspent : ∀ us t vs, ts = us ++ t :: vs → repeats us t → ¬ spends t

/-- No turn that comes again is an answer that TECH awaits. -/
def NoneAwaited (ts : List (Taken SessionState Event Command)) : Prop :=
  ∀ us t vs, ts = us ++ t :: vs → repeats us t → awaitsAnswer t.before t.event = false

section Steps
variable [Scalars] {cfg : OrchestratorConfig} {s s' : SessionState} {e : Event}
  {out : List Command}

/-- A candidate turn uses something up exactly if TECH awaits it. -/
theorem spends_iff (hedge : Edge cfg s e s' out) (hturn : e.isCandidateTurn = true) :
    spends ⟨s, e, s', out⟩ ↔ awaitsAnswer s e = true := by
  constructor
  · rintro ⟨hphase, hmoved⟩
    by_contra hidle
    rw [Bool.not_eq_true] at hidle
    -- What is not awaited is ignored, and leaves the state as it is.
    have hsame := eq_of_silent hedge (idle_of_edge hedge hphase hturn hidle)
    exact hmoved ⟨hsame ▸ hphase, by rw [hsame], by rw [hsame], by rw [hsame]⟩
  · intro hawaits
    have hphase : s.phase = .tech := ((awaitsAnswer_iff _ _).mp hawaits).1.1
    have helse : ∀ {p : Phase}, s.phase = p → p ≠ .tech → False :=
      fun hp hne => hne (hp.symm.trans hphase)
    refine ⟨hphase, ?_⟩
    rintro ⟨hafter, hindex, hseed, hprobes⟩
    cases hedge with
    | ignored e hidle =>
        rw [hidle] at hawaits
        cases hawaits
    | probed turnId text now a hp hawaiting hclarify hleft =>
        simp only [probeCompetency, issueInterviewer, Answer.scheduled, scheduleAssessment]
          at hprobes
        omega
    | seeded turnId text now a seed hp hawaiting hanswered hnext =>
        simp only [advanceSeed, issueInterviewer, Answer.scheduled, scheduleAssessment] at hseed
        omega
    | advanced turnId text now a following hp hawaiting hleaves hnext =>
        simp only [issueInterviewer, advanced, a.leaving_competencyIndex] at hindex
        omega
    | finished turnId text now a hp hawaiting hleaves hlast => cases hafter
    | entered turnId text now plan hp hplan => exact helse hp (by decide)
    | asked turnId text now plan hp hplan => exact helse hp (by decide)
    | closed e activity hp => exact helse hp (by decide)
    | completed e hp => exact helse hp (by decide)
    | aborted e reason decision persist hlive hquiet =>
        rw [hquiet] at hturn
        cases hturn
    | opened | cutShort | delivered | retried | assessed | assessmentFailed | reconnected =>
        cases hturn

/-- An assessment is scheduled by an answer that is awaited, and for its turn. -/
theorem scheduled_of_edge (hedge : Edge cfg s e s' out) {turn : Uuid}
    (hmem : turn ∈ Docket.keys (scheduled out)) :
    awaitsAnswer s e = true ∧ e.turnId? = some turn ∧ Docket.keys (scheduled out) = [turn] := by
  -- The four edges of an awaited answer schedule its turn.
  have hanswer : ∀ (turnId : Uuid) (text : String) (now : Instant), s.phase = .tech →
      s.awaiting = some .candidate → e = .candidateTurnReceived turnId text now →
      Docket.keys (scheduled out) = [turnId] → awaitsAnswer s e = true ∧ e.turnId? = some turn ∧
        Docket.keys (scheduled out) = [turn] := by
    intro turnId text now hphase hawaiting he hkeys
    rw [hkeys, List.mem_singleton] at hmem
    subst hmem he
    exact ⟨awaitsAnswer_of_tech hphase hawaiting, rfl, hkeys⟩
  -- The other edges schedule nothing.
  have hnever : Docket.keys (scheduled out) = [] → awaitsAnswer s e = true ∧
      e.turnId? = some turn ∧ Docket.keys (scheduled out) = [turn] := by
    intro hkeys
    rw [hkeys] at hmem
    exact absurd hmem List.not_mem_nil
  cases hedge with
  | probed turnId text now a hphase hawaiting hclarify hprobes =>
      exact hanswer turnId text now hphase hawaiting rfl rfl
  | seeded turnId text now a seed hphase hawaiting hanswered hseed =>
      exact hanswer turnId text now hphase hawaiting rfl rfl
  | advanced turnId text now a following hphase hawaiting hleaves hnext =>
      refine hanswer turnId text now hphase hawaiting rfl ?_
      rw [scheduled_leaving]
      rfl
  | finished turnId text now a hphase hawaiting hleaves hlast =>
      refine hanswer turnId text now hphase hawaiting rfl ?_
      rw [scheduled_leaving]
      rfl
  | aborted e reason decision persist hlive hturn => cases persist <;> exact hnever rfl
  | reconnected now hlive =>
      refine hnever ?_
      unfold onReconnected
      cases s.pendingCommand <;> rfl
  | ignored | opened | entered | cutShort | asked | closed | completed | delivered | retried
  | assessed | assessmentFailed => exact hnever rfl

end Steps

section Lists
variable {ts : List (Taken SessionState Event Command)} {t : Taken SessionState Event Command}

theorem mem_candidateTurns {turn : Uuid} :
    turn ∈ candidateTurns ts ↔ ∃ t ∈ ts, t.event.turnId? = some turn := by
  rw [candidateTurns, List.mem_filterMap]

theorem isCandidateTurn_of_turnId? {e : Event} {turn : Uuid} (h : e.turnId? = some turn) :
    e.isCandidateTurn = true := by
  cases e with
  | candidateTurnReceived turnId text now => rfl
  | sessionStarted | interviewerReplyReady | interviewerFailed | assessmentCompleted
  | assessmentFailed | timerTick | reconnected | operatorAbort => cases h

/-- What holds of every step in its place holds of the steps before the last one. -/
theorem NoneAwaited.init (h : NoneAwaited (ts ++ [t])) : NoneAwaited ts := by
  intro us u vs hts
  exact h us u (vs ++ [t]) (by rw [hts, List.append_assoc, List.cons_append])

variable [Scalars] {cfg : OrchestratorConfig}

/-- What was scheduled was the turn of a candidate. -/
theorem mem_candidateTurns_of_scheduled
    (hsteps : ∀ t ∈ ts, step cfg t.before t.event = .ok (t.after, t.out)) {turn : Uuid}
    (h : turn ∈ Docket.keys (scheduled (outputs ts))) : turn ∈ candidateTurns ts := by
  rw [Docket.keys, scheduled, outputs, List.filterMap_flatMap, List.map_flatMap,
    List.mem_flatMap] at h
  obtain ⟨t, ht, hmem⟩ := h
  exact mem_candidateTurns.mpr ⟨t, ht, (scheduled_of_edge (edge_of_step (hsteps t ht)) hmem).2.1⟩

/-- If no repeated turn is awaited, every turn is scheduled at most once. -/
theorem NoneAwaited.once (h : NoneAwaited ts)
    (hsteps : ∀ t ∈ ts, step cfg t.before t.event = .ok (t.after, t.out)) :
    (Docket.keys (scheduled (outputs ts))).Nodup := by
  induction ts using List.reverseRecOn with
  | nil => exact List.nodup_nil
  | append_singleton ts t ih =>
      have hbefore : ∀ u ∈ ts, step cfg u.before u.event = .ok (u.after, u.out) :=
        fun u hu => hsteps u (List.mem_append_left _ hu)
      have hedge := edge_of_step (hsteps t (List.mem_append_right _ List.mem_cons_self))
      rw [outputs_snoc, scheduled_append, Docket.keys, List.map_append, List.nodup_append]
      refine ⟨ih h.init hbefore, ?_, fun turn hold turn' hnew => ?_⟩
      · by_cases hnone : Docket.keys (scheduled t.out) = []
        · rw [Docket.keys] at hnone
          rw [hnone]
          exact List.nodup_nil
        · obtain ⟨turn, hturn⟩ := List.exists_mem_of_ne_nil _ hnone
          have hone := (scheduled_of_edge hedge hturn).2.2
          rw [Docket.keys] at hone
          rw [hone]
          exact List.nodup_singleton turn
      · -- A turn that was scheduled before comes again, and is not awaited.
        rintro rfl
        obtain ⟨hawaits, hturn, _⟩ := scheduled_of_edge hedge hnew
        have hidle := h ts t [] rfl
          ⟨turn, mem_candidateTurns_of_scheduled hbefore hold, hturn⟩
        rw [hidle] at hawaits
        cases hawaits

/-- Repeated turns do no harm exactly if none of them is awaited. -/
theorem assessedOnce_iff
    (hsteps : ∀ t ∈ ts, step cfg t.before t.event = .ok (t.after, t.out)) :
    AssessedOnce ts ↔ NoneAwaited ts := by
  have hspends : ∀ us t vs, ts = us ++ t :: vs → repeats us t →
      (spends t ↔ awaitsAnswer t.before t.event = true) := by
    rintro us t vs hts ⟨turn, _, hturn⟩
    have ht : t ∈ ts := by
      rw [hts]
      exact List.mem_append_right _ List.mem_cons_self
    exact spends_iff (edge_of_step (hsteps t ht)) (isCandidateTurn_of_turnId? hturn)
  constructor
  · intro h us t vs hts hagain
    have hidle := h.unspent us t vs hts hagain
    rw [hspends us t vs hts hagain] at hidle
    exact Bool.not_eq_true _ ▸ hidle
  · intro h
    refine ⟨h.once hsteps, fun us t vs hts hagain hspent => ?_⟩
    rw [hspends us t vs hts hagain, h us t vs hts hagain] at hspent
    cases hspent

end Lists

end TechScreen
