import TechScreen.Lib.Docket
import TechScreen.Orchestrator.LateAssessments

/-!
# The Docket of Assessments

Which assessments are still out, over a whole interview. An assessment is
scheduled by an answer in TECH, and its result may come while any later answer
is heard, in another competency, in Q&A, after a tick or after a resume. The
machine keeps the turns that are out and the node each was scheduled for in two
fields, and three handlers write to them.

`BookStep` says what a transition does to the two fields: nothing, one turn in,
or one turn out. A run is thereby a run of `Lib.Docket`, with the commands that
were emitted as its entries and the results that were not ignored as its
settlements, as long as no two answers carry the same identifier.

## Main definitions

* `Event.turnId?`: The candidate turn that an event brings.
* `scheduled`, `settledTurns`: What a run has scheduled and settled.
* `BookStep`: What a transition does to the books.
* `docketOf`: The docket of a run.
* `BooksKept`: What the books promise.

## Theorems

* `bookStep_of_step`: Every transition is one of three entries.
* `SessionRun.docket`: The docket of a run is balanced.
* `assessment_bookkeeping`: The books are right in every state reached.
-/

namespace TechScreen

open Lib

/-- The candidate turn that an event brings. -/
def Event.turnId? : Event → Option Uuid
  | .candidateTurnReceived turnId _ _ => some turnId
  | _ => none

/-- The assessment that a command schedules: its turn, and the node it is for. -/
def Command.assessment? : Command → Option (Uuid × String)
  | .runAssessor c => some (c.turnId, c.competencyFocus)
  | _ => none

/-- The assessments among some commands, in order. -/
def scheduled (out : List Command) : List (Uuid × String) := out.filterMap Command.assessment?

/-- The candidate turns of a run, in order. -/
def candidateTurns (ts : List (Taken SessionState Event Command)) : List Uuid :=
  ts.filterMap (fun t => t.event.turnId?)

/-- The turn whose assessment a step has settled: the result was not ignored. -/
def settledBy (e : Event) (out : List Command) : Option Uuid :=
  if out.isEmpty then none else e.resolves

/-- The turns whose assessments a run has settled, in order. -/
def settledTurns (ts : List (Taken SessionState Event Command)) : List Uuid :=
  ts.filterMap (fun t => settledBy t.event t.out)

theorem scheduled_append (a b : List Command) : scheduled (a ++ b) = scheduled a ++ scheduled b :=
  List.filterMap_append

theorem mem_scheduled {out : List Command} {turn : Uuid} {node : String} :
    (turn, node) ∈ scheduled out ↔ .runAssessor ⟨turn, node⟩ ∈ out := by
  unfold scheduled
  rw [List.mem_filterMap]
  constructor
  · rintro ⟨c, hc, hsome⟩
    cases c with
    | runAssessor c =>
        simp only [Command.assessment?, Option.some.injEq, Prod.mk.injEq] at hsome
        rw [← hsome.1, ← hsome.2]
        exact hc
    | _ => simp only [Command.assessment?, reduceCtorEq] at hsome
  · exact fun hc => ⟨_, hc, rfl⟩

/-- What a transition does to the books: nothing, one turn in, or one turn out. -/
inductive BookStep (s : SessionState) (e : Event) (s' : SessionState) (out : List Command) : Prop
  | idle (hpending : s'.tech.pendingAssessments = s.tech.pendingAssessments)
      (hfocus : s'.tech.assessmentFocus = s.tech.assessmentFocus)
      (hnone : scheduled out = []) (hsettled : settledBy e out = none)
  | schedules (turn : Uuid) (node : String) (hturn : e.turnId? = some turn)
      (hpending : s'.tech.pendingAssessments = s.tech.pendingAssessments ++ [turn])
      (hfocus : s'.tech.assessmentFocus = s.tech.assessmentFocus.set turn node)
      (hone : scheduled out = [(turn, node)])
  | settles (turn : Uuid) (hresolves : e.resolves = some turn)
      (hmem : turn ∈ s.tech.pendingAssessments)
      (hpending : s'.tech.pendingAssessments
        = s.tech.pendingAssessments.filter (fun t => t ≠ turn))
      (hfocus : s'.tech.assessmentFocus = s.tech.assessmentFocus.erase turn)
      (hout : out = [.persistState])

section Steps
variable [Scalars] {cfg : OrchestratorConfig} {s s' : SessionState} {e : Event}
  {out : List Command}

omit [Scalars] in
/-- Leaving a competency books the answer as staying does. -/
theorem Answer.leaving_assessmentFocus {now : Instant} (a : Answer s now)
    (cfg : OrchestratorConfig) (turnId : Uuid) :
    (a.leaving cfg turnId).pendingAssessments = s.tech.pendingAssessments ++ [turnId] ∧
      (a.leaving cfg turnId).assessmentFocus
        = s.tech.assessmentFocus.set turnId a.competency.nodeId := by
  unfold Answer.leaving markGap
  split
  · split <;> exact ⟨rfl, rfl⟩
  · exact ⟨rfl, rfl⟩

omit [Scalars] in
/-- The commands of an answer that leaves a competency schedule its assessment. -/
theorem scheduled_leaving {now : Instant} (a : Answer s now) (assessor : RunAssessor)
    (interviewer : RunInterviewer) :
    scheduled (.runAssessor assessor :: .runInterviewer interviewer
      :: (a.gap cfg ++ [.persistState])) = [(assessor.turnId, assessor.competencyFocus)] := by
  unfold Answer.gap
  split
  · rfl
  · rfl

omit [Scalars] in
/-- An event that is no result settles nothing. -/
theorem settledBy_of_not_assessment (h : e.isAssessment = false) (out : List Command) :
    settledBy e out = none := by
  have hnone : e.resolves = none := by
    cases e with
    | assessmentCompleted | assessmentFailed => exact absurd h Bool.true_eq_false_eq_False
    | sessionStarted | candidateTurnReceived | interviewerReplyReady | interviewerFailed
    | timerTick | reconnected | operatorAbort => rfl
  rw [settledBy, hnone, ite_self]

/-- An event that is no result settles nothing, and an answer in TECH is booked
    under its competency. -/
theorem bookStep_of_edge (hassessment : e.isAssessment = false) (hedge : Edge cfg s e s' out) :
    BookStep s e s' out := by
  have hsettled := settledBy_of_not_assessment hassessment out
  have hidle : s'.tech.pendingAssessments = s.tech.pendingAssessments →
      s'.tech.assessmentFocus = s.tech.assessmentFocus → scheduled out = [] →
      BookStep s e s' out :=
    fun hpending hfocus hnone => BookStep.idle hpending hfocus hnone hsettled
  cases hedge with
  | probed turnId text now a hphase hawaiting hclarify hprobes =>
      exact BookStep.schedules turnId a.competency.nodeId rfl rfl rfl rfl
  | seeded turnId text now a seed hphase hawaiting hanswered hseed =>
      exact BookStep.schedules turnId a.competency.nodeId rfl rfl rfl rfl
  | advanced turnId text now a following hphase hawaiting hleaves hnext =>
      -- The competency that is left keeps its books, with the turn added.
      have hbooked := a.leaving_assessmentFocus cfg turnId
      exact BookStep.schedules turnId a.competency.nodeId rfl hbooked.1 hbooked.2
        (scheduled_leaving a _ _)
  | finished turnId text now a hphase hawaiting hleaves hlast =>
      have hbooked := a.leaving_assessmentFocus cfg turnId
      exact BookStep.schedules turnId a.competency.nodeId rfl hbooked.1 hbooked.2
        (scheduled_leaving a _ _)
  | aborted e reason decision persist hlive hturn =>
      cases persist <;> exact hidle rfl rfl rfl
  | delivered turnId output now hphase hawaiting hpending =>
      -- A reply touches the drift counter only.
      rcases noteDrift_fst s output.internalMoveExecuted cfg with ⟨drift, hdrift⟩
      refine hidle ?_ ?_ rfl
      · simp only [delivered, hdrift]
      · simp only [delivered, hdrift]
  | reconnected now hlive =>
      refine hidle rfl rfl ?_
      unfold onReconnected
      cases s.pendingCommand with
      | none => rfl
      | some c => rfl
  | assessed | assessmentFailed => exact absurd hassessment Bool.true_eq_false_eq_False
  | ignored | opened | entered | cutShort | asked | closed | completed | retried =>
      exact hidle rfl rfl rfl

/-- A result for a turn that is out settles it, in any live phase. -/
theorem step_of_pending {turn : Uuid} (he : e.resolves = some turn) (hlive : live s)
    (hpending : turn ∈ s.tech.pendingAssessments) :
    ∃ s', step cfg s e = .ok (s', [.persistState]) ∧
      s'.tech.pendingAssessments = s.tech.pendingAssessments.filter (fun t => t ≠ turn) ∧
      s'.tech.assessmentFocus = s.tech.assessmentFocus.erase turn := by
  have habsorb := transition_of_assessment cfg hlive (isAssessment_of_resolves he)
  have hmem : turn ∈ s.assessments.pendingAssessments := hpending
  -- A completion and a failure settle the turn the same way.
  have hcommands : (s.assessments.absorb cfg e).2.2 = [.persistState] ∧
      (s.assessments.absorb cfg e).1.pendingAssessments
        = s.tech.pendingAssessments.filter (fun t => t ≠ turn) ∧
      (s.assessments.absorb cfg e).1.assessmentFocus = s.tech.assessmentFocus.erase turn := by
    cases e with
    | assessmentCompleted forTurnId output now =>
        obtain rfl : forTurnId = turn := Option.some.inj he
        rw [Assessments.absorb, if_pos hmem]
        exact ⟨rfl, rfl, rfl⟩
    | assessmentFailed forTurnId errorKind now =>
        obtain rfl : forTurnId = turn := Option.some.inj he
        rw [Assessments.absorb, if_pos hmem]
        exact ⟨rfl, rfl, rfl⟩
    | sessionStarted | candidateTurnReceived | interviewerReplyReady | interviewerFailed
    | timerTick | reconnected | operatorAbort => cases he
  refine ⟨s.placed (s.assessments.absorb cfg e).1 (s.assessments.absorb cfg e).2.1,
    (step_eq_ok_iff _ _ _ _ _).mpr ?_, hcommands.2⟩
  rw [← hcommands.1]
  exact habsorb

/-- Any other result is ignored. -/
theorem step_of_not_pending {turn : Uuid} (he : e.resolves = some turn)
    (h : ¬ live s ∨ turn ∉ s.tech.pendingAssessments) : step cfg s e = .ok (s, []) := by
  refine (step_eq_ok_iff _ _ _ _ _).mpr ?_
  by_cases hlive : live s
  · have hnot : turn ∉ s.assessments.pendingAssessments := h.resolve_left (not_not.mpr hlive)
    have habsorb := transition_of_assessment cfg hlive (isAssessment_of_resolves he)
    have hquiet : s.assessments.absorb cfg e = (s.assessments, false, []) := by
      cases e with
      | assessmentCompleted forTurnId output now =>
          obtain rfl : forTurnId = turn := Option.some.inj he
          rw [Assessments.absorb, if_neg hnot]
      | assessmentFailed forTurnId errorKind now =>
          obtain rfl : forTurnId = turn := Option.some.inj he
          rw [Assessments.absorb, if_neg hnot]
      | sessionStarted | candidateTurnReceived | interviewerReplyReady | interviewerFailed
      | timerTick | reconnected | operatorAbort => cases he
    rw [habsorb, hquiet, placed_self]
  · exact transition_of_not_live hlive e

/-- Every transition is one of three entries in the books. -/
theorem bookStep_of_step (hstep : step cfg s e = .ok (s', out)) : BookStep s e s' out := by
  cases hresolves : e.resolves with
  | none =>
      refine bookStep_of_edge ?_ (edge_of_step hstep)
      cases e with
      | assessmentCompleted | assessmentFailed => cases hresolves
      | sessionStarted | candidateTurnReceived | interviewerReplyReady | interviewerFailed
      | timerTick | reconnected | operatorAbort => rfl
  | some turn =>
      by_cases hwaited : live s ∧ turn ∈ s.tech.pendingAssessments
      · obtain ⟨t, ht, hpending, hfocus⟩ := @step_of_pending _ cfg _ _ _ hresolves hwaited.1
          hwaited.2
        rw [ht, Except.ok.injEq, Prod.mk.injEq] at hstep
        rw [← hstep.1, ← hstep.2]
        exact BookStep.settles turn hresolves hwaited.2 hpending hfocus rfl
      · rw [not_and_or] at hwaited
        rw [step_of_not_pending hresolves hwaited, Except.ok.injEq, Prod.mk.injEq] at hstep
        rw [← hstep.1, ← hstep.2]
        exact BookStep.idle rfl rfl rfl rfl

end Steps

/-- The docket of a run: what it has scheduled, what it has settled, and what is
    out in the state it has reached. -/
def docketOf (ts : List (Taken SessionState Event Command)) (s : SessionState) :
    Docket Uuid String :=
  ⟨scheduled (outputs ts), settledTurns ts, s.tech.assessmentFocus.entries⟩

section Runs
variable [Scalars] {cfg : OrchestratorConfig} {s : SessionState} {sessionId : Uuid}
  {planInput : Dict String Json} {ts : List (Taken SessionState Event Command)}

/-- Every assessment is scheduled by a candidate turn of its own. -/
theorem SessionRun.scheduled_sublist (h : SessionRun cfg sessionId planInput ts s) :
    (Docket.keys (scheduled (outputs ts))).Sublist (candidateTurns ts) := by
  induction h with
  | nil => exact List.Sublist.refl _
  | snoc ts a b e out _ hab ih =>
      rw [outputs_snoc, scheduled_append, Docket.keys, List.map_append, candidateTurns,
        List.filterMap_append]
      refine ih.append ?_
      cases bookStep_of_step hab with
      | idle hpending hfocus hnone hsettled =>
          rw [hnone]
          exact List.nil_sublist _
      | schedules turn node hturn hpending hfocus hone =>
          simp only [hone, List.map_cons, List.map_nil, List.filterMap_cons, hturn,
            List.filterMap_nil]
          exact List.Sublist.refl _
      | settles turn hresolves hmem hpending hfocus hout =>
          simp only [hout]
          exact List.nil_sublist _

/-- As long as no turn is scheduled twice, the docket of a run is balanced, and
    the turns that are out are the keys of what each of them is for. -/
theorem SessionRun.docket (h : SessionRun cfg sessionId planInput ts s)
    (honce : (Docket.keys (scheduled (outputs ts))).Nodup) :
    (docketOf ts s).Balanced ∧ s.tech.pendingAssessments = s.tech.assessmentFocus.keys := by
  induction h with
  | nil => exact ⟨Docket.balanced_empty, rfl⟩
  | snoc ts a b e out hrun hab ih =>
      have hinit : (Docket.keys (scheduled (outputs ts))).Nodup := by
        rw [outputs_snoc, scheduled_append, Docket.keys, List.map_append] at honce
        exact (List.nodup_append.mp honce).1
      obtain ⟨hbalanced, hkeys⟩ := ih hinit
      -- The step is a step of the docket.
      have hstep : Docket.Step (docketOf ts a) (docketOf (ts ++ [⟨a, e, b, out⟩]) b) ∧
          b.tech.pendingAssessments = b.tech.assessmentFocus.keys := by
        have hparts : docketOf (ts ++ [⟨a, e, b, out⟩]) b
            = ⟨scheduled (outputs ts) ++ scheduled out,
                settledTurns ts ++ (settledBy e out).toList, b.tech.assessmentFocus.entries⟩ := by
          simp only [docketOf, outputs_snoc, scheduled_append, settledTurns,
            List.filterMap_append, List.filterMap_cons, List.filterMap_nil]
          cases settledBy e out <;> rfl
        rw [hparts]
        cases bookStep_of_step hab with
        | idle hpending hfocus hnone hsettled =>
            rw [hnone, hsettled, hfocus, hpending, List.append_nil, Option.toList_none,
              List.append_nil]
            exact ⟨Docket.Step.idle, hkeys⟩
        | schedules turn node hturn hpending hfocus hone =>
            have hnew : turn ∉ a.tech.assessmentFocus.keys := by
              intro hold
              have hbefore := ((hbalanced.mem_keys_iff turn).mp hold).1
              rw [outputs_snoc, scheduled_append, hone, Docket.keys, List.map_append,
                List.nodup_append] at honce
              exact honce.2.2 turn hbefore turn (List.mem_singleton_self turn) rfl
            have hentries : b.tech.assessmentFocus.entries
                = a.tech.assessmentFocus.entries ++ [(turn, node)] := by
              rw [hfocus]
              exact insertIn_of_notMem turn node _ hnew
            have hnone : settledBy e out = none := by
              refine settledBy_of_not_assessment ?_ out
              cases e with
              | candidateTurnReceived turnId text now => rfl
              | _ => cases hturn
            rw [hone, hnone, hentries, Option.toList_none, List.append_nil]
            refine ⟨Docket.Step.enters turn node, ?_⟩
            rw [hpending, hkeys, Dict.keys, Dict.keys, hentries, List.map_append]
            rfl
        | settles turn hresolves hmem hpending hfocus hout =>
            have hsettled : settledBy e out = some turn := by
              rw [settledBy, hout, List.isEmpty_cons, if_neg Bool.false_ne_true, hresolves]
            have hnone : scheduled out = [] := by
              rw [hout]
              rfl
            rw [hnone, hsettled, hfocus, List.append_nil, Option.toList_some]
            rw [hkeys] at hmem
            refine ⟨Docket.Step.settles turn hmem, ?_⟩
            rw [hpending, hkeys]
            exact List.filter_map
      exact ⟨hstep.1.balanced hbalanced honce, hstep.2⟩

end Runs

/-- What the books promise in a state that a run has reached. -/
structure BooksKept [Scalars] (cfg : OrchestratorConfig)
    (ts : List (Taken SessionState Event Command)) (s : SessionState) : Prop where
  /-- No turn is out twice. -/
  nodup : s.tech.pendingAssessments.Nodup
  /-- What is out is what it is known for. -/
  keys : ∀ turn, turn ∈ s.tech.pendingAssessments ↔ turn ∈ s.tech.assessmentFocus.keys
  /-- What is out was scheduled, and is not settled. -/
  open_iff : ∀ turn, turn ∈ s.tech.pendingAssessments ↔
    turn ∈ Docket.keys (scheduled (outputs ts)) ∧ turn ∉ settledTurns ts
  /-- Nothing is scheduled or settled twice. -/
  once : (Docket.keys (scheduled (outputs ts))).Nodup ∧ (settledTurns ts).Nodup
  /-- A result is accepted in any live phase. -/
  accepts : ∀ e turn, e.resolves = some turn → turn ∈ s.tech.pendingAssessments → live s →
    ∃ s', step cfg s e = .ok (s', [.persistState])
  /-- A second result, or one for a turn that was never scheduled, changes nothing. -/
  ignores : ∀ e turn, e.resolves = some turn →
    turn ∈ settledTurns ts ∨ turn ∉ Docket.keys (scheduled (outputs ts)) →
    step cfg s e = .ok (s, [])
  /-- A failure marks the node that its turn was scheduled with, and no other. -/
  marks : ∀ turn node, (turn, node) ∈ scheduled (outputs ts) →
    turn ∈ s.tech.pendingAssessments → live s → ∀ errorKind now, ∃ s',
      step cfg s (.assessmentFailed turn errorKind now) = .ok (s', [.persistState]) ∧
      s'.tech.coverage.get? node
        = some { (s.tech.coverage.get? node).getD {} with assessmentFailed := true } ∧
      ∀ n, n ≠ node → s'.tech.coverage.get? n = s.tech.coverage.get? n

/-- Whatever the order of answers, results, ticks and resumes, if no two candidate
    turns share their identifier, then the books are right in every state. -/
theorem assessment_bookkeeping [Scalars] (cfg : OrchestratorConfig) (sessionId : Uuid)
    (planInput : Dict String Json) (ts : List (Taken SessionState Event Command))
    (s : SessionState) (h : SessionRun cfg sessionId planInput ts s)
    (hdistinct : (candidateTurns ts).Nodup) : BooksKept cfg ts s := by
  have honce := hdistinct.sublist h.scheduled_sublist
  obtain ⟨hbalanced, hkeys⟩ := h.docket honce
  -- A turn is out when it was scheduled and not settled since.
  have hopen : ∀ turn, turn ∈ s.tech.pendingAssessments ↔
      turn ∈ Docket.keys (scheduled (outputs ts)) ∧ turn ∉ settledTurns ts := by
    intro turn
    rw [hkeys]
    exact hbalanced.mem_keys_iff turn
  refine
    { nodup := ?_
      keys := fun turn => by rw [hkeys]
      open_iff := hopen
      once := ⟨honce, hbalanced.settled_nodup⟩
      accepts := fun e turn he hmem hlive => ?_
      ignores := fun e turn he hstale => ?_
      marks := fun turn node hnode hmem hlive errorKind now => ?_ }
  · rw [hkeys]
    exact s.tech.assessmentFocus.nodup
  · obtain ⟨s', hs', _⟩ := @step_of_pending _ cfg _ _ _ he hlive hmem
    exact ⟨s', hs'⟩
  · -- A turn that was never scheduled, or settled before, is not out.
    refine step_of_not_pending he (Or.inr (fun hmem => ?_))
    have hboth := (hopen turn).mp hmem
    exact hstale.elim hboth.2 (fun hnever => hnever hboth.1)
  · -- The focus of a turn that is out is the node it was scheduled with.
    have hfocus : s.tech.assessmentFocus.get? turn = some node := by
      rw [hkeys, Dict.keys, List.mem_map] at hmem
      rcases hmem with ⟨⟨t, n⟩, hentry, rfl⟩
      have hin : (t, n) ∈ scheduled (outputs ts) := by
        have hentry' : (t, n) ∈ (docketOf ts s).pending := hentry
        rw [hbalanced.pending_eq] at hentry'
        exact (List.mem_filter.mp hentry').1
      rw [Docket.value_unique (d := docketOf ts s) honce hin hnode] at hentry
      exact (s.tech.assessmentFocus.get?_eq_some_iff t node).mpr hentry
    refine ⟨{ s with tech := failedTech s.tech turn },
      (step_eq_ok_iff _ _ _ _ _).mpr ?_, ?_, ?_⟩
    · rw [transition, if_neg hlive, onAssessmentFailed_eq s turn hmem]
    · simp only [failedTech, hfocus, Dict.get?_set_self]
    · intro n hn
      simp only [failedTech, hfocus, Dict.get?_set_of_ne _ _ _ _ hn]

/-- In the small interview one answer was assessed and one is out. -/
theorem assessment_bookkeeping_small : ∃ ts s, SmallRun ts s ∧
    scheduled (outputs ts) = [(⟨101⟩, "sql"), (⟨102⟩, "sql")] ∧ settledTurns ts = [⟨101⟩] ∧
    @BooksKept Scalars.strict OrchestratorConfig.committed ts s := by
  have hrec : (smallRecord smallEvents).map
      (fun r => (candidateTurns r.1, scheduled (outputs r.1), settledTurns r.1))
      = .ok ([⟨100⟩, ⟨101⟩, ⟨102⟩], [(⟨101⟩, "sql"), (⟨102⟩, "sql")], [⟨101⟩]) := by
    decide +kernel
  rcases exists_run_of_record _ _ _ _ _ hrec with ⟨ts, s, hrun, hproj⟩
  simp only [Prod.mk.injEq] at hproj
  refine ⟨ts, s, hrun, hproj.2.1, hproj.2.2, ?_⟩
  refine @assessment_bookkeeping Scalars.strict _ _ _ ts s hrun ?_
  rw [hproj.1]
  decide

end TechScreen
