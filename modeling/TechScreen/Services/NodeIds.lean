import TechScreen.Orchestrator.AssessmentDocket
import TechScreen.Orchestrator.GapMarkers
import TechScreen.Orchestrator.Traversal
import TechScreen.Services.DevSession

/-!
# Node Identifiers Identify Competencies

The machine walks the plan by position; the coverage, the assessments that are
out and the service go by the node id. Nothing in `PlanSnapshot.validatePlan`
makes the two agree, since only the shape of a plan is checked: a node that is
planned twice has one cell for both, and a lookup that ends at the first.

Where no node is planned twice they do agree. A move that names a node names the
competency the machine is on, an adjudication reads no cell but that one, and
what the machine writes into the cell of a competency comes from its own answers.
What an assessor says about a node goes to the cell of that node, whatever turn
it was asked about.

## Main definitions

* `PlanSnapshot.DistinctNodes`: No node is planned twice.
* `Aimed`: The move in flight names the competency the machine is on.
* `Writes`: What may write the cell of a competency.
* `Identified`: The position and the node id lead to the same competency.

## Theorems

* `SessionRun.aimed`: Every move that is in flight is aimed.
* `writes_of_changed`: A cell that a step changes.
* `node_ids_identify`: Every step of a run, for a plan of distinct nodes.
-/

namespace TechScreen

open Lib

section Plans
variable {plan : PlanSnapshot} {i j : Int} {c d : PlannedCompetency}

/-- No node is planned twice. -/
def PlanSnapshot.DistinctNodes (plan : PlanSnapshot) : Prop :=
  (plan.competencies.map (fun c => c.nodeId.val)).Nodup

instance (plan : PlanSnapshot) : Decidable plan.DistinctNodes :=
  inferInstanceAs (Decidable (plan.competencies.map (fun c => c.nodeId.val)).Nodup)

/-- A node is planned at one position. -/
theorem PlanSnapshot.DistinctNodes.position (h : plan.DistinctNodes)
    (hc : plan.competency i = some c) (hd : plan.competency j = some d)
    (hnode : c.nodeId.val = d.nodeId.val) : i = j := by
  obtain ⟨hi, hc⟩ := (plan.competency_eq_some_iff i c).mp hc
  obtain ⟨hj, hd⟩ := (plan.competency_eq_some_iff j d).mp hd
  have hlt : i.toNat < (plan.competencies.map (fun c => c.nodeId.val)).length := by
    rw [List.length_map]
    exact (List.getElem?_eq_some_iff.mp hc).1
  have hsame : i.toNat = j.toNat := by
    refine (List.getElem?_inj hlt h).mp ?_
    rw [List.getElem?_map, List.getElem?_map, hc, hd, Option.map_some, Option.map_some, hnode]
  omega

/-- The lookup by its node id ends at the competency itself. -/
theorem PlanSnapshot.DistinctNodes.find (h : plan.DistinctNodes)
    (hc : plan.competency i = some c) :
    plan.competencies.find? (fun d => d.nodeId.val = c.nodeId.val) = some c := by
  obtain ⟨hi, hmem⟩ := (plan.competency_eq_some_iff i c).mp hc
  cases hfind : plan.competencies.find? (fun d => d.nodeId.val = c.nodeId.val) with
  | none =>
      have hnot := List.find?_eq_none.mp hfind c (List.mem_of_getElem? hmem)
      exact absurd (decide_eq_true rfl) hnot
  | some d =>
      have hnode : d.nodeId.val = c.nodeId.val := by
        simpa only [decide_eq_true_eq] using List.find?_some hfind
      -- What was found is in the plan too, and so at the same position.
      obtain ⟨k, hk⟩ := List.mem_iff_getElem?.mp (List.mem_of_find?_eq_some hfind)
      have hd : plan.competency k = some d :=
        (plan.competency_eq_some_iff k d).mpr ⟨Int.natCast_nonneg k, by rwa [Int.toNat_natCast]⟩
      have hki : (k : Int) = i := h.position hd hc hnode
      rw [hki, hc] at hd
      exact hd.symm

end Plans

section Moves
variable [Scalars] {cfg : OrchestratorConfig} {s s' : SessionState} {e : Event}
  {out : List Command}

/-- The move in flight names the competency the machine is on, if it names one. -/
def Aimed (s : SessionState) : Prop :=
  ∀ c node, s.pendingCommand = some (.runInterviewer c) → c.competencyNodeId = some node →
    ∃ plan q, s.plan = some plan ∧ plan.competency s.tech.competencyIndex = some q ∧
      q.nodeId.val = node

omit [Scalars] in
/-- A move that has just been issued is aimed if its node is that of the position. -/
theorem aimed_issueInterviewer {move : InterviewerMove} {node : Option String}
    {context : Dict String Json} (h : ∀ n, node = some n → ∃ plan q, s.plan = some plan ∧
      plan.competency s.tech.competencyIndex = some q ∧ q.nodeId.val = n) :
    Aimed (issueInterviewer s move node context).1 := by
  intro c n hpending hn
  cases hpending
  exact h n hn

theorem aimed_of_edge (h : Aimed s) (hedge : Edge cfg s e s' out) : Aimed s' := by
  -- A state without a move in flight is aimed.
  have hnone : ∀ t : SessionState, (∀ c, t.pendingCommand ≠ some (.runInterviewer c)) →
      Aimed t := fun t ht c _ hpending _ => absurd hpending (ht c)
  have hquiet : ∀ {n : String}, (none : Option String) ≠ some n := fun hc => by cases hc
  cases hedge with
  | entered turnId text now plan hphase hplan =>
      refine aimed_issueInterviewer (s := entered s now) (fun n hn => ?_)
      exact ⟨plan, plan.firstCompetency, hplan, plan.competency_zero, Option.some.inj hn⟩
  | probed turnId text now a hphase hawaiting hclarify hprobes =>
      refine aimed_issueInterviewer (fun n hn => ?_)
      exact ⟨a.plan, a.competency, a.hplan, a.hcompetency, Option.some.inj hn⟩
  | seeded turnId text now a seed hphase hawaiting hanswered hseed =>
      refine aimed_issueInterviewer (fun n hn => ?_)
      exact ⟨a.plan, a.competency, a.hplan, a.hcompetency, Option.some.inj hn⟩
  | advanced turnId text now a following hphase hawaiting hleaves hnext =>
      refine aimed_issueInterviewer (s := advanced s (a.leaving cfg turnId) now) (fun n hn => ?_)
      refine ⟨a.plan, following, a.hplan, ?_, Option.some.inj hn⟩
      rw [advanced, a.leaving_competencyIndex]
      exact hnext
  | finished turnId text now a hphase hawaiting hleaves hlast =>
      exact aimed_issueInterviewer (fun n hn => absurd hn hquiet)
  | cutShort now plan hphase hplan hover =>
      exact aimed_issueInterviewer (fun n hn => absurd hn hquiet)
  | asked turnId text now plan hphase hplan =>
      exact aimed_issueInterviewer (fun n hn => absurd hn hquiet)
  | retried turnId errorKind now pending hphase hawaiting hpending hid hstreak =>
      intro c n hretry hn
      cases hretry
      exact h pending n hpending hn
  | assessed forTurnId output now hlive hpending =>
      rw [onAssessmentCompleted, if_neg (not_not.mpr hpending)]
      exact h
  | assessmentFailed forTurnId errorKind now hlive hpending =>
      rw [onAssessmentFailed_eq s forTurnId hpending]
      have hindex : (failedTech s.tech forTurnId).competencyIndex = s.tech.competencyIndex := by
        unfold failedTech
        cases s.tech.assessmentFocus.get? forTurnId <;> rfl
      intro c n hc hn
      obtain ⟨plan, q, hplan, hq, hnode⟩ := h c n hc hn
      exact ⟨plan, q, hplan, by rw [hindex]; exact hq, hnode⟩
  | opened now plan hphase hplan => exact hnone _ (fun c hc => by cases hc)
  | closed e activity hphase => exact hnone _ (fun c hc => by cases hc)
  | completed e hphase => exact hnone _ (fun c hc => by cases hc)
  | aborted e reason decision persist hlive hturn => exact hnone _ (fun c hc => by cases hc)
  | delivered turnId output now hphase hawaiting hpending => exact hnone _ (fun c hc => by cases hc)
  | ignored e hidle => exact h
  | reconnected now hlive => exact h

theorem SessionRun.aimed {sessionId : Uuid} {planInput : Dict String Json}
    {ts : List (Taken SessionState Event Command)}
    (h : SessionRun cfg sessionId planInput ts s) : Aimed s :=
  h.invariant Aimed
    (fun c node hpending => by simp only [initialState, reduceCtorEq] at hpending)
    (fun _ _ _ _ ha hab => aimed_of_edge ha (edge_of_step hab))

/-- An interviewer call that a step asks for is in flight after it. -/
theorem pending_of_call (hedge : Edge cfg s e s' out) {command : Command} {c : RunInterviewer}
    (hmem : command ∈ out) (hcall : command.call? = some c) :
    s'.pendingCommand = some (.runInterviewer c) := by
  have hgap : ∀ {now} (a : Answer s now), ∀ k ∈ a.gap cfg, k.call? = none := by
    intro now a k hk
    unfold Answer.gap at hk
    split at hk
    · rw [List.mem_singleton.mp hk]
      rfl
    · exact absurd hk List.not_mem_nil
  cases hedge with
  | probed turnId text now a hphase hawaiting hclarify hprobes =>
      simp only [List.mem_cons, List.not_mem_nil, or_false] at hmem
      rcases hmem with rfl | rfl | rfl <;> cases hcall
      rfl
  | seeded turnId text now a seed hphase hawaiting hanswered hseed =>
      simp only [List.mem_cons, List.not_mem_nil, or_false] at hmem
      rcases hmem with rfl | rfl | rfl <;> cases hcall
      rfl
  | advanced turnId text now a following hphase hawaiting hleaves hnext =>
      simp only [List.mem_cons, List.mem_append, List.not_mem_nil, or_false] at hmem
      rcases hmem with rfl | rfl | hk | rfl
      · cases hcall
      · cases hcall
        rfl
      · cases (hgap a command hk).symm.trans hcall
      · cases hcall
  | finished turnId text now a hphase hawaiting hleaves hlast =>
      simp only [List.mem_cons, List.mem_append, List.not_mem_nil, or_false] at hmem
      rcases hmem with rfl | rfl | hk | rfl
      · cases hcall
      · cases hcall
        rfl
      · cases (hgap a command hk).symm.trans hcall
      · cases hcall
  | retried turnId errorKind now pending hphase hawaiting hpending hid hstreak =>
      simp only [List.mem_cons, List.not_mem_nil, or_false] at hmem
      rcases hmem with rfl | rfl | rfl <;> cases hcall
      rfl
  | entered turnId text now plan hphase hplan =>
      simp only [List.mem_cons, List.not_mem_nil, or_false] at hmem
      rcases hmem with rfl | rfl <;> cases hcall
      rfl
  | cutShort now plan hphase hplan hover =>
      rw [List.mem_singleton.mp hmem] at hcall
      cases hcall
      rfl
  | asked turnId text now plan hphase hplan =>
      rw [List.mem_singleton.mp hmem] at hcall
      cases hcall
      rfl
  | reconnected now hlive =>
      -- What is issued again is what is in flight.
      unfold onReconnected at hmem
      cases hpending : s.pendingCommand with
      | none =>
          rw [hpending, List.mem_singleton] at hmem
          rw [hmem] at hcall
          cases hcall
      | some k =>
          rw [hpending] at hmem
          simp only [List.mem_cons, List.not_mem_nil, or_false] at hmem
          rcases hmem with rfl | rfl
          · cases k with
            | runInterviewer r =>
                cases hcall
                rfl
            | deliverUtterance r | emitScriptedOpening r | emitScriptedClosing r => cases hcall
          · cases hcall
  | ignored e hidle => exact absurd hmem List.not_mem_nil
  | aborted e reason decision persist hlive hturn =>
      cases persist <;> simp only [abort, if_true, Bool.false_eq_true, if_false, List.mem_cons,
        List.not_mem_nil, or_false] at hmem
      · rw [hmem] at hcall
        cases hcall
      · rcases hmem with rfl | rfl <;> cases hcall
  | assessed forTurnId output now hlive hpending =>
      rw [List.mem_singleton.mp hmem] at hcall
      cases hcall
  | assessmentFailed forTurnId errorKind now hlive hpending =>
      rw [List.mem_singleton.mp hmem] at hcall
      cases hcall
  | opened | closed | completed | delivered =>
      simp only [List.mem_cons, List.not_mem_nil, or_false] at hmem
      rcases hmem with rfl | rfl <;> cases hcall

end Moves

section Focus
variable [Scalars] {cfg : OrchestratorConfig} {s s' : SessionState} {e : Event}
  {out : List Command}

/-- An assessment is scheduled for the competency the machine is on. -/
theorem focus_of_edge (hedge : Edge cfg s e s' out) {turn : Uuid} {node : String}
    (hmem : (turn, node) ∈ scheduled out) :
    ∃ plan q, s.plan = some plan ∧ plan.competency s.tech.competencyIndex = some q ∧
      q.nodeId.val = node := by
  have hanswer : ∀ (turnId : Uuid) {now : Instant} (a : Answer s now),
      scheduled out = [(turnId, a.competency.nodeId.val)] → ∃ plan q, s.plan = some plan ∧
        plan.competency s.tech.competencyIndex = some q ∧ q.nodeId.val = node := by
    intro turnId now a hout
    rw [hout, List.mem_singleton, Prod.mk.injEq] at hmem
    exact ⟨a.plan, a.competency, a.hplan, a.hcompetency, hmem.2.symm⟩
  have hnever : scheduled out = [] → ∃ plan q, s.plan = some plan ∧
      plan.competency s.tech.competencyIndex = some q ∧ q.nodeId.val = node := by
    intro hout
    rw [hout] at hmem
    exact absurd hmem List.not_mem_nil
  cases hedge with
  | probed turnId text now a hphase hawaiting hclarify hprobes => exact hanswer turnId a rfl
  | seeded turnId text now a seed hphase hawaiting hanswered hseed => exact hanswer turnId a rfl
  | advanced turnId text now a following hphase hawaiting hleaves hnext =>
      refine hanswer turnId a ?_
      rw [scheduled_leaving]
      rfl
  | finished turnId text now a hphase hawaiting hleaves hlast =>
      refine hanswer turnId a ?_
      rw [scheduled_leaving]
      rfl
  | aborted e reason decision persist hlive hturn => cases persist <;> exact hnever rfl
  | reconnected now hlive =>
      refine hnever ?_
      unfold onReconnected
      cases s.pendingCommand <;> rfl
  | ignored | opened | entered | cutShort | asked | closed | completed | delivered | retried
  | assessed | assessmentFailed => exact hnever rfl

/-- An assessment that is out was scheduled, for what it is out for. -/
theorem SessionRun.focus_scheduled {sessionId : Uuid} {planInput : Dict String Json}
    {ts : List (Taken SessionState Event Command)} (h : SessionRun cfg sessionId planInput ts s)
    {turn : Uuid} {node : String} (hfocus : s.tech.assessmentFocus.get? turn = some node) :
    ∃ t ∈ ts, (turn, node) ∈ scheduled t.out := by
  induction h with
  | nil => cases hfocus
  | snoc ts a b e out _ hab ih =>
      have hearlier : a.tech.assessmentFocus.get? turn = some node →
          ∃ t ∈ ts ++ [⟨a, e, b, out⟩], (turn, node) ∈ scheduled t.out := by
        intro hold
        obtain ⟨t, ht, hmem⟩ := ih hold
        exact ⟨t, List.mem_append_left _ ht, hmem⟩
      cases bookStep_of_step hab with
      | idle hpending hkept hnone hsettled => exact hearlier (hkept ▸ hfocus)
      | schedules turn' node' hturn hpending hset hone =>
          rw [hset, Dict.get?_set] at hfocus
          by_cases hsame : turn = turn'
          · rw [if_pos hsame, Option.some.injEq] at hfocus
            refine ⟨_, List.mem_append_right _ (List.mem_singleton_self _), ?_⟩
            rw [hone, hsame, hfocus]
            exact List.mem_singleton_self _
          · rw [if_neg hsame] at hfocus
            exact hearlier hfocus
      | settles turn' hresolves hmem hpending herase hout =>
          rw [herase] at hfocus
          by_cases hsame : turn = turn'
          · rw [hsame, Dict.get?_erase_self] at hfocus
            cases hfocus
          · rw [Dict.get?_erase_of_ne _ _ _ hsame] at hfocus
            exact hearlier hfocus

end Focus

section Cells
variable [Scalars] {cfg : OrchestratorConfig} {sessionId : Uuid} {planInput : Dict String Json}
  {plan : PlanSnapshot} {us : List (Taken SessionState Event Command)}
  {t : Taken SessionState Event Command}

/-- The state with another cell for one node. -/
def SessionState.withCell (s : SessionState) (node : String) (cell : CoverageCell) :
    SessionState :=
  { s with tech := { s.tech with coverage := s.tech.coverage.set node cell } }

omit [Scalars] in
/-- The competency the machine is on is planned at its position. -/
theorem plan_of_currentCompetency {s : SessionState} {c : PlannedCompetency}
    (h : currentCompetency s = .ok c) :
    ∃ p, s.plan = some p ∧ p.competency s.tech.competencyIndex = some c := by
  cases hp : s.plan with
  | none =>
      rw [currentCompetency, requirePlan, hp] at h
      cases h
  | some p => exact ⟨p, rfl, currentCompetency_ok hp h⟩

/-- The output is about the node, or has an item about it. -/
def AssessorOutput.names (output : AssessorOutput) (node : String) : Prop :=
  output.competencyFocus = node ∨ ∃ item ∈ output.assessments, item.rubricNodeId = node

/-- What may write the cell of the competency at position `j`: an answer given
    there that exhausts the budget, the failed assessment of one, or an output that
    names the node. -/
inductive Writes (cfg : OrchestratorConfig) (us : List (Taken SessionState Event Command))
    (j : Int) (node : String) (t : Taken SessionState Event Command) : Prop
  | exhausted (v : Adjudication) (hverdict : verdictOn cfg t.before t.event = some v)
      (hmarker : v.gapMarker = some .gapBudgetExhausted)
      (hindex : t.before.tech.competencyIndex = j)
  | failed (turn : Uuid) (kind : String) (now : Instant)
      (hevent : t.event = .assessmentFailed turn kind now)
      (u : Taken SessionState Event Command) (hu : u ∈ us)
      (hscheduled : .runAssessor ⟨turn, node⟩ ∈ u.out)
      (hindex : u.before.tech.competencyIndex = j)
  | assessed (turn : Uuid) (output : AssessorOutput) (now : Instant)
      (hevent : t.event = .assessmentCompleted turn output now) (hnames : output.names node)

omit [Scalars] in
/-- Evidence that is not about a node leaves its cell alone. -/
theorem cellOf_append_of_untouched (n : String) (h evidence : List Evidence)
    (huntouched : ∀ x ∈ evidence, x.touches n = false) :
    cellOf n (h ++ evidence) = cellOf n h := by
  induction evidence using List.reverseRecOn with
  | nil => rw [List.append_nil]
  | append_singleton evidence x ih =>
      rw [← List.append_assoc, cellOf_concat_of_untouched n _ x
        (huntouched x (List.mem_append_right _ (List.mem_singleton_self x)))]
      exact ih (fun y hy => huntouched y (List.mem_append_left _ hy))

/-- A cell that a step changes has had something found out about its node. -/
theorem touched_of_changed (hrun : SessionRun cfg sessionId planInput us t.before)
    (hstep : step cfg t.before t.event = .ok (t.after, t.out)) {node : String}
    (hchanged : t.after.tech.coverage.get? node ≠ t.before.tech.coverage.get? node) :
    ∃ x ∈ evidenceOf cfg t.before t.event, x.touches node = true := by
  by_contra hnone
  push Not at hnone
  refine hchanged ?_
  have hcover := coverage_of_run hrun
  rw [coverage_step hstep hcover, hcover]
  exact cellOf_append_of_untouched node _ _ (fun x hx => Bool.not_eq_true _ ▸ hnone x hx)

/-- For a plan of distinct nodes, a cell is written by its own competency or by
    an output that names it. -/
theorem writes_of_changed (hvalid : PlanSnapshot.validatePlan (.obj planInput.entries) = .ok plan)
    (hdistinct : plan.DistinctNodes) (hrun : SessionRun cfg sessionId planInput us t.before)
    (hstep : step cfg t.before t.event = .ok (t.after, t.out)) {j : Int} {d : PlannedCompetency}
    (hd : plan.competency j = some d)
    (hchanged : t.after.tech.coverage.get? d.nodeId ≠ t.before.tech.coverage.get? d.nodeId) :
    Writes cfg us j d.nodeId t := by
  obtain ⟨x, hx, htouches⟩ := touched_of_changed hrun hstep hchanged
  -- The evidence is split by the event that brought it.
  cases he : t.event with
  | assessmentCompleted turn output now =>
      rw [he, evidenceOf] at hx
      split at hx
      · rw [List.mem_singleton.mp hx] at htouches
        simp only [Evidence.touches, Bool.or_eq_true, decide_eq_true_eq, List.any_eq_true]
          at htouches
        exact Writes.assessed turn output now he htouches
      · exact absurd hx List.not_mem_nil
  | assessmentFailed turn kind now =>
      rw [he, evidenceOf] at hx
      split at hx
      · obtain ⟨node, hnode, rfl⟩ := List.mem_map.mp hx
        rw [Option.mem_toList] at hnode
        obtain rfl : node = d.nodeId.val := of_decide_eq_true htouches
        obtain ⟨u, hu, hscheduled⟩ := SessionRun.focus_scheduled hrun hnode
        -- It was scheduled where its node is planned.
        obtain ⟨_, _, hearlier, hone⟩ := Run.of_mem hrun u hu
        obtain ⟨p, q, hp, hq, hnode⟩ := focus_of_edge (edge_of_step hone) hscheduled
        rw [SessionRun.plan_eq hvalid hearlier p hp] at hq
        exact Writes.failed turn kind now he u hu (mem_scheduled.mp hscheduled)
          (hdistinct.position hq hd hnode)
      · exact absurd hx List.not_mem_nil
  | candidateTurnReceived turn text now =>
      rw [he, evidenceOf] at hx
      cases hc : currentCompetency t.before with
      | error x =>
          rw [hc] at hx
          exact absurd hx List.not_mem_nil
      | ok c =>
          cases hv : verdictOn cfg t.before (.candidateTurnReceived turn text now) with
          | none =>
              rw [hc, hv] at hx
              exact absurd hx List.not_mem_nil
          | some v =>
              rw [hc, hv] at hx
              dsimp only at hx
              split at hx
              · next hmarker =>
                  rw [List.mem_singleton.mp hx] at htouches
                  have hnode : c.nodeId.val = d.nodeId.val := of_decide_eq_true htouches
                  obtain ⟨p, hp, hq⟩ := plan_of_currentCompetency hc
                  rw [SessionRun.plan_eq hvalid hrun p hp] at hq
                  exact Writes.exhausted v (he ▸ hv) hmarker (hdistinct.position hq hd hnode)
              · exact absurd hx List.not_mem_nil
  | sessionStarted | interviewerReplyReady | interviewerFailed | timerTick | reconnected
  | operatorAbort =>
      rw [he] at hx
      exact absurd hx List.not_mem_nil

omit [Scalars] in
/-- An adjudication reads no other cell than that of the competency the machine
    is on. -/
theorem verdictOn_withCell {s : SessionState} {node : String}
    (hother : ∀ c, currentCompetency s = .ok c → c.nodeId.val ≠ node) (cell : CoverageCell)
    (e : Event) : verdictOn cfg (s.withCell node cell) e = verdictOn cfg s e := by
  have hcurrent : currentCompetency (s.withCell node cell) = currentCompetency s := rfl
  have hread : ∀ c, currentCompetency s = .ok c →
      (s.withCell node cell).tech.coverage.get? c.nodeId = s.tech.coverage.get? c.nodeId :=
    fun c hc => Dict.get?_set_of_ne _ _ _ _ (hother c hc)
  have hsome : ∀ v, verdictOn cfg (s.withCell node cell) e = some v
      ↔ verdictOn cfg s e = some v := by
    intro v
    rw [verdictOn_eq_some_iff, verdictOn_eq_some_iff]
    constructor
    · rintro ⟨turn, text, now, c, remaining, he, hawaits, hc, hr, hv⟩
      rw [hcurrent] at hc
      exact ⟨turn, text, now, c, remaining, he, hawaits, hc, hr, by rw [hv, hread c hc]; rfl⟩
    · rintro ⟨turn, text, now, c, remaining, he, hawaits, hc, hr, hv⟩
      exact ⟨turn, text, now, c, remaining, he, hawaits, hc, hr, by rw [hv, hread c hc]; rfl⟩
  exact Option.ext hsome

end Cells

section Runs
variable [Scalars] {cfg : OrchestratorConfig} {sessionId : Uuid} {planInput : Dict String Json}
  {plan : PlanSnapshot} {us : List (Taken SessionState Event Command)}
  {t : Taken SessionState Event Command}

/-- In one step of a run the position in the plan and the node id lead to the
    same competency: the lookup of the service for every move that names a node,
    and the cells that are read and written. -/
structure Identified (cfg : OrchestratorConfig) (plan : PlanSnapshot)
    (us : List (Taken SessionState Event Command)) (t : Taken SessionState Event Command) :
    Prop where
  found : ∀ command ∈ t.out, ∀ c, command.call? = some c → c.competencyNodeId ≠ none →
    ∃ q, plan.competency t.after.tech.competencyIndex = some q ∧
      competencyOf t.after c.competencyNodeId = some q
  reads : ∀ j d cell, plan.competency j = some d → j ≠ t.before.tech.competencyIndex →
    verdictOn cfg (t.before.withCell d.nodeId cell) t.event = verdictOn cfg t.before t.event
  writes : ∀ j d, plan.competency j = some d →
    t.after.tech.coverage.get? d.nodeId ≠ t.before.tech.coverage.get? d.nodeId →
    Writes cfg us j d.nodeId t

theorem identified_of_step
    (hvalid : PlanSnapshot.validatePlan (.obj planInput.entries) = .ok plan)
    (hdistinct : plan.DistinctNodes) (hrun : SessionRun cfg sessionId planInput us t.before)
    (hstep : step cfg t.before t.event = .ok (t.after, t.out)) : Identified cfg plan us t where
  found := by
    intro command hmem c hcall hnamed
    have hafter : SessionRun cfg sessionId planInput (us ++ [t]) t.after :=
      hrun.snoc us t.before t.after t.event t.out hstep
    obtain ⟨node, hnode⟩ := Option.ne_none_iff_exists'.mp hnamed
    obtain ⟨p, q, hp, hq, hqnode⟩ := (SessionRun.aimed hafter) c node
      (pending_of_call (edge_of_step hstep) hmem hcall) hnode
    obtain rfl : p = plan := SessionRun.plan_eq hvalid hafter p hp
    refine ⟨q, hq, ?_⟩
    rw [hnode, ← hqnode]
    simp only [competencyOf, hp]
    exact hdistinct.find hq
  reads := by
    intro j d cell hd hj
    refine verdictOn_withCell (fun c hc hnode => ?_) cell t.event
    obtain ⟨p, hp, hq⟩ := plan_of_currentCompetency hc
    rw [SessionRun.plan_eq hvalid hrun p hp] at hq
    exact hj (hdistinct.position hd hq hnode.symm)
  writes := fun _ _ hd hchanged => writes_of_changed hvalid hdistinct hrun hstep hd hchanged

/-- For every plan without a node that is planned twice, node ids identify
    competencies in every step of every run. -/
theorem node_ids_identify (cfg : OrchestratorConfig) (sessionId : Uuid)
    (planInput : Dict String Json) (plan : PlanSnapshot)
    (hvalid : PlanSnapshot.validatePlan (.obj planInput.entries) = .ok plan)
    (hdistinct : plan.DistinctNodes) (ts : List (Taken SessionState Event Command))
    (s : SessionState) (h : SessionRun cfg sessionId planInput ts s) :
    ∀ us t vs, ts = us ++ t :: vs → Identified cfg plan us t := by
  intro us t vs hts
  obtain ⟨hus, hstep⟩ := Run.split h us t vs hts
  exact identified_of_step hvalid hdistinct hus hstep

end Runs

section SmallInterview

theorem sqlNode_ne : "sql" ≠ "" := by decide

def sqlNode : NonEmptyStr := ⟨"sql", sqlNode_ne⟩

/-- The competencies of the small plan, on one node. -/
def twins : List PlannedCompetency :=
  smallPlan.competencies.map (fun c => { c with nodeId := sqlNode })

theorem twins_ne : twins ≠ [] := by decide

/-- A plan that has the same node twice, with different seeds. -/
def twinPlan : PlanSnapshot :=
  { smallPlan with competencies := twins, competencies_ne := twins_ne }

/-- The plan of twins as the session row holds it. -/
def twinInput : Dict String Json :=
  ⟨[("plan_version", .int twinPlan.planVersion),
    ("competencies", .arr (twinPlan.competencies.map (@PlannedCompetency.dump Scalars.strict))),
    ("qa_minutes", .int twinPlan.qaMinutes),
    ("session_max_minutes", .int twinPlan.sessionMaxMinutes)], by decide⟩

/-- The runs of an interview over this plan. -/
abbrev TwinRun : List (Taken SessionState Event Command) → SessionState → Prop :=
  @SessionRun Scalars.strict OrchestratorConfig.committed smallId twinInput

/-- Where the answer to a turn was given. -/
def positionsOf (turn : Uuid) (ts : List (Taken SessionState Event Command)) : List Int :=
  (ts.filter (fun t => turn ∈ Docket.keys (scheduled t.out))).map
    (fun t => t.before.tech.competencyIndex)

/-- Where the last answer of a run was given, its verdict, and where the answers
    were given that had been assessed by then. -/
def lastVerdict (ts : List (Taken SessionState Event Command)) :
    Option (Int × Option Verdict × List Int) :=
  ts.getLast?.map (fun t => (t.before.tech.competencyIndex,
    (verdictOn OrchestratorConfig.committed t.before t.event).map Adjudication.verdict,
    (settledTurns ts).flatMap (fun turn => positionsOf turn ts)))

/-- The question of the second competency, and an answer to it. -/
def answerOnSecond : List Event :=
  [.interviewerReplyReady (smallTurn 3) ⟨"Next?", .acknowledgeAndTransition⟩ 7000000,
    .candidateTurnReceived ⟨103⟩ "no idea" 8000000]

/-- An interview up to the second answer, with an output for the first one that
    scores the second competency too. -/
def scoringAhead : List Event :=
  smallEvents.take 5 ++ [.assessmentCompleted ⟨101⟩
    (sqlOutput ⟨101⟩ [itemOn "sql" smallLevel, itemOn "api" smallLevel]) 5000000,
    .candidateTurnReceived ⟨102⟩ "another" 6000000]

/-- The plan of twins is accepted. The lookup for its second competency ends at
    the first, and the second is answered on what was said about the first. An
    output with items about two nodes has the same effect in a plan without
    twins. -/
theorem node_ids_shared :
    @PlanSnapshot.validatePlan Scalars.strict (.obj twinInput.entries) = .ok twinPlan ∧
    (∃ ts s t command c, TwinRun ts s ∧ t ∈ ts ∧ command ∈ t.out ∧ command.call? = some c ∧
      c.competencyNodeId = some "sql" ∧ t.after.tech.competencyIndex = 1 ∧
      competencyOf t.after c.competencyNodeId = twinPlan.competency 0 ∧
      twinPlan.competency 0 ≠ twinPlan.competency 1) ∧
    (∃ ts s, TwinRun ts s ∧ lastVerdict ts = some (1, some .answered, [0])) ∧
    ∃ ts s, SmallRun ts s ∧ smallPlan.DistinctNodes ∧
      lastVerdict ts = some (1, some .answered, [0]) := by
  have hvalid : @PlanSnapshot.validatePlan Scalars.strict (.obj twinInput.entries)
      = .ok twinPlan := by decide +kernel
  refine ⟨hvalid, ?_, ?_, ?_⟩
  · have hrec : (record (@step Scalars.strict OrchestratorConfig.committed)
        (initialState smallId twinInput OrchestratorConfig.committed) smallEvents).map (fun r =>
          r.1.getLast?.map (fun t => (t.after.tech.competencyIndex,
            t.out.filterMap (fun command => command.call?.map RunInterviewer.competencyNodeId),
            competencyOf t.after (some "sql"))))
        = .ok (some (1, [some "sql"], twinPlan.competency 0)) := by decide +kernel
    obtain ⟨ts, s, hrun, hproj⟩ := exists_run_of_record _ _ _ _ _ hrec
    obtain ⟨t, ht, hlast⟩ := Option.map_eq_some_iff.mp hproj
    simp only [Prod.mk.injEq] at hlast
    obtain ⟨hindex, hcalls, hlookup⟩ := hlast
    obtain ⟨command, hmem, hcall⟩ := List.mem_filterMap.mp
      (hcalls.symm ▸ List.mem_singleton_self (some "sql") : some "sql" ∈ t.out.filterMap _)
    obtain ⟨c, hc, hnode⟩ := Option.map_eq_some_iff.mp hcall
    exact ⟨ts, s, t, command, c, hrun, List.mem_of_getLast? ht, hmem, hc, hnode, hindex,
      by rw [hnode, hlookup], by decide⟩
  · have hrec : (record (@step Scalars.strict OrchestratorConfig.committed)
        (initialState smallId twinInput OrchestratorConfig.committed)
        (smallEvents ++ answerOnSecond)).map (fun r => lastVerdict r.1)
        = .ok (some (1, some .answered, [0])) := by decide +kernel
    exact exists_run_of_record _ _ _ _ _ hrec
  · have hrec : (smallRecord (scoringAhead ++ answerOnSecond)).map (fun r => lastVerdict r.1)
        = .ok (some (1, some .answered, [0])) := by decide +kernel
    obtain ⟨ts, s, hrun, hproj⟩ := exists_run_of_record _ _ _ _ _ hrec
    exact ⟨ts, s, hrun, by decide, hproj⟩

/-- The small plan has two nodes; its interview has moved on to the second. -/
theorem node_ids_identify_small : ∃ ts s, SmallRun ts s ∧ s.tech.competencyIndex = 1 ∧
    ∀ us t vs, ts = us ++ t :: vs → Identified OrchestratorConfig.committed smallPlan us t := by
  have hvalid : @PlanSnapshot.validatePlan Scalars.strict (.obj smallInput.entries)
      = .ok smallPlan := by decide +kernel
  have hrec : (smallRecord smallEvents).map (fun r => r.2.tech.competencyIndex) = .ok 1 := by
    decide +kernel
  obtain ⟨ts, s, hrun, hindex⟩ := exists_run_of_record _ _ _ _ _ hrec
  exact ⟨ts, s, hrun, hindex,
    @node_ids_identify Scalars.strict _ _ _ smallPlan hvalid (by decide) ts s hrun⟩

end SmallInterview

end TechScreen
