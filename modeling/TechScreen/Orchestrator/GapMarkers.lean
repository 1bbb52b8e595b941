import TechScreen.Orchestrator.Budget
import TechScreen.Orchestrator.Evidence

/-!
# The Gap That Is Not Assessable

A competency is left with the gap `gap_not_assessable` on the fourth row of the
adjudication table. The row reads the marker of the coverage cell, which an
output without assessments sets and nothing takes back; the basis of the same
adjudication asks for a score first. So the two agree on a node as long as it
has not been scored, and part on one that came back empty and was scored in an
output before or after.

The row is turned into its conditions, the basis into the accepted outputs, and
the gaps that are recorded into the verdicts that they come from. What is left
is to say when a node with a score gets down to the fourth row.

## Main definitions

* `HonestGaps`: What a step records as not assessable has no score.
* `Contested`: An answer on a scored node that the fourth row decides.

## Theorems

* `adjudicate_gapNotAssessable_iff`: The fourth row of the table.
* `basis_cellOf`: The basis, read off the accepted outputs.
* `mem_recordGap_iff`: A gap is recorded for the marker of a verdict.
* `gap_not_assessable_iff`: When the gaps of a run are honest.
-/

namespace TechScreen

open Lib

section Rows
variable (cell : Option CoverageCell) (target probes : Int) (remaining : ℚ)
  (cfg : OrchestratorConfig)

/-- The fourth row decides what the rows above it leave. -/
theorem adjudicate_gapNotAssessable_iff :
    (adjudicate cell target probes remaining cfg).gapMarker = some .gapNotAssessable ↔
      isAnswered cell target cfg = false ∧ isLevelZero cell = false ∧
        (probes < cfg.adjudication.maxProbesPerCompetency ∧
          (cfg.adjudication.minProbeSeconds : ℚ) < remaining) ∧
        isNotAssessable cell = true ∧ 1 ≤ probes := by
  unfold adjudicate
  -- The rows of the table are tried in order, each one settles the marker.
  by_cases hanswered : isAnswered cell target cfg = true
  · rw [if_pos hanswered, hanswered]
    simp only [reduceCtorEq, Bool.true_eq_false, false_and]
  rw [if_neg hanswered]
  by_cases hzero : isLevelZero cell = true
  · rw [if_pos hzero, hzero]
    simp only [Option.some.injEq, reduceCtorEq, Bool.true_eq_false, false_and, and_false]
  rw [if_neg hzero]
  rw [Bool.not_eq_true] at hanswered hzero
  have hbudget : ¬ (probes ≥ cfg.adjudication.maxProbesPerCompetency ∨
      remaining ≤ cfg.adjudication.minProbeSeconds) ↔
      probes < cfg.adjudication.maxProbesPerCompetency ∧
        (cfg.adjudication.minProbeSeconds : ℚ) < remaining := by
    rw [not_or, Int.not_le, Rat.not_le]
  by_cases hspent : probes ≥ cfg.adjudication.maxProbesPerCompetency ∨
      remaining ≤ cfg.adjudication.minProbeSeconds
  · -- A spent budget gives the other marker.
    rw [if_pos hspent, ← hbudget]
    simp only [Option.some.injEq, reduceCtorEq, hspent, not_true_eq_false, false_and, and_false]
  · rw [if_neg hspent, ← hbudget]
    by_cases hempty : isNotAssessable cell = true ∧ probes ≥ 1
    · rw [if_pos hempty]
      simp only [hanswered, hzero, hspent, not_false_eq_true, hempty.1, true_and, true_iff]
      exact hempty.2
    · -- What is left is a probe, without a marker.
      rw [if_neg hempty]
      simp only [reduceCtorEq, false_iff]
      exact fun hall => hempty hall.2.2.2

/-- The basis is read off the cell, whatever the row. -/
theorem adjudicate_basis : (adjudicate cell target probes remaining cfg).basis = basis cell := by
  unfold adjudicate
  split_ifs <;> rfl

end Rows

section Bases
variable (n : String) (h : List Evidence)

/-- A node has a score once an accepted output has an item about it; without one
    it is the marker that counts. -/
theorem basis_cellOf :
    (itemsIn n (outputsIn h) ≠ [] → basis (cellOf n h) = .assessment) ∧
      (itemsIn n (outputsIn h) = [] → isNotAssessable (cellOf n h) = true →
        basis (cellOf n h) = .notAssessable) := by
  rw [itemsIn_outputsIn]
  unfold cellOf
  constructor
  · intro hscored
    -- An item about the node is something about the node.
    have htouched : h.any (Evidence.touches n) = true := by
      by_contra hc
      rw [Bool.not_eq_true, List.any_eq_false] at hc
      refine hscored (List.flatMap_eq_nil_iff.mpr (fun e he => ?_))
      cases e with
      | assessed output =>
          have hun := hc _ he
          simp only [Evidence.touches, Bool.or_eq_true, decide_eq_true_eq, not_or,
            Bool.not_eq_true, List.any_eq_false] at hun
          rw [Evidence.items, itemsOn, List.filter_eq_nil_iff]
          exact fun item hitem hc => hun.2 item hitem (of_decide_eq_true hc)
      | failed nodeId => rfl
      | exhausted nodeId => rfl
    rw [if_pos htouched]
    have hbest : (champion AssessmentItem.score (h.flatMap (Evidence.items n))).isSome = true := by
      rw [Option.isSome_iff_ne_none, ne_eq, champion_eq_none_iff]
      exact hscored
    unfold basis summary CoverageCell.withItems
    simp only [Option.isSome_map, hbest, if_true]
  · intro hnone hmarker
    by_cases htouched : h.any (Evidence.touches n) = true
    · rw [if_pos htouched] at hmarker ⊢
      unfold basis
      simp only [isNotAssessable] at hmarker
      unfold summary CoverageCell.withItems at hmarker ⊢
      simp only [hnone, champion_nil, Option.map_none, Option.isSome_none, Bool.false_eq_true,
        if_false] at hmarker ⊢
      rw [if_pos hmarker]
    · rw [if_neg htouched, isNotAssessable] at hmarker
      exact absurd hmarker Bool.false_ne_true

/-- The marker of a cell is set by an accepted output without assessments. -/
theorem isNotAssessable_cellOf :
    isNotAssessable (cellOf n h) = true ↔
      ∃ output ∈ outputsIn h, output.competencyFocus = n ∧ output.assessments = [] := by
  have hread : isNotAssessable (cellOf n h)
      = (cellOf n h).any (fun c => isNotAssessable (some c)) := by
    cases cellOf n h <;> rfl
  have hsummary : isNotAssessable (some (summary n h)) = h.any (Evidence.notAssessable n) := rfl
  rw [hread, read_cellOf n h _ rfl, hsummary, ← any_outputsIn, List.any_eq_true]
  simp only [Bool.and_eq_true, decide_eq_true_eq, List.isEmpty_iff]

end Bases

section Gaps
variable [Scalars] {cfg : OrchestratorConfig} {s s' : SessionState} {e : Event}
  {out : List Command}

omit [Scalars] in
/-- A competency that is left without an answer has a gap. -/
theorem Answer.gapMarker_of_none {now : Instant} (a : Answer s now)
    (h : (a.verdict cfg).verdict = .none) : ∃ marker, (a.verdict cfg).gapMarker = some marker := by
  rcases adjudicate_cases (s.tech.coverage.get? a.competency.nodeId) a.competency.targetLevel
    s.tech.probesUsed a.remaining cfg with ⟨_, hv⟩ | ⟨_, hv⟩ | hv | ⟨_, hv⟩ | ⟨_, hv⟩
  · rw [Answer.verdict, hv] at h
    cases h
  · exact ⟨.levelZero, by rw [Answer.verdict, hv]⟩
  · exact ⟨.gapBudgetExhausted, by rw [Answer.verdict, hv]⟩
  · exact ⟨.gapNotAssessable, by rw [Answer.verdict, hv]⟩
  · rw [Answer.verdict, hv] at h
    cases h

omit [Scalars] in
/-- The gap of an answer is the marker of its verdict. -/
theorem Answer.mem_gap_iff {now : Instant} (a : Answer s now) (g : RecordGap) :
    Command.recordGap g ∈ a.gap cfg ↔
      g.nodeId = a.competency.nodeId ∧ (a.verdict cfg).gapMarker = some g.marker := by
  by_cases hnone : (a.verdict cfg).verdict = .none
  · obtain ⟨marker, hmarker⟩ := a.gapMarker_of_none hnone
    rw [Answer.gap, if_pos hnone, hmarker, Option.getD_some, List.mem_singleton,
      Command.recordGap.injEq, Option.some.injEq]
    constructor
    · rintro rfl
      exact ⟨rfl, rfl⟩
    · rintro ⟨hnode, rfl⟩
      rw [← hnode]
  · rw [Answer.gap, if_neg hnone, a.gapMarker_of_stays hnone]
    simp only [List.not_mem_nil, reduceCtorEq, and_false]

/-- A gap is recorded exactly for the marker of a verdict. -/
theorem mem_recordGap_iff (hedge : Edge cfg s e s' out) (g : RecordGap) :
    Command.recordGap g ∈ out ↔ ∃ c v, currentCompetency s = .ok c ∧ verdictOn cfg s e = some v ∧
      g.nodeId = c.nodeId ∧ v.gapMarker = some g.marker := by
  -- Without a verdict nothing is recorded.
  have hquiet : Command.recordGap g ∉ out → verdictOn cfg s e = none →
      (Command.recordGap g ∈ out ↔ ∃ c v, currentCompetency s = .ok c ∧
        verdictOn cfg s e = some v ∧ g.nodeId = c.nodeId ∧ v.gapMarker = some g.marker) := by
    intro hout hnone
    simp only [hout, hnone, reduceCtorEq, false_and, and_false, exists_false]
  -- With one it is the answer's gap that counts.
  have hanswer : ∀ (turnId : Uuid) (text : String) (now : Instant) (a : Answer s now),
      e = .candidateTurnReceived turnId text now → s.phase = .tech →
      s.awaiting = some .candidate → (Command.recordGap g ∈ out ↔ .recordGap g ∈ a.gap cfg) →
      (Command.recordGap g ∈ out ↔ ∃ c v, currentCompetency s = .ok c ∧
        verdictOn cfg s e = some v ∧ g.nodeId = c.nodeId ∧ v.gapMarker = some g.marker) := by
    intro turnId text now a he hphase hawaiting hmem
    have hawaits : awaitsAnswer s (.candidateTurnReceived turnId text now) = true :=
      awaitsAnswer_of_tech hphase hawaiting
    rw [hmem, a.mem_gap_iff, he, a.verdictOn hawaits, a.currentCompetency]
    simp only [Except.ok.injEq, Option.some.injEq, exists_and_left, exists_eq_left']
  have hidle : ∀ {f : Event}, f.isCandidateTurn = false → verdictOn cfg s f = none :=
    fun hf => verdictOn_eq_none (awaitsAnswer_eq_false s _ hf)
  cases hedge with
  | ignored e hawaits => exact hquiet List.not_mem_nil (verdictOn_eq_none hawaits)
  | probed turnId text now a hphase hawaiting hclarify hprobes =>
      refine hanswer turnId text now a rfl hphase hawaiting ?_
      rw [Answer.gap, if_neg (by rw [hclarify]; decide)]
      simp only [List.mem_cons, reduceCtorEq, List.not_mem_nil, or_self]
  | seeded turnId text now a seed hphase hawaiting hanswered hseed =>
      refine hanswer turnId text now a rfl hphase hawaiting ?_
      rw [Answer.gap, if_neg (by rw [hanswered]; decide)]
      simp only [List.mem_cons, reduceCtorEq, List.not_mem_nil, or_self]
  | advanced turnId text now a following hphase hawaiting hleaves hnext =>
      refine hanswer turnId text now a rfl hphase hawaiting ?_
      simp only [List.mem_cons, List.mem_append, reduceCtorEq, List.not_mem_nil, or_false, false_or]
  | finished turnId text now a hphase hawaiting hleaves hlast =>
      refine hanswer turnId text now a rfl hphase hawaiting ?_
      simp only [List.mem_cons, List.mem_append, reduceCtorEq, List.not_mem_nil, or_false, false_or]
  | entered turnId text now p hphase hplan =>
      refine hquiet ?_ (verdictOn_eq_none (awaitsAnswer_of_phase (by rw [hphase]; decide)))
      simp only [List.mem_cons, reduceCtorEq, List.not_mem_nil, or_self, not_false_eq_true]
  | asked turnId text now p hphase hplan =>
      refine hquiet ?_ (verdictOn_eq_none (awaitsAnswer_of_phase (by rw [hphase]; decide)))
      simp only [List.mem_cons, reduceCtorEq, List.not_mem_nil, or_self, not_false_eq_true]
  | closed e activity hphase =>
      refine hquiet ?_ (verdictOn_eq_none (awaitsAnswer_of_phase (by rw [hphase]; decide)))
      simp only [List.mem_cons, reduceCtorEq, List.not_mem_nil, or_self, not_false_eq_true]
  | completed e hphase =>
      refine hquiet ?_ (verdictOn_eq_none (awaitsAnswer_of_phase (by rw [hphase]; decide)))
      simp only [List.mem_cons, reduceCtorEq, List.not_mem_nil, or_self, not_false_eq_true]
  | aborted e reason decision persist hlive hturn =>
      refine hquiet ?_ (hidle hturn)
      cases persist <;>
        simp only [abort, if_true, Bool.false_eq_true, if_false, List.mem_cons, reduceCtorEq,
          List.not_mem_nil, or_self, not_false_eq_true]
  | reconnected now hlive =>
      refine hquiet ?_ (hidle rfl)
      unfold onReconnected
      cases s.pendingCommand with
      | none => simp only [List.mem_singleton, reduceCtorEq, not_false_eq_true]
      | some c =>
          simp only [List.mem_cons, reduceCtorEq, List.not_mem_nil, or_self, not_false_eq_true]
  | opened | cutShort | delivered | retried | assessed | assessmentFailed =>
      refine hquiet ?_ (hidle rfl)
      simp only [List.mem_cons, reduceCtorEq, List.not_mem_nil, or_self, not_false_eq_true]

end Gaps

section Runs
variable [Scalars] {cfg : OrchestratorConfig} {sessionId : Uuid} {planInput : Dict String Json}
  {ts us vs : List (Taken SessionState Event Command)} {t : Taken SessionState Event Command}
  {s : SessionState}

/-- What the step records as not assessable, no output accepted before it has
    scored; and its verdict says as much. -/
def HonestGaps (cfg : OrchestratorConfig) (done : List (Taken SessionState Event Command))
    (t : Taken SessionState Event Command) : Prop :=
  (∀ n, .recordGap ⟨n, .gapNotAssessable⟩ ∈ t.out →
    itemsIn n (outputsIn (history cfg done)) = []) ∧
  ∀ v, verdictOn cfg t.before t.event = some v → v.gapMarker = some .gapNotAssessable →
    v.basis = .notAssessable

/-- An answer on a competency that has a score and has also come back empty: it
    is neither answered nor at level zero, it has been probed, and there are
    probes and time left. -/
def Contested (cfg : OrchestratorConfig) (done : List (Taken SessionState Event Command))
    (t : Taken SessionState Event Command) : Prop :=
  ∃ turnId text now c remaining, t.event = .candidateTurnReceived turnId text now ∧
    awaitsAnswer t.before t.event = true ∧ currentCompetency t.before = .ok c ∧
    secondsRemaining c t.before.tech.competencyStartedAt now = .ok remaining ∧
    itemsIn c.nodeId (outputsIn (history cfg done)) ≠ [] ∧
    (∃ output ∈ outputsIn (history cfg done),
      output.competencyFocus = c.nodeId ∧ output.assessments = []) ∧
    isAnswered (t.before.tech.coverage.get? c.nodeId) c.targetLevel cfg = false ∧
    isLevelZero (t.before.tech.coverage.get? c.nodeId) = false ∧
    1 ≤ t.before.tech.probesUsed ∧
    t.before.tech.probesUsed < cfg.adjudication.maxProbesPerCompetency ∧
    (cfg.adjudication.minProbeSeconds : ℚ) < remaining

omit [Scalars] in
/-- A verdict is the table, read on the competency the answer was given in. -/
theorem verdictOn_eq_some_iff {e : Event} {v : Adjudication} :
    verdictOn cfg s e = some v ↔ ∃ turnId text now c remaining,
      e = .candidateTurnReceived turnId text now ∧ awaitsAnswer s e = true ∧
      currentCompetency s = .ok c ∧
      secondsRemaining c s.tech.competencyStartedAt now = .ok remaining ∧
      v = adjudicate (s.tech.coverage.get? c.nodeId) c.targetLevel s.tech.probesUsed remaining
        cfg := by
  constructor
  · intro h
    cases e with
    | candidateTurnReceived turnId text now =>
        rw [verdictOn] at h
        by_cases hawaits : awaitsAnswer s (.candidateTurnReceived turnId text now) = true
        · rw [if_pos hawaits] at h
          cases hc : currentCompetency s with
          | error x =>
              rw [hc] at h
              cases h
          | ok c =>
              rw [hc] at h
              dsimp only at h
              cases hr : secondsRemaining c s.tech.competencyStartedAt now with
              | error x =>
                  rw [hr] at h
                  cases h
              | ok remaining =>
                  rw [hr, Option.some.injEq] at h
                  exact ⟨turnId, text, now, c, remaining, rfl, hawaits, rfl, hr, h.symm⟩
        · rw [if_neg hawaits] at h
          cases h
    | sessionStarted | interviewerReplyReady | interviewerFailed | assessmentCompleted
    | assessmentFailed | timerTick | reconnected | operatorAbort => cases h
  · rintro ⟨turnId, text, now, c, remaining, rfl, hawaits, hc, hr, rfl⟩
    rw [verdictOn, if_pos hawaits, hc]
    dsimp only
    rw [hr]

/-- On a node with a score the fourth row is reached by the contested answers. -/
theorem contested_iff (hrun : SessionRun cfg sessionId planInput us t.before) :
    Contested cfg us t ↔ ∃ c v, currentCompetency t.before = .ok c ∧
      verdictOn cfg t.before t.event = some v ∧ v.gapMarker = some .gapNotAssessable ∧
      itemsIn c.nodeId (outputsIn (history cfg us)) ≠ [] := by
  have hcover := coverage_of_run hrun
  constructor
  · rintro ⟨turnId, text, now, c, remaining, he, hawaits, hc, hr, hscored, hempty, hanswered, hzero,
      hprobed, hprobes, htime⟩
    refine ⟨c, _, hc, verdictOn_eq_some_iff.mpr
      ⟨turnId, text, now, c, remaining, he, hawaits, hc, hr, rfl⟩, ?_, hscored⟩
    refine (adjudicate_gapNotAssessable_iff _ _ _ _ _).mpr
      ⟨hanswered, hzero, ⟨hprobes, htime⟩, ?_, hprobed⟩
    -- The cell that is read is the one the accepted outputs have made.
    rw [hcover]
    exact (isNotAssessable_cellOf _ _).mpr hempty
  · rintro ⟨c, v, hc, hv, hmarker, hscored⟩
    obtain ⟨turnId, text, now, c', remaining, he, hawaits, hc', hr, rfl⟩ :=
      verdictOn_eq_some_iff.mp hv
    obtain rfl : c' = c := Except.ok.inj (hc'.symm.trans hc)
    obtain ⟨hanswered, hzero, ⟨hprobes, htime⟩, hempty, hprobed⟩ :=
      (adjudicate_gapNotAssessable_iff _ _ _ _ _).mp hmarker
    rw [hcover] at hempty
    exact ⟨turnId, text, now, c', remaining, he, hawaits, hc, hr, hscored,
      (isNotAssessable_cellOf _ _).mp hempty, hanswered, hzero, hprobed, hprobes, htime⟩

/-- A step is honest about its gaps unless the answer is contested. -/
theorem honestGaps_iff (hrun : SessionRun cfg sessionId planInput us t.before)
    (hstep : step cfg t.before t.event = .ok (t.after, t.out)) :
    HonestGaps cfg us t ↔ ¬ Contested cfg us t := by
  rw [contested_iff hrun]
  have hcover := coverage_of_run hrun
  constructor
  · -- A contested answer has a score for its basis.
    rintro ⟨-, hbasis⟩ ⟨c, v, hc, hv, hmarker, hscored⟩
    have hnot := hbasis v hv hmarker
    obtain ⟨_, _, _, c', _, _, _, hc', _, rfl⟩ := verdictOn_eq_some_iff.mp hv
    obtain rfl : c' = c := Except.ok.inj (hc'.symm.trans hc)
    rw [adjudicate_basis, hcover, (basis_cellOf _ _).1 hscored] at hnot
    cases hnot
  · -- Otherwise the node has no score, and the basis is the empty output.
    intro hclear
    refine ⟨fun n hn => ?_, fun v hv hmarker => ?_⟩
    · -- The gap that is recorded comes from the verdict on the answer.
      obtain ⟨c, v, hc, hv, hnode, hmarker⟩ := (mem_recordGap_iff (edge_of_step hstep) _).mp hn
      by_contra hscored
      exact hclear ⟨c, v, hc, hv, hmarker, hnode ▸ hscored⟩
    · obtain ⟨_, _, _, c, _, _, _, hc, _, hv'⟩ := verdictOn_eq_some_iff.mp hv
      by_cases hscored : itemsIn c.nodeId (outputsIn (history cfg us)) = []
      · rw [hv'] at hmarker ⊢
        have hempty := ((adjudicate_gapNotAssessable_iff _ _ _ _ _).mp hmarker).2.2.2.1
        rw [adjudicate_basis, hcover]
        rw [hcover] at hempty
        exact (basis_cellOf _ _).2 hscored hempty
      · exact absurd ⟨c, v, hc, hv, hmarker, hscored⟩ hclear

/-- The gaps that a run records as not assessable are honest exactly if none of
    its answers is contested. -/
theorem gap_not_assessable_iff (cfg : OrchestratorConfig) (sessionId : Uuid)
    (planInput : Dict String Json) (ts : List (Taken SessionState Event Command))
    (s : SessionState) (h : SessionRun cfg sessionId planInput ts s) :
    (∀ us t vs, ts = us ++ t :: vs → HonestGaps cfg us t) ↔
      ∀ us t vs, ts = us ++ t :: vs → ¬ Contested cfg us t := by
  have heach : ∀ us t vs, ts = us ++ t :: vs → (HonestGaps cfg us t ↔ ¬ Contested cfg us t) := by
    intro us t vs hts
    obtain ⟨hus, hstep⟩ := Run.split h us t vs hts
    exact honestGaps_iff hus hstep
  constructor
  · exact fun hhonest us t vs hts => (heach us t vs hts).mp (hhonest us t vs hts)
  · exact fun hclear us t vs hts => (heach us t vs hts).mpr (hclear us t vs hts)

end Runs

section SmallInterview

/-- The gap that a command records. -/
def Command.gap? : Command → Option RecordGap
  | .recordGap g => some g
  | _ => none

theorem mem_filterMap_gap? {out : List Command} {g : RecordGap}
    (h : g ∈ out.filterMap Command.gap?) : Command.recordGap g ∈ out := by
  obtain ⟨c, hc, hg⟩ := List.mem_filterMap.mp h
  cases c with
  | recordGap g' =>
      rw [← Option.some.inj hg]
      exact hc
  | _ => cases hg

/-- The second competency of the small interview: an answer, a probe, and an
    output for the first of its answers that has nothing to assess. -/
def emptyOnApi : List Event :=
  smallEvents ++ [.interviewerReplyReady (smallTurn 3) ⟨"REST?", .acknowledgeAndTransition⟩ 7000000,
    .candidateTurnReceived ⟨103⟩ "no idea" 8000000,
    .interviewerReplyReady (smallTurn 4) ⟨"Why?", .depthProbe⟩ 9000000,
    .assessmentCompleted ⟨103⟩ ⟨⟨103⟩, smallId, "api", [], [], false, none⟩ 10000000]

/-- The answer to the probe. -/
def probedAnswer : Event := .candidateTurnReceived ⟨104⟩ "none" 12000000

theorem lowLevel_lt : 1 < 6 := by decide

/-- A level below the target of the small plan. -/
def lowLevel : Fin 6 := ⟨1, lowLevel_lt⟩

/-- An output for the answer before, which scores the second competency too. -/
def scoringResult : Event :=
  .assessmentCompleted ⟨102⟩ (sqlOutput ⟨102⟩
    [itemOn "sql" smallLevel, itemOn "api" lowLevel]) 11000000

/-- The second competency is scored before the answer to the probe, and is left
    as not assessable: the same verdict has the score for its basis. -/
theorem gap_not_assessable_scored : ∃ ts s us t, SmallRun ts s ∧ ts = us ++ [t] ∧
    ¬ HonestGaps OrchestratorConfig.committed us t ∧
    .recordGap ⟨"api", .gapNotAssessable⟩ ∈ t.out ∧
    itemsIn "api" (outputsIn (history OrchestratorConfig.committed us)) = [itemOn "api" lowLevel] ∧
    (verdictOn OrchestratorConfig.committed t.before t.event).map Adjudication.basis
      = some .assessment := by
  have hrec : (smallRecord (emptyOnApi ++ [scoringResult, probedAnswer])).map (fun r =>
      r.1.getLast?.map (fun t => (t.out.filterMap Command.gap?,
        (verdictOn OrchestratorConfig.committed t.before t.event).map Adjudication.basis,
        itemsIn "api" (outputsIn (history OrchestratorConfig.committed r.1.dropLast)))))
      = .ok (some ([⟨"api", .gapNotAssessable⟩], some .assessment, [itemOn "api" lowLevel])) := by
    decide +kernel
  obtain ⟨ts, s, hrun, hproj⟩ := exists_run_of_record _ _ _ _ _ hrec
  -- The last step of the run is the answer on the contested cell.
  rw [Option.map_eq_some_iff] at hproj
  obtain ⟨t, ht, hlast⟩ := hproj
  simp only [Prod.mk.injEq] at hlast
  obtain ⟨hgaps, hverdict, hitems⟩ := hlast
  have hts : ts = ts.dropLast ++ [t] := (List.dropLast_append_getLast? t ht).symm
  have hgap : Command.recordGap ⟨"api", .gapNotAssessable⟩ ∈ t.out :=
    mem_filterMap_gap? (by rw [hgaps]; exact List.mem_cons_self)
  refine ⟨ts, s, ts.dropLast, t, hrun, hts, ?_, hgap, hitems, hverdict⟩
  rintro ⟨hhonest, -⟩
  have hnone := hhonest "api" hgap
  rw [hitems] at hnone
  exact List.cons_ne_nil _ _ hnone

/-- Without that output the gap is what it says: no competency has both an item
    and an output without any. -/
theorem gap_not_assessable_iff_small : ∃ ts s, SmallRun ts s ∧
    .recordGap ⟨"api", .gapNotAssessable⟩ ∈ outputs ts ∧
    ∀ us t vs, ts = us ++ t :: vs → HonestGaps OrchestratorConfig.committed us t := by
  have hrec : (smallRecord (emptyOnApi ++ [probedAnswer])).map (fun r =>
      ((outputs r.1).filterMap Command.gap?,
        (outputsIn (history OrchestratorConfig.committed r.1)).map
          (fun output => (output.competencyFocus, output.assessments))))
      = .ok ([⟨"api", .gapNotAssessable⟩], [("sql", [itemOn "sql" smallLevel]), ("api", [])]) := by
    decide +kernel
  obtain ⟨ts, s, hrun, hproj⟩ := exists_run_of_record _ _ _ _ _ hrec
  rw [Prod.mk.injEq] at hproj
  obtain ⟨hgaps, houtputs⟩ := hproj
  refine ⟨ts, s, hrun, mem_filterMap_gap? (by rw [hgaps]; exact List.mem_cons_self),
    (@gap_not_assessable_iff Scalars.strict _ _ _ ts s hrun).mpr ?_⟩
  · rintro us t vs hts ⟨_, _, _, c, _, _, _, _, _, hscored, ⟨output, hout, hfocus, hempty⟩, _⟩
    -- Every output accepted by then is one of the two.
    have hseen : ∀ o ∈ outputsIn (history OrchestratorConfig.committed us),
        (o.competencyFocus, o.assessments)
          ∈ [("sql", [itemOn "sql" smallLevel]), ("api", [])] := by
      intro o ho
      rw [← houtputs]
      refine List.mem_map_of_mem ?_
      rw [hts, history, List.flatMap_append, outputsIn, List.filterMap_append]
      exact List.mem_append_left _ ho
    have hapi : c.nodeId = "api" := by
      rcases List.mem_cons.mp (hseen output hout) with heq | hmem
      · rw [Prod.mk.injEq, hempty] at heq
        cases heq.2
      · rw [List.mem_singleton, Prod.mk.injEq] at hmem
        exact hfocus.symm.trans hmem.1
    refine hscored (List.flatMap_eq_nil_iff.mpr (fun o ho => ?_))
    rw [hapi]
    rcases List.mem_cons.mp (hseen o ho) with heq | hmem
    · rw [Prod.mk.injEq] at heq
      rw [heq.2]
      rfl
    · rw [List.mem_singleton, Prod.mk.injEq] at hmem
      rw [hmem.2]
      rfl

end SmallInterview

end TechScreen
