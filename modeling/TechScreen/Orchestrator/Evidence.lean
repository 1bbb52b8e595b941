import TechScreen.Lib.Champion
import TechScreen.Orchestrator.Locality

/-!
# The Evidence Behind a Verdict

What the interview has found out about a competency, as a function of its raw
history: the assessor outputs it accepted, the assessments that failed and the
budgets that ran out, in order. The machine keeps none of this. It keeps one
cell for each node, which four handlers rewrite piece by piece in any phase, and
reads its verdicts off that cell.

`cellOf` reads a cell off the history. It is put together from independent
views, of the items about the node and of what was noted about it, and each of
them turns one more piece of evidence into one more element of a list. The run
lemma says that the coverage of every state reached is `cellOf` of the history,
so that the 2/1/0 table may be read on the history instead.

## Main definitions

* `Evidence`: One thing found out.
* `evidenceOf`: What the machine finds out from an event.
* `history`: Everything a run found out.
* `cellOf`: The cell of a node, read off a history.
* `verdictFromHistory`: The 2/1/0 table, read off the accepted outputs.
* `ActedOn`: What the commands of a step make of a verdict.

## Theorems

* `coverage_of_run`: The coverage of a state is read off the history.
* `verdict_of_history`: So are the verdicts.
-/

namespace TechScreen

open Lib

/-- One thing the interview has found out. -/
inductive Evidence where
  | assessed (output : AssessorOutput)
  | failed (nodeId : String)
  | exhausted (nodeId : String)

section History
variable (n : String)

/-- The evidence is about the node. -/
def Evidence.touches : Evidence → Bool
  | .assessed output =>
      output.competencyFocus = n || output.assessments.any (fun item => item.rubricNodeId = n)
  | .failed nodeId => nodeId = n
  | .exhausted nodeId => nodeId = n

/-- The node could not be assessed. -/
def Evidence.notAssessable : Evidence → Bool
  | .assessed output => output.competencyFocus = n && output.assessments.isEmpty
  | _ => false

def Evidence.isFailed : Evidence → Bool
  | .failed nodeId => nodeId = n
  | _ => false

def Evidence.isExhausted : Evidence → Bool
  | .exhausted nodeId => nodeId = n
  | _ => false

def Evidence.forReview : Evidence → Bool
  | .assessed output => output.competencyFocus = n && output.needsManualReview
  | _ => false

def Evidence.redFlags : Evidence → List RedFlagType
  | .assessed output =>
      if output.competencyFocus = n then output.redFlags.map RedFlagItem.type else []
  | _ => []

def Evidence.items : Evidence → List AssessmentItem
  | .assessed output => itemsOn n output.assessments
  | _ => []

def Evidence.output? : Evidence → Option AssessorOutput
  | .assessed output => some output
  | _ => none

/-- The assessor outputs in a history. -/
def outputsIn (h : List Evidence) : List AssessorOutput := h.filterMap Evidence.output?

/-- The level of an item as a cell holds it. -/
def AssessmentItem.score (item : AssessmentItem) : Int := item.level.val

/-- The best and the latest of the items, written into a cell. -/
def CoverageCell.withItems (cell : CoverageCell) (items : List AssessmentItem) : CoverageCell :=
  { cell with
    bestLevel := (champion AssessmentItem.score items).map AssessmentItem.score
    bestConfidence := (champion AssessmentItem.score items).map AssessmentItem.confidence
    latestLevel := items.getLast?.map AssessmentItem.score
    latestConfidence := items.getLast?.map AssessmentItem.confidence }

/-- What a history has found out about a node: its best and its latest item, the
    markers, which nothing takes back, and the red flags in order. -/
def summary (h : List Evidence) : CoverageCell :=
  CoverageCell.withItems
    { gapNotAssessable := h.any (Evidence.notAssessable n)
      assessmentFailed := h.any (Evidence.isFailed n)
      gapBudgetExhausted := h.any (Evidence.isExhausted n)
      needsManualReview := h.any (Evidence.forReview n)
      redFlags := h.flatMap (Evidence.redFlags n) }
    (h.flatMap (Evidence.items n))

/-- The cell of a node: there is one once something is about the node. -/
def cellOf (h : List Evidence) : Option CoverageCell :=
  if h.any (Evidence.touches n) then some (summary n h) else none

/-- Evidence that is not about the node is not in its summary. -/
theorem summary_concat_of_untouched (h : List Evidence) (e : Evidence)
    (he : e.touches n = false) : summary n (h ++ [e]) = summary n h := by
  have hviews : e.notAssessable n = false ∧ e.isFailed n = false ∧ e.isExhausted n = false ∧
      e.forReview n = false ∧ e.redFlags n = [] ∧ e.items n = [] := by
    cases e with
    | assessed output =>
        simp only [Evidence.touches, Bool.or_eq_false_iff, decide_eq_false_iff_not] at he
        have hitems : itemsOn n output.assessments = [] := by
          rw [itemsOn, List.filter_eq_nil_iff]
          exact List.any_eq_false.mp he.2
        simp only [Evidence.notAssessable, Evidence.isFailed, Evidence.isExhausted,
          Evidence.forReview, Evidence.redFlags, Evidence.items, he.1, decide_false,
          Bool.false_and, if_false, hitems, and_self]
    | failed nodeId =>
        exact ⟨rfl, he, rfl, rfl, rfl, rfl⟩
    | exhausted nodeId =>
        exact ⟨rfl, rfl, he, rfl, rfl, rfl⟩
  obtain ⟨h1, h2, h3, h4, h5, h6⟩ := hviews
  simp only [summary, List.any_append, List.any_cons, List.any_nil, List.flatMap_append,
    List.flatMap_cons, List.flatMap_nil, h1, h2, h3, h4, h5, h6, Bool.or_false, List.append_nil]

/-- A history that is not about the node has found out nothing about it. -/
theorem getD_cellOf (h : List Evidence) : (cellOf n h).getD {} = summary n h := by
  induction h using List.reverseRecOn with
  | nil => rfl
  | append_singleton h e ih =>
      unfold cellOf at ih ⊢
      rw [List.any_append, List.any_cons, List.any_nil, Bool.or_false]
      by_cases he : e.touches n = true
      · rw [he, Bool.or_true, if_pos rfl, Option.getD_some]
      · rw [Bool.not_eq_true] at he
        rw [he, Bool.or_false, summary_concat_of_untouched n h e he, ih]

theorem cellOf_concat_of_untouched (h : List Evidence) (e : Evidence)
    (he : e.touches n = false) : cellOf n (h ++ [e]) = cellOf n h := by
  rw [cellOf, List.any_append, List.any_cons, List.any_nil, he, Bool.or_false, Bool.or_false,
    summary_concat_of_untouched n h e he, cellOf]

theorem cellOf_concat_of_touches (h : List Evidence) (e : Evidence) (he : e.touches n = true) :
    cellOf n (h ++ [e]) = some (summary n (h ++ [e])) := by
  rw [cellOf, if_pos]
  rw [List.any_append, List.any_cons, he, Bool.true_or, Bool.or_true]

end History

section Coverage
variable (n : String)

/-- One item, written into a cell. -/
def CoverageCell.note (cell : CoverageCell) (item : AssessmentItem) : CoverageCell :=
  let level : Int := item.level.val
  let better : Bool := match cell.bestLevel with
    | none => true
    | some best => level ≥ best
  { cell with
    bestLevel := if better then some level else cell.bestLevel
    bestConfidence := if better then some item.confidence else cell.bestConfidence
    latestLevel := some level
    latestConfidence := some item.confidence }

/-- The best item is the champion of the items, the latest one their last. -/
theorem CoverageCell.note_withItems (cell : CoverageCell) (items : List AssessmentItem)
    (item : AssessmentItem) :
    (cell.withItems items).note item = cell.withItems (items ++ [item]) := by
  unfold CoverageCell.note CoverageCell.withItems
  rw [champion_concat, List.getLast?_concat]
  cases champion AssessmentItem.score items with
  | none => rfl
  | some best =>
      simp only [challenge, Option.map_some, ge_iff_le]
      by_cases hle : best.score ≤ item.score
      · rw [if_pos hle, decide_eq_true (show best.score ≤ item.level.val from hle)]
        rfl
      · rw [if_neg hle, decide_eq_false (show ¬ best.score ≤ item.level.val from hle)]
        rfl

theorem CoverageCell.foldl_note_withItems (cell : CoverageCell)
    (items more : List AssessmentItem) :
    more.foldl CoverageCell.note (cell.withItems items) = cell.withItems (items ++ more) := by
  induction more generalizing items with
  | nil => rw [List.foldl_nil, List.append_nil]
  | cons item more ih =>
      rw [List.foldl_cons, CoverageCell.note_withItems, ih, List.append_assoc,
        List.singleton_append]

theorem get?_recordItem (coverage : Dict String CoverageCell) (item : AssessmentItem)
    (hitem : item.rubricNodeId = n) :
    (recordItem coverage item).get? n = some (((coverage.get? n).getD {}).note item) := by
  rw [← hitem]
  exact Dict.get?_set_self _ _ _

/-- The items about a node are noted in its cell, the others elsewhere. -/
theorem get?_foldl_recordItem (coverage : Dict String CoverageCell)
    (items : List AssessmentItem) :
    (items.foldl recordItem coverage).get? n
      = if itemsOn n items = [] then coverage.get? n
        else some ((itemsOn n items).foldl CoverageCell.note ((coverage.get? n).getD {})) := by
  induction items generalizing coverage with
  | nil => rfl
  | cons item items ih =>
      rw [List.foldl_cons, ih]
      by_cases hitem : item.rubricNodeId = n
      · have hcons : itemsOn n (item :: items) = item :: itemsOn n items :=
          List.filter_cons_of_pos (by exact decide_eq_true hitem)
        rw [hcons, if_neg (List.cons_ne_nil _ _), List.foldl_cons, get?_recordItem n _ _ hitem,
          Option.getD_some]
        by_cases hnil : itemsOn n items = []
        · rw [if_pos hnil, hnil, List.foldl_nil]
        · rw [if_neg hnil]
      · have hcons : itemsOn n (item :: items) = itemsOn n items :=
          List.filter_cons_of_neg (by exact fun hc => hitem (of_decide_eq_true hc))
        rw [hcons, recordItem_of_ne coverage item hitem]

/-- What an accepted output does to the cell of one node. -/
theorem get?_recordOutput (coverage : Dict String CoverageCell) (output : AssessorOutput) :
    (recordReviewSignals (recordLevels coverage output) output).get? n
      = if (Evidence.assessed output).touches n = true then
          let noted := (itemsOn n output.assessments).foldl CoverageCell.note
            ((coverage.get? n).getD {})
          some { noted with
            gapNotAssessable :=
              noted.gapNotAssessable || (Evidence.assessed output).notAssessable n
            needsManualReview := noted.needsManualReview || (Evidence.assessed output).forReview n
            redFlags := noted.redFlags ++ (Evidence.assessed output).redFlags n }
        else coverage.get? n := by
  -- The levels first: the focus is marked only by an output without assessments.
  have hlevels : (recordLevels coverage output).get? n
      = if itemsOn n output.assessments = [] then
          if output.competencyFocus = n ∧ output.assessments = [] then
            some { (coverage.get? n).getD {} with gapNotAssessable := true }
          else coverage.get? n
        else some ((itemsOn n output.assessments).foldl CoverageCell.note
          ((coverage.get? n).getD {})) := by
    unfold recordLevels
    by_cases hempty : output.assessments = []
    · have hitems : itemsOn n output.assessments = [] := by
        rw [hempty]
        rfl
      rw [if_pos hempty, if_pos hitems]
      by_cases hfocus : output.competencyFocus = n
      · rw [if_pos ⟨hfocus, hempty⟩]
        simp only [hfocus, Dict.get?_set_self]
      · rw [if_neg (fun hc => hfocus hc.1)]
        exact Dict.get?_set_of_ne _ _ _ _ (Ne.symm hfocus)
    · rw [if_neg hempty, get?_foldl_recordItem]
      by_cases hitems : itemsOn n output.assessments = []
      · rw [if_pos hitems, if_pos hitems, if_neg (fun hc => hempty hc.2)]
      · rw [if_neg hitems, if_neg hitems]
  have hany : (output.assessments.any (fun item => item.rubricNodeId = n) = false)
      ↔ itemsOn n output.assessments = [] := by
    rw [itemsOn, List.filter_eq_nil_iff, List.any_eq_false]
  unfold recordReviewSignals
  by_cases hfocus : output.competencyFocus = n
  · -- The output is about the node itself.
    have htouch : (Evidence.assessed output).touches n = true := by
      simp only [Evidence.touches, hfocus, decide_true, Bool.true_or]
    rw [if_pos htouch]
    simp only [hfocus, Dict.get?_set_self, hlevels, true_and, Evidence.notAssessable,
      Evidence.forReview, Evidence.redFlags, decide_true, Bool.true_and, if_true]
    by_cases hitems : itemsOn n output.assessments = []
    · rw [if_pos hitems, hitems, List.foldl_nil]
      by_cases hempty : output.assessments = []
      · rw [if_pos hempty, hempty, List.isEmpty_nil, Option.getD_some, Bool.or_true]
      · rw [if_neg hempty, List.isEmpty_eq_false_iff.mpr hempty, Bool.or_false]
    · have hempty : output.assessments ≠ [] := by
        intro hc
        rw [hc] at hitems
        exact hitems rfl
      rw [if_neg hitems, Option.getD_some, List.isEmpty_eq_false_iff.mpr hempty, Bool.or_false]
  · -- The output is about another node, but may have items about this one.
    rw [Dict.get?_set_of_ne _ _ _ _ (Ne.symm hfocus), hlevels]
    simp only [Evidence.touches, Evidence.notAssessable, Evidence.forReview, Evidence.redFlags,
      hfocus, decide_false, Bool.false_or, Bool.false_and, Bool.or_false, if_false, false_and,
      List.append_nil]
    by_cases hitems : itemsOn n output.assessments = []
    · rw [if_pos hitems, hany.mpr hitems, if_neg Bool.false_ne_true]
    · rw [if_neg hitems, if_pos (by rwa [← Bool.not_eq_false, hany])]

/-- An accepted output is one more piece of evidence. -/
theorem cellOf_assessed {coverage : Dict String CoverageCell} {h : List Evidence}
    (hcell : coverage.get? n = cellOf n h) (output : AssessorOutput) :
    (recordReviewSignals (recordLevels coverage output) output).get? n
      = cellOf n (h ++ [.assessed output]) := by
  rw [get?_recordOutput, hcell, getD_cellOf]
  by_cases htouch : (Evidence.assessed output).touches n = true
  · rw [if_pos htouch, cellOf_concat_of_touches n h _ htouch]
    simp only [summary, CoverageCell.foldl_note_withItems]
    simp only [CoverageCell.withItems,
      List.any_append, List.any_cons, List.any_nil, List.flatMap_append, List.flatMap_cons,
      List.flatMap_nil, Bool.or_false, List.append_nil, Evidence.items, Evidence.isFailed,
      Evidence.isExhausted]
  · rw [if_neg htouch, cellOf_concat_of_untouched n h _ (Bool.not_eq_true _ ▸ htouch)]

/-- A piece of evidence that is about one node marks the cell of that node. -/
theorem cellOf_marked {coverage : Dict String CoverageCell} {h : List Evidence}
    (hcell : ∀ n, coverage.get? n = cellOf n h) (nodeId : String) (e : Evidence)
    (mark : CoverageCell → CoverageCell) (htouches : ∀ n, e.touches n = decide (nodeId = n))
    (hmark : mark (summary nodeId h) = summary nodeId (h ++ [e])) :
    (coverage.set nodeId (mark ((coverage.get? nodeId).getD {}))).get? n
      = cellOf n (h ++ [e]) := by
  by_cases hn : nodeId = n
  · subst hn
    have htouch : e.touches nodeId = true := by
      rw [htouches]
      exact decide_eq_true rfl
    rw [cellOf_concat_of_touches nodeId h _ htouch, Dict.get?_set_self, hcell, getD_cellOf, hmark]
  · have huntouched : e.touches n = false := by
      rw [htouches]
      exact decide_eq_false hn
    rw [Dict.get?_set_of_ne _ _ _ _ (Ne.symm hn), hcell,
      cellOf_concat_of_untouched n h e huntouched]

/-- A node is marked failed by one more piece of evidence. -/
theorem cellOf_failed {coverage : Dict String CoverageCell} {h : List Evidence}
    (hcell : ∀ n, coverage.get? n = cellOf n h) (nodeId : String) :
    (coverage.set nodeId { (coverage.get? nodeId).getD {} with assessmentFailed := true }).get? n
      = cellOf n (h ++ [.failed nodeId]) := by
  refine cellOf_marked n hcell nodeId (.failed nodeId)
    (fun c => { c with assessmentFailed := true }) (fun _ => rfl) ?_
  simp only [summary, CoverageCell.withItems, List.any_append, List.any_cons, List.any_nil,
    List.flatMap_append, List.flatMap_cons, List.flatMap_nil, Bool.or_false, List.append_nil,
    Evidence.items, Evidence.isFailed, Evidence.isExhausted, Evidence.notAssessable,
    Evidence.forReview, Evidence.redFlags, decide_true, Bool.or_true]

/-- So is a node whose budget ran out. -/
theorem cellOf_exhausted {coverage : Dict String CoverageCell} {h : List Evidence}
    (hcell : ∀ n, coverage.get? n = cellOf n h) (nodeId : String) :
    (coverage.set nodeId
        { (coverage.get? nodeId).getD {} with gapBudgetExhausted := true }).get? n
      = cellOf n (h ++ [.exhausted nodeId]) := by
  refine cellOf_marked n hcell nodeId (.exhausted nodeId)
    (fun c => { c with gapBudgetExhausted := true }) (fun _ => rfl) ?_
  simp only [summary, CoverageCell.withItems, List.any_append, List.any_cons, List.any_nil,
    List.flatMap_append, List.flatMap_cons, List.flatMap_nil, Bool.or_false, List.append_nil,
    Evidence.items, Evidence.isFailed, Evidence.isExhausted, Evidence.notAssessable,
    Evidence.forReview, Evidence.redFlags, decide_true, Bool.or_true]

end Coverage

section Runs
variable [Scalars] {cfg : OrchestratorConfig} {s s' : SessionState} {e : Event}
  {out : List Command}

/-- An assessor's result, or the lack of one. -/
def Event.isAssessment : Event → Bool
  | .assessmentCompleted .. | .assessmentFailed .. => true
  | _ => false

/-- What the machine finds out from an event: the results of assessments that
    are still out, and the answers that exhaust a budget. -/
def evidenceOf (cfg : OrchestratorConfig) (s : SessionState) (e : Event) : List Evidence :=
  match e with
  | .assessmentCompleted forTurnId output _ =>
      if live s ∧ forTurnId ∈ s.tech.pendingAssessments then [.assessed output] else []
  | .assessmentFailed forTurnId _ _ =>
      if live s ∧ forTurnId ∈ s.tech.pendingAssessments then
        (s.tech.assessmentFocus.get? forTurnId).toList.map .failed
      else []
  | .candidateTurnReceived .. =>
      match currentCompetency s, verdictOn cfg s e with
      | .ok c, some verdict =>
          if verdict.gapMarker = some .gapBudgetExhausted then [.exhausted c.nodeId] else []
      | _, _ => []
  | _ => []

/-- Everything a run found out, in order. -/
def history (cfg : OrchestratorConfig) (ts : List (Taken SessionState Event Command)) :
    List Evidence :=
  ts.flatMap (fun t => evidenceOf cfg t.before t.event)

omit [Scalars] in
theorem Answer.currentCompetency {now : Instant} (a : Answer s now) :
    currentCompetency s = .ok a.competency := by
  rw [TechScreen.currentCompetency, requirePlan, a.hplan]
  simp only [bind, Except.bind, a.hcompetency]

omit [Scalars] in
/-- The verdict on an answer is the one its adjudication computes. -/
theorem Answer.verdictOn {turnId : Uuid} {text : String} {now : Instant} (a : Answer s now)
    (hawaits : awaitsAnswer s (.candidateTurnReceived turnId text now) = true) :
    verdictOn cfg s (.candidateTurnReceived turnId text now) = some (a.verdict cfg) := by
  simp only [TechScreen.verdictOn, hawaits, if_true, a.currentCompetency, a.hremaining]
  rfl

omit [Scalars] in
/-- Only a competency that is left has a gap to record. -/
theorem Answer.gapMarker_of_stays {now : Instant} (a : Answer s now)
    (h : (a.verdict cfg).verdict ≠ .none) : (a.verdict cfg).gapMarker = none := by
  rcases adjudicate_cases (s.tech.coverage.get? a.competency.nodeId) a.competency.targetLevel
    s.tech.probesUsed a.remaining cfg with ⟨_, hv⟩ | ⟨_, hv⟩ | hv | ⟨_, hv⟩ | ⟨_, hv⟩
  · rw [Answer.verdict, hv]
  · exact absurd (by rw [Answer.verdict, hv]) h
  · exact absurd (by rw [Answer.verdict, hv]) h
  · exact absurd (by rw [Answer.verdict, hv]) h
  · rw [Answer.verdict, hv]

omit [Scalars] in
/-- An answer marks the cell of its competency if it exhausts the budget. -/
theorem Answer.coverage_leaving {now : Instant} (a : Answer s now) (turnId : Uuid) :
    (a.leaving cfg turnId).coverage
      = if (a.verdict cfg).gapMarker = some .gapBudgetExhausted then
          s.tech.coverage.set a.competency.nodeId
            { (s.tech.coverage.get? a.competency.nodeId).getD {} with gapBudgetExhausted := true }
        else s.tech.coverage := by
  unfold Answer.leaving
  by_cases hnone : (a.verdict cfg).verdict = .none
  · rw [if_pos hnone, markGap]
    by_cases hmarker : (a.verdict cfg).gapMarker = some .gapBudgetExhausted
    · rw [if_pos hmarker, if_pos hmarker]
      rfl
    · rw [if_neg hmarker, if_neg hmarker]
      rfl
  · rw [if_neg hnone, a.gapMarker_of_stays hnone, if_neg (by simp only [reduceCtorEq,
      not_false_eq_true])]
    rfl

/-- An answer that TECH waits for is adjudicated, and changes at most the cell of
    its competency. -/
theorem answer_of_edge {turnId : Uuid} {text : String} {now : Instant}
    (hedge : Edge cfg s (.candidateTurnReceived turnId text now) s' out)
    (hawaits : awaitsAnswer s (.candidateTurnReceived turnId text now) = true) :
    ∃ a : Answer s now, s'.tech.coverage
      = if (a.verdict cfg).gapMarker = some .gapBudgetExhausted then
          s.tech.coverage.set a.competency.nodeId
            { (s.tech.coverage.get? a.competency.nodeId).getD {} with gapBudgetExhausted := true }
        else s.tech.coverage := by
  have hphase : s.phase = .tech := ((awaitsAnswer_iff _ _).mp hawaits).1.1
  -- An answer that stays on the competency leaves the coverage alone.
  have hstays : ∀ a : Answer s now, (a.verdict cfg).verdict ≠ .none →
      s.tech.coverage = if (a.verdict cfg).gapMarker = some .gapBudgetExhausted then
          s.tech.coverage.set a.competency.nodeId
            { (s.tech.coverage.get? a.competency.nodeId).getD {} with gapBudgetExhausted := true }
        else s.tech.coverage := by
    intro a ha
    rw [a.gapMarker_of_stays ha, if_neg (by simp only [reduceCtorEq, not_false_eq_true])]
  cases hedge with
  | ignored e hidle => exact absurd (hidle.symm.trans hawaits) Bool.false_ne_true
  | entered turnId text now p hp hplan => rw [hphase] at hp; exact absurd hp (by decide)
  | probed turnId text now a hp hawaiting hclarify hprobes =>
      exact ⟨a, hstays a (by rw [hclarify]; decide)⟩
  | seeded turnId text now a seed hp hawaiting hanswered hseed =>
      exact ⟨a, hstays a (by rw [hanswered]; decide)⟩
  | advanced turnId text now a following hp hawaiting hleaves hnext =>
      exact ⟨a, a.coverage_leaving turnId⟩
  | finished turnId text now a hp hawaiting hleaves hlast =>
      exact ⟨a, a.coverage_leaving turnId⟩
  | asked turnId text now p hp hplan => rw [hphase] at hp; exact absurd hp (by decide)
  | closed e activity hp => rw [hphase] at hp; exact absurd hp (by decide)
  | completed e hp => rw [hphase] at hp; exact absurd hp (by decide)
  | aborted e reason decision persist hlive hn => exact absurd hn (by simp only
      [Event.isCandidateTurn, Bool.true_eq_false, not_false_eq_true])

/-- No other event touches the coverage. -/
theorem coverage_of_edge (hedge : Edge cfg s e s' out) (hturn : awaitsAnswer s e = false)
    (hassessment : e.isAssessment = false) : s'.tech.coverage = s.tech.coverage := by
  have hwaits : ∀ {turnId : Uuid} {text : String} {now : Instant}, s.phase = .tech →
      s.awaiting = some .candidate →
      awaitsAnswer s (.candidateTurnReceived turnId text now) = false → False := by
    intro turnId text now hp ha hw
    simp only [awaitsAnswer, hp, ha, Event.isCandidateTurn, decide_true, Bool.and_self,
      Bool.true_eq_false] at hw
  cases hedge with
  | probed turnId text now a hphase hawaiting hclarify hprobes =>
      exact (hwaits hphase hawaiting hturn).elim
  | seeded turnId text now a seed hphase hawaiting hanswered hseed =>
      exact (hwaits hphase hawaiting hturn).elim
  | advanced turnId text now a following hphase hawaiting hleaves hnext =>
      exact (hwaits hphase hawaiting hturn).elim
  | finished turnId text now a hphase hawaiting hleaves hlast =>
      exact (hwaits hphase hawaiting hturn).elim
  | delivered turnId output now hphase hawaiting hpending =>
      rcases noteDrift_fst s output.internalMoveExecuted cfg with ⟨drift, hdrift⟩
      simp only [delivered, hdrift]
  | assessed | assessmentFailed => exact absurd hassessment Bool.true_eq_false_eq_False
  | ignored | opened | entered | cutShort | asked | closed | completed | aborted | retried
  | reconnected => rfl

/-- One step finds out what its event brings, and records it. -/
theorem coverage_step {h : List Evidence} (hstep : step cfg s e = .ok (s', out))
    (hcover : ∀ n, s.tech.coverage.get? n = cellOf n h) :
    ∀ n, s'.tech.coverage.get? n = cellOf n (h ++ evidenceOf cfg s e) := by
  intro n
  have htransition := (step_eq_ok_iff cfg s s' e out).mp hstep
  have hedge : Edge cfg s e s' out := edge_of_transition htransition
  by_cases hassessment : e.isAssessment = true
  · -- A result counts if its turn is pending and the session live.
    by_cases hlive : live s
    · cases e with
      | assessmentCompleted forTurnId output now =>
          rw [transition, if_neg hlive] at htransition
          by_cases hpending : forTurnId ∈ s.tech.pendingAssessments
          · rw [onAssessmentCompleted, if_neg (not_not.mpr hpending)] at htransition
            rw [evidenceOf, if_pos ⟨hlive, hpending⟩, ← congrArg (fun r => r.newState.tech.coverage)
              (Except.ok.inj htransition)]
            exact cellOf_assessed n (hcover n) output
          · rw [onAssessmentCompleted, if_pos hpending] at htransition
            rw [evidenceOf, if_neg (fun hc => hpending hc.2), List.append_nil,
              ← congrArg (fun r => r.newState.tech.coverage) (Except.ok.inj htransition)]
            exact hcover n
      | assessmentFailed forTurnId errorKind now =>
          rw [transition, if_neg hlive] at htransition
          by_cases hpending : forTurnId ∈ s.tech.pendingAssessments
          · rw [onAssessmentFailed_eq s forTurnId hpending] at htransition
            rw [evidenceOf, if_pos ⟨hlive, hpending⟩, ← congrArg (fun r => r.newState.tech.coverage)
              (Except.ok.inj htransition)]
            dsimp only [failedTech]
            cases s.tech.assessmentFocus.get? forTurnId with
            | none =>
                rw [Option.toList_none, List.map_nil, List.append_nil]
                exact hcover n
            | some nodeId => exact cellOf_failed n hcover nodeId
          · rw [onAssessmentFailed, if_pos hpending] at htransition
            rw [evidenceOf, if_neg (fun hc => hpending hc.2), List.append_nil,
              ← congrArg (fun r => r.newState.tech.coverage) (Except.ok.inj htransition)]
            exact hcover n
      | sessionStarted | candidateTurnReceived | interviewerReplyReady | interviewerFailed
      | timerTick | reconnected | operatorAbort =>
          exact absurd hassessment Bool.false_ne_true
    · have hnone : evidenceOf cfg s e = [] := by
        cases e with
        | assessmentCompleted forTurnId output now =>
            rw [evidenceOf, if_neg (fun hc => hlive hc.1)]
        | assessmentFailed forTurnId errorKind now =>
            rw [evidenceOf, if_neg (fun hc => hlive hc.1)]
        | sessionStarted | candidateTurnReceived | interviewerReplyReady | interviewerFailed
        | timerTick | reconnected | operatorAbort =>
            exact absurd hassessment Bool.false_ne_true
      unfold transition at htransition
      rw [if_pos (not_not.mp hlive)] at htransition
      rw [hnone, List.append_nil,
        ← congrArg (fun r => r.newState.tech.coverage) (Except.ok.inj htransition)]
      exact hcover n
  rw [Bool.not_eq_true] at hassessment
  by_cases hawaits : awaitsAnswer s e = true
  · -- An answer marks its competency if it exhausts the budget.
    have hcandidate : e.isCandidateTurn = true := ((awaitsAnswer_iff _ _).mp hawaits).2
    cases e with
    | candidateTurnReceived turnId text now =>
        obtain ⟨a, hcoverage⟩ := answer_of_edge hedge hawaits
        rw [hcoverage]
        simp only [evidenceOf, a.currentCompetency, a.verdictOn hawaits]
        by_cases hmarker : (a.verdict cfg).gapMarker = some .gapBudgetExhausted
        · rw [if_pos hmarker, if_pos hmarker]
          exact cellOf_exhausted n hcover a.competency.nodeId
        · rw [if_neg hmarker, if_neg hmarker, List.append_nil]
          exact hcover n
    | sessionStarted | interviewerReplyReady | interviewerFailed | assessmentCompleted
    | assessmentFailed | timerTick | reconnected | operatorAbort =>
        exact absurd hcandidate Bool.false_ne_true
  · -- Nothing else is found out, and nothing else is recorded.
    rw [Bool.not_eq_true] at hawaits
    have hnone : evidenceOf cfg s e = [] := by
      cases e with
      | candidateTurnReceived turnId text now =>
          simp only [evidenceOf, verdictOn_eq_none hawaits]
          cases currentCompetency s <;> rfl
      | assessmentCompleted | assessmentFailed =>
          exact absurd hassessment Bool.true_eq_false_eq_False
      | sessionStarted | interviewerReplyReady | interviewerFailed | timerTick | reconnected
      | operatorAbort => rfl
    rw [hnone, List.append_nil, coverage_of_edge hedge hawaits hassessment]
    exact hcover n

/-- The coverage of every state reached is read off what the run found out. -/
theorem coverage_of_run {sessionId : Uuid} {planInput : Dict String Json}
    {ts : List (Taken SessionState Event Command)}
    (h : SessionRun cfg sessionId planInput ts s) :
    ∀ n, s.tech.coverage.get? n = cellOf n (history cfg ts) := by
  induction h with
  | nil => exact fun n => rfl
  | snoc ts s s' e out hrun hstep ih =>
      rw [history, List.flatMap_append, List.flatMap_singleton]
      exact coverage_step hstep ih

end Runs

section Table

/-- The items about a node in the accepted outputs, in order. -/
def itemsIn (n : String) (H : List AssessorOutput) : List AssessmentItem :=
  H.flatMap (fun output => itemsOn n output.assessments)

/-- The 2/1/0 table on the accepted outputs: the verdict, and the gap it leaves.
    The champion of the items is the latest of those at the greatest level. -/
def verdictFromHistory (H : List AssessorOutput) (n : String) (target probesUsed : Int)
    (remaining : ℚ) (cfg : OrchestratorConfig) : Verdict × Option GapMarker :=
  if (champion AssessmentItem.score (itemsIn n H)).any (fun best =>
      best.score ≥ target && best.confidence ≥ cfg.adjudication.confidenceMin) then
    (.answered, none)
  else if (itemsIn n H).getLast?.any (fun latest => latest.level = 0) then
    (.none, some .levelZero)
  else if probesUsed ≥ cfg.adjudication.maxProbesPerCompetency ∨
      remaining ≤ cfg.adjudication.minProbeSeconds then
    (.none, some .gapBudgetExhausted)
  else if H.any (fun output => output.competencyFocus = n && output.assessments.isEmpty) ∧
      probesUsed ≥ 1 then
    (.none, some .gapNotAssessable)
  else (.clarify, none)

theorem outputsIn_assessed (output : AssessorOutput) (h : List Evidence) :
    outputsIn (.assessed output :: h) = output :: outputsIn h := rfl

theorem itemsIn_outputsIn (n : String) (h : List Evidence) :
    itemsIn n (outputsIn h) = h.flatMap (Evidence.items n) := by
  induction h with
  | nil => rfl
  | cons e h ih =>
      cases e with
      | assessed output =>
          rw [outputsIn_assessed, itemsIn, List.flatMap_cons, List.flatMap_cons, ← ih]
          rfl
      | failed nodeId => exact ih
      | exhausted nodeId => exact ih

theorem any_outputsIn (n : String) (h : List Evidence) :
    (outputsIn h).any (fun output => output.competencyFocus = n && output.assessments.isEmpty)
      = h.any (Evidence.notAssessable n) := by
  induction h with
  | nil => rfl
  | cons e h ih =>
      cases e with
      | assessed output =>
          rw [outputsIn_assessed, List.any_cons, List.any_cons, ← ih]
          rfl
      | failed nodeId => exact ih
      | exhausted nodeId => exact ih

/-- A reading of the cell that an empty one fails is a reading of the summary. -/
theorem read_cellOf (n : String) (h : List Evidence) (read : CoverageCell → Bool)
    (hempty : read {} = false) : (cellOf n h).any read = read (summary n h) := by
  have hd := getD_cellOf n h
  cases hc : cellOf n h with
  | none =>
      rw [hc, Option.getD_none] at hd
      rw [← hd, hempty, Option.any_none]
  | some cell =>
      rw [hc, Option.getD_some] at hd
      rw [← hd, Option.any_some]

/-- The table on a cell that was read off a history is the table on the
    history. -/
theorem adjudicate_cellOf (n : String) (h : List Evidence) (target probesUsed : Int)
    (remaining : ℚ) (cfg : OrchestratorConfig) :
    ((adjudicate (cellOf n h) target probesUsed remaining cfg).verdict,
        (adjudicate (cellOf n h) target probesUsed remaining cfg).gapMarker)
      = verdictFromHistory (outputsIn h) n target probesUsed remaining cfg := by
  -- Each row of the table is read off the cell, and then off the outputs.
  have hanswered : isAnswered (cellOf n h) target cfg
      = (champion AssessmentItem.score (itemsIn n (outputsIn h))).any (fun best =>
          best.score ≥ target && best.confidence ≥ cfg.adjudication.confidenceMin) := by
    rw [itemsIn_outputsIn]
    have hread : ∀ cell, isAnswered cell target cfg
        = cell.any (fun c => isAnswered (some c) target cfg) := by
      intro cell
      cases cell <;> rfl
    rw [hread, read_cellOf n h _ rfl]
    unfold summary CoverageCell.withItems isAnswered
    cases champion AssessmentItem.score (h.flatMap (Evidence.items n)) <;> rfl
  have hzero : isLevelZero (cellOf n h)
      = (itemsIn n (outputsIn h)).getLast?.any (fun latest => latest.level = 0) := by
    rw [itemsIn_outputsIn]
    have hread : ∀ cell, isLevelZero cell = cell.any (fun c => isLevelZero (some c)) := by
      intro cell
      cases cell <;> rfl
    rw [hread, read_cellOf n h _ rfl]
    unfold summary CoverageCell.withItems isLevelZero
    cases (h.flatMap (Evidence.items n)).getLast? with
    | none => rfl
    | some latest =>
        simp only [Option.map_some, Option.some.injEq, Option.any_some, decide_eq_decide]
        constructor
        · exact fun hc => Fin.ext (Int.ofNat_inj.mp hc)
        · intro hc
          rw [AssessmentItem.score, hc]
          rfl
  have hgap : isNotAssessable (cellOf n h)
      = (outputsIn h).any (fun output =>
          output.competencyFocus = n && output.assessments.isEmpty) := by
    rw [any_outputsIn]
    have hread : ∀ cell, isNotAssessable cell = cell.any (fun c => isNotAssessable (some c)) := by
      intro cell
      cases cell <;> rfl
    rw [hread, read_cellOf n h _ rfl]
    rfl
  -- With the same readings, the two tables are the same one.
  unfold adjudicate verdictFromHistory
  rw [hanswered, hzero, hgap]
  split_ifs <;> rfl

/-- What the commands of a step make of a verdict: the gap that they record, and
    whether they probe. -/
structure ActedOn (competency : PlannedCompetency) (verdict : Adjudication) (out : List Command) :
    Prop where
  gap : ∀ g, .recordGap g ∈ out ↔ verdict.verdict = .none ∧
    g = ⟨competency.nodeId, verdict.gapMarker.getD .gapBudgetExhausted⟩
  probe : (∃ call, .runInterviewer call ∈ out ∧ call.move = .depthProbe) ↔
    verdict.verdict = .clarify

/-- An answer that leaves its competency records the gap of its verdict and no probe. -/
theorem Answer.actedOn_of_leaves {cfg : OrchestratorConfig} {s : SessionState} {now : Instant}
    (a : Answer s now) (hleaves : a.leaves cfg) {assessor : RunAssessor} {call : RunInterviewer}
    (hmove : call.move ≠ .depthProbe) :
    ActedOn a.competency (a.verdict cfg)
      (.runAssessor assessor :: .runInterviewer call :: (a.gap cfg ++ [.persistState])) := by
  have hnoCall : ∀ c, Command.runInterviewer c ∉ a.gap cfg := by
    intro c hmem
    unfold Answer.gap at hmem
    split at hmem
    · exact absurd (List.mem_singleton.mp hmem) (by simp)
    · exact absurd hmem List.not_mem_nil
  constructor
  · intro g
    by_cases hnone : (a.verdict cfg).verdict = .none
    · simp [Answer.gap, hnone]
    · simp [Answer.gap, hnone]
  · -- Both ways of leaving rule a probe out.
    have hclarify : (a.verdict cfg).verdict ≠ .clarify := by
      rcases hleaves with hnone | ⟨hanswered, -⟩
      · rw [hnone]
        decide
      · rw [hanswered]
        decide
    refine iff_of_false ?_ hclarify
    rintro ⟨c, hc, hprobe⟩
    simp only [List.mem_cons, List.mem_append, reduceCtorEq, false_or, List.not_mem_nil, or_false,
      hnoCall, Command.runInterviewer.injEq] at hc
    rw [hc] at hprobe
    exact hmove hprobe

/-- An answer that TECH waits for is acted on by its verdict. -/
theorem acted_of_edge [Scalars] {cfg : OrchestratorConfig} {s s' : SessionState} {turnId : Uuid}
    {text : String} {now : Instant} {out : List Command}
    (hedge : Edge cfg s (.candidateTurnReceived turnId text now) s' out)
    (hawaits : awaitsAnswer s (.candidateTurnReceived turnId text now) = true) :
    ∃ a : Answer s now, ActedOn a.competency (a.verdict cfg) out := by
  have hphase : s.phase = .tech := ((awaitsAnswer_iff _ _).mp hawaits).1.1
  cases hedge with
  | ignored e hidle => exact absurd (hidle.symm.trans hawaits) Bool.false_ne_true
  | entered turnId text now p hp hplan => rw [hphase] at hp; exact absurd hp (by decide)
  | probed turnId text now a hp hawaiting hclarify hprobes =>
      refine ⟨a, ⟨fun g => ?_, ?_⟩⟩
      · simp [hclarify]
      · refine iff_of_true ⟨_, List.mem_cons_of_mem _ List.mem_cons_self, rfl⟩ hclarify
  | seeded turnId text now a seed hp hawaiting hanswered hseed =>
      refine ⟨a, ⟨fun g => ?_, ?_⟩⟩
      · simp [hanswered]
      · simp [hanswered, interviewerCommand]
  | advanced turnId text now a following hp hawaiting hleaves hnext =>
      refine ⟨a, a.actedOn_of_leaves hleaves ?_⟩
      unfold interviewerCommand Answer.advanceMove
      dsimp only
      split <;> decide
  | finished turnId text now a hp hawaiting hleaves hlast =>
      refine ⟨a, a.actedOn_of_leaves hleaves ?_⟩
      unfold interviewerCommand
      dsimp only
      decide
  | asked turnId text now p hp hplan => rw [hphase] at hp; exact absurd hp (by decide)
  | closed e activity hp => rw [hphase] at hp; exact absurd hp (by decide)
  | completed e hp => rw [hphase] at hp; exact absurd hp (by decide)
  | aborted e reason decision persist hlive hn => exact absurd hn (by simp only
      [Event.isCandidateTurn, Bool.true_eq_false, not_false_eq_true])

/-- The coverage that a session has reached is the fold of its raw history, and
    the verdict it computes on an answer, and acts on, is the 2/1/0 table on the
    outputs it has accepted. -/
theorem verdict_of_history [Scalars] (cfg : OrchestratorConfig) (sessionId : Uuid)
    (planInput : Dict String Json) (ts : List (Taken SessionState Event Command))
    (s : SessionState) (hrun : SessionRun cfg sessionId planInput ts s) :
    (∀ n, s.tech.coverage.get? n = cellOf n (history cfg ts)) ∧
      ∀ (turnId : Uuid) (text : String) (now : Instant) (r : TransitionResult),
        transition s (.candidateTurnReceived turnId text now) cfg = .ok r →
        awaitsAnswer s (.candidateTurnReceived turnId text now) = true →
        ∃ c remaining verdict, currentCompetency s = .ok c ∧
          secondsRemaining c s.tech.competencyStartedAt now = .ok remaining ∧
          verdictOn cfg s (.candidateTurnReceived turnId text now) = some verdict ∧
          ActedOn c verdict r.commands ∧
          (verdict.verdict, verdict.gapMarker)
            = verdictFromHistory (outputsIn (history cfg ts)) c.nodeId c.targetLevel
                s.tech.probesUsed remaining cfg := by
  have hcover := coverage_of_run hrun
  refine ⟨hcover, ?_⟩
  intro turnId text now r htransition hawaits
  obtain ⟨a, hacted⟩ := acted_of_edge (edge_of_transition htransition) hawaits
  refine ⟨a.competency, a.remaining, a.verdict cfg, a.currentCompetency, a.hremaining,
    a.verdictOn hawaits, hacted, ?_⟩
  unfold Answer.verdict
  rw [hcover]
  exact adjudicate_cellOf _ _ _ _ _ _

/-- The second answer of the small interview. -/
def secondAnswer : Event := .candidateTurnReceived ⟨102⟩ "another" 6000000

/-- On the second answer of the small interview the first one has been assessed
    at level 3, so the competency is answered. -/
theorem verdict_of_history_small : ∃ ts s c remaining verdict, SmallRun ts s ∧
    currentCompetency s = .ok c ∧
    verdictOn OrchestratorConfig.committed s secondAnswer = some verdict ∧
    verdict.verdict = .answered ∧
    (verdict.verdict, verdict.gapMarker)
      = verdictFromHistory (outputsIn (history OrchestratorConfig.committed ts)) c.nodeId
          c.targetLevel s.tech.probesUsed remaining OrchestratorConfig.committed := by
  have hrec : (smallRecord (smallEvents.take 6)).map (fun r =>
      ((@transition Scalars.strict r.2 secondAnswer OrchestratorConfig.committed).toOption.isSome,
        awaitsAnswer r.2 secondAnswer,
        (verdictOn OrchestratorConfig.committed r.2 secondAnswer).map Adjudication.verdict))
      = .ok (true, true, some .answered) := by decide +kernel
  rcases exists_run_of_record _ _ _ _ _ hrec with ⟨ts, s, hrun, hproj⟩
  simp only [Prod.mk.injEq] at hproj
  obtain ⟨hok, hawaits, hanswered⟩ := hproj
  obtain ⟨r, hr⟩ : ∃ r, @transition Scalars.strict s secondAnswer OrchestratorConfig.committed
      = .ok r := by
    cases h : @transition Scalars.strict s secondAnswer OrchestratorConfig.committed with
    | error x => rw [h] at hok; exact absurd hok Bool.false_ne_true
    | ok r => exact ⟨r, rfl⟩
  obtain ⟨c, remaining, verdict, hc, _, hverdict, _, htable⟩ :=
    (@verdict_of_history Scalars.strict _ _ _ ts s hrun).2 _ _ _ r hr hawaits
  refine ⟨ts, s, c, remaining, verdict, hrun, hc, hverdict, ?_, htable⟩
  rw [secondAnswer, hverdict] at hanswered
  exact Option.some.inj hanswered

end Table

end TechScreen
