import TechScreen.Orchestrator.Phases
import TechScreen.Lib.Lockstep

/-!
# Locality of the Adjudication

What an assessment about one competency can do to the verdicts on another.
Two sessions are held beside each other that differ in the assessments of
outputs for other competencies than `c`. Up to the answer that brings them to
`c` they may take different moves through the plan; what they have in common
is what routing will read once they are there: the turn in flight, the clocks,
the assessments that are still out and the coverage of `c`.

A session that has arrived at `c` reads no other cell. From there on the two
compute the same verdicts and issue the same moves, whatever is assessed about
the competencies that they came through.

## Main definitions

* `OnNode`: The interview is on a competency with this node.
* `verdictOn`: The verdict that an event makes the machine compute.
* `SameBut`: The same event, but for an assessment with another focus.
* `itemsAbout`: What an event assesses a node at.
* `Beside`: Two sessions that agree on everything that is read on `c`.
* `SameDecision`: Two steps that decide alike.

## Theorems

* `Beside.step`: What is kept by a step that adjudicates nothing.
* `Beside.adjudicated`: What is kept, and decided, by an answer on `c`.
* `arrive_together`: Two sessions that first arrive at `c` on the same event.
* `adjudication_local`: They decide alike until one leaves `c`.
-/

namespace TechScreen

open Lib

/-- The interview is on a competency with node `c`. -/
def OnNode (c : String) (s : SessionState) : Prop :=
  s.phase = .tech ∧ ∃ plan q, s.plan = some plan ∧
    plan.competency s.tech.competencyIndex = some q ∧ q.nodeId.val = c

theorem onNode_iff (c : String) (s : SessionState) : OnNode c s ↔ s.phase = .tech ∧
    (s.plan.bind (fun plan => plan.competency s.tech.competencyIndex)).map (fun q => q.nodeId.val)
      = some c := by
  simp only [OnNode, Option.map_eq_some_iff, Option.bind_eq_some_iff]
  refine and_congr_right (fun _ => ?_)
  constructor
  · rintro ⟨plan, q, hplan, hq, hc⟩
    exact ⟨q, ⟨plan, hplan, hq⟩, hc⟩
  · rintro ⟨q, ⟨plan, hplan, hq⟩, hc⟩
    exact ⟨plan, q, hplan, hq, hc⟩

instance (c : String) (s : SessionState) : Decidable (OnNode c s) :=
  decidable_of_iff _ (onNode_iff c s).symm

/-- The verdict that an event makes the machine compute, if it makes it compute
    one: edges 10 to 13 adjudicate an answer that TECH waits for. -/
def verdictOn (cfg : OrchestratorConfig) (s : SessionState) (e : Event) : Option Adjudication :=
  match e with
  | .candidateTurnReceived _ _ now =>
      if awaitsAnswer s e = true then
        match currentCompetency s with
        | .ok q =>
            match secondsRemaining q s.tech.competencyStartedAt now with
            | .ok remaining =>
                some (adjudicate (s.tech.coverage.get? q.nodeId) q.targetLevel s.tech.probesUsed
                  remaining cfg)
            | .error _ => none
        | .error _ => none
      else none
  | _ => none

/-- The same event, or the same assessor output with another focus than `c` and
    other assessments in it. -/
inductive SameBut (c : String) : Event → Event → Prop
  | same (e : Event) : SameBut c e e
  | assessed (forTurnId : Uuid) (output : AssessorOutput) (assessments : List AssessmentItem)
      (now : Instant) (hfocus : output.competencyFocus ≠ c) :
      SameBut c (.assessmentCompleted forTurnId output now)
        (.assessmentCompleted forTurnId { output with assessments := assessments } now)

/-- The items that are about the node `c`. -/
def itemsOn (c : String) (items : List AssessmentItem) : List AssessmentItem :=
  items.filter (fun item => item.rubricNodeId = c)

/-- What an event assesses the node `c` at. -/
def itemsAbout (c : String) : Event → List AssessmentItem
  | .assessmentCompleted _ output _ => itemsOn c output.assessments
  | _ => []

/-- Where the session is in the plan. -/
def TechState.position (tech : TechState) : Int × Int × Int × Option Instant :=
  (tech.competencyIndex, tech.seedIndex, tech.probesUsed, tech.competencyStartedAt)

section Blur
variable (blind : Uuid → Bool)

/-- A move with what was asked left out, where it is not looked at. -/
def RunInterviewer.blur (c : RunInterviewer) : RunInterviewer :=
  if blind c.turnId then { turnId := c.turnId, move := .askSeed, retry := c.retry } else c

def PendingCommand.blur : PendingCommand → PendingCommand
  | .runInterviewer c => .runInterviewer (c.blur blind)
  | c => c

def Command.blur : Command → Command
  | .runInterviewer c => .runInterviewer (c.blur blind)
  | .reissuePendingCommand c => .reissuePendingCommand (c.blur blind)
  | c => c

theorem PendingCommand.turnId_blur (c : PendingCommand) : (c.blur blind).turnId = c.turnId := by
  cases c with
  | runInterviewer c =>
      simp only [PendingCommand.blur, RunInterviewer.blur, PendingCommand.turnId]
      split <;> rfl
  | deliverUtterance c | emitScriptedOpening c | emitScriptedClosing c => rfl

/-- Marking a move as a retry commutes with the blur. -/
theorem RunInterviewer.blur_retry (c : RunInterviewer) :
    ({ c with retry := true } : RunInterviewer).blur blind
      = { c.blur blind with retry := true } := by
  unfold RunInterviewer.blur
  dsimp only
  split <;> rfl

end Blur

/-- The technical sub-states agree on what is read on `c`. -/
structure TechBeside (c : String) (T T' : TechState) : Prop where
  pending : T.pendingAssessments = T'.pendingAssessments
  cell : T.coverage.get? c = T'.coverage.get? c
  focus : ∀ id, T.assessmentFocus.get? id = some c ↔ T'.assessmentFocus.get? id = some c

/-- Two sessions that agree on everything that is read on `c`, but for their
    position in the plan; the moves of some turns are not looked at. -/
structure Beside (c : String) (blind : Uuid → Bool) (s t : SessionState) : Prop where
  sessionId : s.sessionId = t.sessionId
  phase : s.phase = t.phase
  awaiting : s.awaiting = t.awaiting
  planInput : s.planInput = t.planInput
  plan : s.plan = t.plan
  tech : TechBeside c s.tech t.tech
  streak : s.interviewerFailureStreak = t.interviewerFailureStreak
  turnSeq : s.turnSeq = t.turnSeq
  sessionStartedAt : s.sessionStartedAt = t.sessionStartedAt
  qaStartedAt : s.qaStartedAt = t.qaStartedAt
  activity : s.lastCandidateActivity = t.lastCandidateActivity
  pendingCommand : s.pendingCommand.map (PendingCommand.blur blind)
    = t.pendingCommand.map (PendingCommand.blur blind)

section Coverage
variable {c : String}

theorem recordItem_of_ne (coverage : Dict String CoverageCell) (item : AssessmentItem)
    (h : item.rubricNodeId ≠ c) : (recordItem coverage item).get? c = coverage.get? c := by
  unfold recordItem
  exact Dict.get?_set_of_ne _ _ _ _ (Ne.symm h)

/-- An item changes the cell of its own node, by what that cell was. -/
theorem recordItem_congr {coverage coverage' : Dict String CoverageCell}
    (h : coverage.get? c = coverage'.get? c) (item : AssessmentItem)
    (hitem : item.rubricNodeId = c) :
    (recordItem coverage item).get? c = (recordItem coverage' item).get? c := by
  simp only [recordItem, hitem, Dict.get?_set_self, h]

/-- The items about a node decide its cell. -/
theorem foldl_recordItem_congr (items items' : List AssessmentItem)
    (hitems : itemsOn c items = itemsOn c items')
    {coverage coverage' : Dict String CoverageCell} (h : coverage.get? c = coverage'.get? c) :
    (items.foldl recordItem coverage).get? c = (items'.foldl recordItem coverage').get? c := by
  -- Both sides are compared with the fold over the items about the node alone.
  have hown : ∀ (l : List AssessmentItem) (d d' : Dict String CoverageCell),
      d.get? c = d'.get? c → (l.foldl recordItem d).get? c
        = ((itemsOn c l).foldl recordItem d').get? c := by
    intro l
    induction l with
    | nil => exact fun d d' hd => hd
    | cons item l ih =>
        intro d d' hd
        by_cases hitem : item.rubricNodeId = c
        · have hcons : itemsOn c (item :: l) = item :: itemsOn c l :=
            List.filter_cons_of_pos (by exact decide_eq_true hitem)
          rw [hcons, List.foldl_cons, List.foldl_cons]
          exact ih _ _ (recordItem_congr hd item hitem)
        · have hcons : itemsOn c (item :: l) = itemsOn c l :=
            List.filter_cons_of_neg (by exact fun hc => hitem (of_decide_eq_true hc))
          rw [hcons, List.foldl_cons]
          exact ih _ _ ((recordItem_of_ne d item hitem).trans hd)
  rw [hown items coverage coverage' h, hitems, hown items' coverage' coverage' rfl]

/-- An output for another competency reaches the cell of `c` only through its
    items about `c`. -/
theorem recordLevels_congr {output : AssessorOutput} (assessments : List AssessmentItem)
    (hfocus : output.competencyFocus ≠ c)
    (hitems : itemsOn c output.assessments = itemsOn c assessments)
    {coverage coverage' : Dict String CoverageCell} (h : coverage.get? c = coverage'.get? c) :
    (recordLevels coverage output).get? c
      = (recordLevels coverage' { output with assessments := assessments }).get? c := by
  -- An output without assessments marks its focus, which is not `c`.
  have hfold : ∀ (o : AssessorOutput) (d : Dict String CoverageCell),
      o.competencyFocus ≠ c →
        (recordLevels d o).get? c = (o.assessments.foldl recordItem d).get? c := by
    intro o d ho
    unfold recordLevels
    by_cases hempty : o.assessments = []
    · rw [if_pos hempty, hempty]
      exact Dict.get?_set_of_ne _ _ _ _ (Ne.symm ho)
    · rw [if_neg hempty]
  have hother := hfold { output with assessments := assessments } coverage' hfocus
  rw [hfold output coverage hfocus, hother]
  exact foldl_recordItem_congr _ _ hitems h

/-- The cell after an output depends on the cell before it. -/
theorem recordLevels_same (output : AssessorOutput)
    {coverage coverage' : Dict String CoverageCell} (h : coverage.get? c = coverage'.get? c) :
    (recordLevels coverage output).get? c = (recordLevels coverage' output).get? c := by
  unfold recordLevels
  by_cases hempty : output.assessments = []
  · rw [if_pos hempty, if_pos hempty]
    by_cases hfocus : c = output.competencyFocus
    · simp only [← hfocus, Dict.get?_set_self, h]
    · rw [Dict.get?_set_of_ne _ _ _ _ hfocus, Dict.get?_set_of_ne _ _ _ _ hfocus, h]
  · rw [if_neg hempty, if_neg hempty]
    exact foldl_recordItem_congr _ _ rfl h

/-- The review markers of an output leave every other cell alone. -/
theorem recordReviewSignals_congr {output output' : AssessorOutput}
    (hsame : output.competencyFocus = output'.competencyFocus)
    (hreview : output.needsManualReview = output'.needsManualReview)
    (hflags : output.redFlags = output'.redFlags)
    {coverage coverage' : Dict String CoverageCell} (h : coverage.get? c = coverage'.get? c) :
    (recordReviewSignals coverage output).get? c
      = (recordReviewSignals coverage' output').get? c := by
  unfold recordReviewSignals
  rw [← hsame, ← hreview, ← hflags]
  by_cases hfocus : c = output.competencyFocus
  · rw [← hfocus, Dict.get?_set_self, Dict.get?_set_self, h]
  · rw [Dict.get?_set_of_ne _ _ _ _ hfocus, Dict.get?_set_of_ne _ _ _ _ hfocus, h]

end Coverage

section Tech
variable {c : String} {T T' : TechState}

/-- Scheduling for the same turn, on competencies that are both `c` or both not. -/
theorem TechBeside.schedule (h : TechBeside c T T') (turnId : Uuid) {q q' : PlannedCompetency}
    (hq : q.nodeId.val = c ↔ q'.nodeId.val = c) :
    TechBeside c (scheduleAssessment T turnId q) (scheduleAssessment T' turnId q') where
  pending := by simp only [scheduleAssessment, h.pending]
  cell := h.cell
  focus := by
    intro id
    simp only [scheduleAssessment, Dict.get?_set]
    by_cases hid : id = turnId
    · simp only [if_pos hid, Option.some.injEq, hq]
    · simp only [if_neg hid, h.focus id]

theorem TechBeside.dropPending (h : TechBeside c T T') (turnId : Uuid) :
    TechBeside c (dropPending T turnId) (dropPending T' turnId) where
  pending := by simp only [TechScreen.dropPending, h.pending]
  cell := h.cell
  focus := by
    intro id
    simp only [TechScreen.dropPending]
    by_cases hid : id = turnId
    · simp only [hid, Dict.get?_erase_self, reduceCtorEq]
    · rw [Dict.get?_erase_of_ne _ _ _ hid, Dict.get?_erase_of_ne _ _ _ hid, h.focus id]

/-- A marker on the cell of one competency. -/
theorem TechBeside.markGap (h : TechBeside c T T') (q : PlannedCompetency)
    (marker : Option GapMarker) : TechBeside c (markGap T q marker) (markGap T' q marker) := by
  unfold TechScreen.markGap
  by_cases hmarker : marker = some .gapBudgetExhausted
  · rw [if_pos hmarker, if_pos hmarker]
    refine ⟨h.pending, ?_, h.focus⟩
    by_cases hq : c = q.nodeId
    · simp only [← hq, Dict.get?_set_self, h.cell]
    · simp only [Dict.get?_set_of_ne _ _ _ _ hq, h.cell]
  · rw [if_neg hmarker, if_neg hmarker]
    exact h

/-- The sub-state that a failed assessment leaves behind. -/
def failedTech (tech : TechState) (forTurnId : Uuid) : TechState :=
  match tech.assessmentFocus.get? forTurnId with
  | some nodeId =>
      { dropPending tech forTurnId with
        coverage := tech.coverage.set nodeId
          { (tech.coverage.get? nodeId).getD {} with assessmentFailed := true } }
  | none => dropPending tech forTurnId

/-- A failed assessment reaches the cell of `c` if it was scheduled for `c`. -/
theorem TechBeside.failed (h : TechBeside c T T') (forTurnId : Uuid) :
    TechBeside c (failedTech T forTurnId) (failedTech T' forTurnId) := by
  have hdrop := h.dropPending forTurnId
  -- Each side keeps the cell of `c`, unless the turn was scheduled for it.
  have hcell : ∀ U : TechState, (failedTech U forTurnId).coverage.get? c
      = if U.assessmentFocus.get? forTurnId = some c
        then some { (U.coverage.get? c).getD {} with assessmentFailed := true }
        else U.coverage.get? c := by
    intro U
    unfold failedTech
    cases hU : U.assessmentFocus.get? forTurnId with
    | none => rfl
    | some node =>
        by_cases hnode : node = c
        · simp only [hnode, Dict.get?_set_self, if_pos]
        · simp only [Option.some.injEq, if_neg hnode, Dict.get?_set_of_ne _ _ _ _ (Ne.symm hnode)]
  have hrest : ∀ U : TechState, (failedTech U forTurnId).pendingAssessments
        = (TechScreen.dropPending U forTurnId).pendingAssessments ∧
      (failedTech U forTurnId).assessmentFocus
        = (TechScreen.dropPending U forTurnId).assessmentFocus := by
    intro U
    unfold failedTech
    cases U.assessmentFocus.get? forTurnId with
    | none => exact ⟨rfl, rfl⟩
    | some node => exact ⟨rfl, rfl⟩
  refine ⟨?_, ?_, ?_⟩
  · rw [(hrest T).1, (hrest T').1]
    exact hdrop.pending
  · rw [hcell, hcell, h.cell]
    simp only [h.focus]
  · rw [(hrest T).2, (hrest T').2]
    exact hdrop.focus

end Tech

/-- Two results, where both computations have one. -/
def Both {α β : Type} (P : α → β → Prop) (x : Except OrchestratorError α)
    (y : Except OrchestratorError β) : Prop :=
  ∀ a b, x = .ok a → y = .ok b → P a b

theorem Both.ok {α β : Type} {P : α → β → Prop} {a : α} {b : β} (h : P a b) :
    Both P (.ok a) (.ok b) := by
  intro a' b' ha hb
  rw [← Except.ok.inj ha, ← Except.ok.inj hb]
  exact h

theorem Both.bind {α β γ : Type} {P : β → γ → Prop} (x : Except OrchestratorError α)
    {f : α → Except OrchestratorError β} {g : α → Except OrchestratorError γ}
    (h : ∀ a, x = .ok a → Both P (f a) (g a)) : Both P (x >>= f) (x >>= g) := by
  intro b d hb hd
  cases hx : x with
  | error err =>
      rw [hx] at hb
      cases hb
  | ok a =>
      rw [hx] at hb hd
      exact h a hx b d hb hd

/-- Two transitions from sessions beside each other that are beside each other
    still, and emit the same but for the moves that are not looked at. -/
def Alike (c : String) (blind : Uuid → Bool) (r r' : TransitionResult) : Prop :=
  Beside c blind r.newState r'.newState ∧
    r.commands.map (Command.blur blind) = r'.commands.map (Command.blur blind)

section Handlers
variable {c : String} {blind sharp : Uuid → Bool} {cfg : OrchestratorConfig}
  {s t : SessionState}

theorem Beside.requirePlan (h : Beside c blind s t) : requirePlan s = requirePlan t := by
  simp only [TechScreen.requirePlan, h.plan, h.phase]

theorem Beside.ignore (h : Beside c blind s t) : Alike c blind (ignore s) (ignore t) := ⟨h, rfl⟩

theorem Beside.answersPendingCommand (h : Beside c blind s t) (turnId : Uuid) :
    answersPendingCommand s turnId = answersPendingCommand t turnId := by
  have hids : s.pendingCommand.map PendingCommand.turnId
      = t.pendingCommand.map PendingCommand.turnId := by
    have hblur := congrArg (Option.map PendingCommand.turnId) h.pendingCommand
    rw [Option.map_map, Option.map_map] at hblur
    have hcomp : PendingCommand.turnId ∘ PendingCommand.blur blind = PendingCommand.turnId := by
      funext p
      exact p.turnId_blur blind
    rw [hcomp] at hblur
    exact hblur
  unfold TechScreen.answersPendingCommand
  cases hs : s.pendingCommand with
  | none =>
      rw [hs] at hids
      rw [Option.map_eq_none_iff.mp hids.symm]
  | some p =>
      rw [hs] at hids
      rcases Option.map_eq_some_iff.mp hids.symm with ⟨p', ht, hid⟩
      rw [ht]
      simp only [hid]

/-- A new move is the same on both sides, or is not looked at. -/
theorem Beside.command (h : Beside c blind s t) {move move' : InterviewerMove}
    {node node' : Option String} {ctx ctx' : Dict String Json}
    (hmove : sharp (deriveTurnId s.sessionId (turnPath s.turnSeq)) = true ∨
      (move = move' ∧ node = node' ∧ ctx = ctx')) :
    (interviewerCommand s move node ctx).blur sharp
      = (interviewerCommand t move' node' ctx').blur sharp := by
  rcases hmove with hblind | ⟨rfl, rfl, rfl⟩
  · have hblind' : sharp (deriveTurnId t.sessionId (turnPath t.turnSeq)) = true := by
      rw [← h.sessionId, ← h.turnSeq]
      exact hblind
    simp only [RunInterviewer.blur, interviewerCommand, hblind', if_true, h.sessionId, h.turnSeq]
  · simp only [interviewerCommand, h.sessionId, h.turnSeq]

/-- A new move replaces the one in flight, so it may be looked at more sharply. -/
theorem Beside.issue (h : Beside c blind s t) {move move' : InterviewerMove}
    {node node' : Option String} {ctx ctx' : Dict String Json}
    (hmove : sharp (deriveTurnId s.sessionId (turnPath s.turnSeq)) = true ∨
      (move = move' ∧ node = node' ∧ ctx = ctx')) :
    Beside c sharp (issueInterviewer s move node ctx).1
      (issueInterviewer t move' node' ctx').1 :=
  { h with
    awaiting := rfl
    streak := rfl
    turnSeq := by simp only [issueInterviewer, h.turnSeq]
    pendingCommand := by
      simp only [issueInterviewer, Option.map_some, PendingCommand.blur, h.command hmove] }

theorem Beside.abort (h : Beside c blind s t) (reason : AbortReason) (decision : DecisionReason)
    (persist : Bool) :
    Alike c blind (abort s reason decision persist) (abort t reason decision persist) :=
  ⟨{ h with phase := rfl, awaiting := rfl, pendingCommand := rfl }, rfl⟩

theorem Beside.enterClose (h : Beside c blind s t) :
    Alike c blind (enterClose s) (enterClose t) := by
  refine ⟨{ h with phase := rfl, awaiting := rfl, turnSeq := ?_, pendingCommand := ?_ }, ?_⟩
  · simp only [TechScreen.enterClose, h.turnSeq]
  · simp only [TechScreen.enterClose, h.turnSeq, h.sessionId]
  · simp only [TechScreen.enterClose, h.turnSeq, h.sessionId]

theorem Beside.complete (h : Beside c blind s t) : Alike c blind (complete s) (complete t) :=
  ⟨{ h with phase := rfl, awaiting := rfl, pendingCommand := rfl }, rfl⟩

/-- Both sessions hear the candidate. -/
theorem Beside.heard (h : Beside c blind s t) (now : Instant) :
    Beside c blind { s with lastCandidateActivity := some now }
      { t with lastCandidateActivity := some now } :=
  { h with activity := rfl }

/-- Both sessions move on to Q&A. -/
theorem Beside.inQa (h : Beside c blind s t) (now : Instant) :
    Beside c blind { s with phase := .qa, qaStartedAt := some now }
      { t with phase := .qa, qaStartedAt := some now } :=
  { h with phase := rfl, qaStartedAt := rfl }

theorem Beside.enterQa (h : Beside c blind s t) (now : Instant) :
    Both (fun r r' => Beside c blind r.1 r'.1 ∧ r.2.blur blind = r'.2.blur blind)
      (enterQa s now) (enterQa t now) := by
  unfold TechScreen.enterQa
  rw [h.requirePlan]
  refine Both.bind _ (fun plan _ => Both.ok ?_)
  exact ⟨(h.inQa now).issue (Or.inr ⟨rfl, rfl, rfl⟩), h.command (Or.inr ⟨rfl, rfl, rfl⟩)⟩

/-- Edges 14, 16, 17 and 18 read the phase and the clocks. -/
theorem Beside.onTimerTick (h : Beside c blind s t) (now : Instant) :
    Both (Alike c blind) (onTimerTick s now cfg) (onTimerTick t now cfg) := by
  have htimeout : candidateTimedOut s now cfg = candidateTimedOut t now cfg := by
    simp only [candidateTimedOut, h.activity]
  have hsession : sessionBudgetExhausted s now = sessionBudgetExhausted t now := by
    simp only [sessionBudgetExhausted, h.sessionStartedAt, h.plan]
  have hqa : qaBudgetExhausted s now = qaBudgetExhausted t now := by
    simp only [qaBudgetExhausted, h.qaStartedAt, h.plan]
  -- Both sides take the same branch, since all the clocks agree.
  unfold TechScreen.onTimerTick
  rw [htimeout, hsession, hqa, h.phase]
  refine Both.bind _ (fun timedOut _ => ?_)
  cases timedOut with
  | true => exact Both.ok (h.abort _ _ _)
  | false =>
      simp only [Bool.false_eq_true, if_false]
      cases t.phase with
      | tech =>
          refine Both.bind _ (fun exhausted _ => ?_)
          cases exhausted with
          | true =>
              intro r r' hr hr'
              simp only [if_true] at hr hr'
              -- Entering Q&A fails on both sides or on neither.
              rcases hq : TechScreen.enterQa s now with x | ⟨a, m⟩
              · rw [hq] at hr
                cases hr
              · rcases hq' : TechScreen.enterQa t now with x | ⟨a', m'⟩
                · rw [hq'] at hr'
                  cases hr'
                · rw [hq] at hr
                  rw [hq'] at hr'
                  cases hr
                  cases hr'
                  rcases h.enterQa now _ _ hq hq' with ⟨hst, hm⟩
                  exact ⟨hst, by simp only [List.map_cons, List.map_nil, Command.blur, hm]⟩
          | false => exact Both.ok h.ignore
      | qa =>
          refine Both.bind _ (fun exhausted _ => ?_)
          cases exhausted with
          | true => exact Both.ok h.enterClose
          | false =>
              refine Both.bind _ (fun qaExhausted _ => ?_)
              cases qaExhausted with
              | true => exact Both.ok h.enterClose
              | false => exact Both.ok h.ignore
      | close => exact Both.ok h.complete
      | created | intro | completed | aborted => exact Both.ok h.ignore

/-- Edge 4 delivers the reply to the turn in flight; drift changes no route. -/
theorem Beside.onInterviewerReply (h : Beside c blind s t) (turnId : Uuid)
    (output : InterviewerOutput) :
    Alike c blind (onInterviewerReply s turnId output cfg)
      (onInterviewerReply t turnId output cfg) := by
  unfold TechScreen.onInterviewerReply
  rw [h.answersPendingCommand, h.phase, h.awaiting]
  by_cases hanswers : (!TechScreen.answersPendingCommand t turnId) = true
  · rw [if_pos hanswers, if_pos hanswers]
    exact h.ignore
  rw [if_neg hanswers, if_neg hanswers]
  by_cases hclose : t.phase = .close
  · rw [if_pos hclose, if_pos hclose]
    exact h.complete
  rw [if_neg hclose, if_neg hclose]
  by_cases hidle : (t.phase ≠ .tech ∧ t.phase ≠ .qa) ∨ t.awaiting ≠ some .interviewer
  · rw [if_pos hidle, if_pos hidle]
    exact h.ignore
  rw [if_neg hidle, if_neg hidle]
  rcases noteDrift_fst s output.internalMoveExecuted cfg with ⟨drift, hdrift⟩
  rcases noteDrift_fst t output.internalMoveExecuted cfg with ⟨drift', hdrift'⟩
  refine ⟨{ h with
    phase := rfl, awaiting := rfl, streak := rfl, pendingCommand := rfl, tech := ?_ }, rfl⟩
  simp only [hdrift, hdrift']
  exact ⟨h.tech.pending, h.tech.cell, h.tech.focus⟩

/-- Edges 5 and 6: the turn in flight is asked again once, whatever its move. -/
theorem Beside.onInterviewerFailed (h : Beside c blind s t) (turnId : Uuid) (errorKind : String) :
    Alike c blind (onInterviewerFailed s turnId errorKind)
      (onInterviewerFailed t turnId errorKind) := by
  have hp := h.pendingCommand
  unfold TechScreen.onInterviewerFailed
  rw [h.answersPendingCommand, h.phase, h.awaiting, h.streak]
  by_cases hanswers : (!TechScreen.answersPendingCommand t turnId) = true
  · rw [if_pos hanswers, if_pos hanswers]
    exact h.ignore
  rw [if_neg hanswers, if_neg hanswers]
  by_cases hidle : (t.phase ≠ .tech ∧ t.phase ≠ .qa) ∨ t.awaiting ≠ some .interviewer
  · rw [if_pos hidle, if_pos hidle]
    exact h.ignore
  rw [if_neg hidle, if_neg hidle]
  -- The blur tells a move in flight from every other command.
  rcases hs : s.pendingCommand with _ | p <;> rcases ht : t.pendingCommand with _ | p' <;>
    rw [hs, ht] at hp <;> simp only [Option.map_none, Option.map_some, reduceCtorEq,
      Option.some.injEq] at hp
  · exact h.ignore
  · cases p with
    | runInterviewer pending =>
        cases p' with
        | runInterviewer pending' =>
            simp only [PendingCommand.blur, PendingCommand.runInterviewer.injEq] at hp
            have hretry : ({ pending with retry := true } : RunInterviewer).blur blind
                = ({ pending' with retry := true } : RunInterviewer).blur blind := by
              rw [RunInterviewer.blur_retry, RunInterviewer.blur_retry, hp]
            by_cases hstreak : t.interviewerFailureStreak ≥ 1
            · simp only [if_pos hstreak]
              exact h.abort _ _ _
            · simp only [if_neg hstreak]
              refine ⟨{ h with
                phase := rfl, awaiting := rfl, streak := rfl, pendingCommand := ?_ }, ?_⟩
              · simp only [Option.map_some, PendingCommand.blur, hretry]
              · simp only [List.map_cons, List.map_nil, Command.blur, hretry]
        | deliverUtterance p' | emitScriptedOpening p' | emitScriptedClosing p' =>
            simp only [PendingCommand.blur, reduceCtorEq] at hp
    | deliverUtterance p | emitScriptedOpening p | emitScriptedClosing p =>
        cases p' with
        | runInterviewer pending' => simp only [PendingCommand.blur, reduceCtorEq] at hp
        | deliverUtterance p' | emitScriptedOpening p' | emitScriptedClosing p' => exact h.ignore

/-- Edge 8: an output for another competency changes the cell of `c` through
    its items about `c`. -/
theorem Beside.onAssessmentCompleted (h : Beside c blind s t) (forTurnId : Uuid)
    {output output' : AssessorOutput} {now : Instant}
    (hsame : SameBut c (.assessmentCompleted forTurnId output now)
      (.assessmentCompleted forTurnId output' now))
    (hitems : itemsOn c output.assessments = itemsOn c output'.assessments) :
    Alike c blind (onAssessmentCompleted s forTurnId output cfg)
      (onAssessmentCompleted t forTurnId output' cfg) := by
  have hlevels : (recordLevels s.tech.coverage output).get? c
      = (recordLevels t.tech.coverage output').get? c := by
    cases hsame with
    | same => exact recordLevels_same output h.tech.cell
    | assessed _ _ assessments _ hfocus => exact recordLevels_congr _ hfocus hitems h.tech.cell
  have hcell : (recordReviewSignals (recordLevels s.tech.coverage output) output).get? c
      = (recordReviewSignals (recordLevels t.tech.coverage output') output').get? c := by
    cases hsame with
    | same => exact recordReviewSignals_congr rfl rfl rfl hlevels
    | assessed _ _ assessments _ hfocus => exact recordReviewSignals_congr rfl rfl rfl hlevels
  unfold TechScreen.onAssessmentCompleted
  rw [h.tech.pending]
  by_cases hpending : forTurnId ∉ t.tech.pendingAssessments
  · rw [if_pos hpending, if_pos hpending]
    exact h.ignore
  rw [if_neg hpending, if_neg hpending]
  have hdrop := h.tech.dropPending forTurnId
  exact ⟨{ h with tech := ⟨hdrop.pending, hcell, hdrop.focus⟩ }, rfl⟩

theorem onAssessmentFailed_eq (u : SessionState) (forTurnId : Uuid)
    (hpending : forTurnId ∈ u.tech.pendingAssessments) :
    onAssessmentFailed u forTurnId
      = { newState := { u with tech := failedTech u.tech forTurnId },
          commands := [.persistState] } := by
  unfold onAssessmentFailed failedTech
  rw [if_neg (not_not.mpr hpending)]
  rfl

/-- Edge 9: a failure is marked where the turn was scheduled. -/
theorem Beside.onAssessmentFailed (h : Beside c blind s t) (forTurnId : Uuid) :
    Alike c blind (onAssessmentFailed s forTurnId) (onAssessmentFailed t forTurnId) := by
  by_cases hpending : forTurnId ∈ t.tech.pendingAssessments
  · rw [onAssessmentFailed_eq s forTurnId (h.tech.pending ▸ hpending),
      onAssessmentFailed_eq t forTurnId hpending]
    exact ⟨{ h with tech := h.tech.failed forTurnId }, rfl⟩
  · unfold TechScreen.onAssessmentFailed
    rw [if_pos (h.tech.pending ▸ hpending), if_pos hpending]
    exact h.ignore

/-- Edge 21 asks the outstanding command again. -/
theorem Beside.onReconnected (h : Beside c blind s t) :
    Alike c blind (onReconnected s) (onReconnected t) := by
  have hp := h.pendingCommand
  unfold TechScreen.onReconnected
  rcases hs : s.pendingCommand with _ | p <;> rcases ht : t.pendingCommand with _ | p' <;>
    rw [hs, ht] at hp <;> simp only [Option.map_none, Option.map_some, reduceCtorEq,
      Option.some.injEq] at hp
  · exact ⟨h, rfl⟩
  · exact ⟨h, by simp only [List.map_cons, List.map_nil, Command.blur, hp]⟩

/-- Edges 1 and 2 read the plan that the session was created with. -/
theorem Beside.onSessionStarted [Scalars] (h : Beside c blind s t) (now : Instant) :
    Alike c blind (onSessionStarted s now) (onSessionStarted t now) := by
  unfold TechScreen.onSessionStarted
  rw [h.planInput]
  cases PlanSnapshot.validatePlan (.obj t.planInput.entries) with
  | error x => exact h.abort _ _ _
  | ok plan =>
      refine ⟨{ h with
        phase := rfl, awaiting := rfl, planInput := rfl, plan := rfl, sessionStartedAt := rfl
        activity := rfl, turnSeq := ?_, pendingCommand := ?_ }, ?_⟩
      · simp only [h.turnSeq]
      · simp only [h.turnSeq, h.sessionId]
      · simp only [h.turnSeq, h.sessionId]

/-- Edge 3 asks the first seed of the plan. -/
theorem Beside.onIntroCandidateTurn (h : Beside c blind s t) (now : Instant) :
    Both (fun r r' => Beside c sharp r.newState r'.newState ∧ r.commands = r'.commands ∧
        r.newState.tech.competencyIndex = 0 ∧
        r.newState.tech.position = r'.newState.tech.position)
      (onIntroCandidateTurn s now) (onIntroCandidateTurn t now) := by
  unfold TechScreen.onIntroCandidateTurn
  rw [h.requirePlan]
  refine Both.bind _ (fun plan _ => Both.ok ⟨?_, ?_, rfl, rfl⟩)
  · have hentered : Beside c blind (entered s now) (entered t now) :=
      { h with
        phase := rfl, activity := rfl
        tech := ⟨h.tech.pending, h.tech.cell, h.tech.focus⟩ }
    exact hentered.issue (Or.inr ⟨rfl, rfl, rfl⟩)
  · simp only [interviewerCommand, h.sessionId, h.turnSeq]

/-- Edges 15 and 16 read the clocks and the plan. -/
theorem Beside.onQaCandidateTurn (h : Beside c blind s t) (now : Instant) :
    Both (Alike c blind) (onQaCandidateTurn s now) (onQaCandidateTurn t now) := by
  have hqa : qaBudgetExhausted s now = qaBudgetExhausted t now := by
    simp only [qaBudgetExhausted, h.qaStartedAt, h.plan]
  unfold TechScreen.onQaCandidateTurn
  rw [hqa, h.requirePlan]
  refine Both.bind _ (fun exhausted _ => ?_)
  cases exhausted with
  | true => exact Both.ok (h.heard now).enterClose
  | false =>
      simp only [Bool.false_eq_true, if_false]
      refine Both.bind _ (fun plan _ => Both.ok ⟨?_, ?_⟩)
      · exact (h.heard now).issue (Or.inr ⟨rfl, rfl, rfl⟩)
      · exact congrArg (fun m => [Command.runInterviewer m])
          ((h.heard now).command (Or.inr ⟨rfl, rfl, rfl⟩))

theorem Beside.awaitsAnswer (h : Beside c blind s t) (e : Event) :
    awaitsAnswer s e = awaitsAnswer t e := by
  simp only [TechScreen.awaitsAnswer, h.phase, h.awaiting]

/-- A candidate turn that TECH does not wait for. -/
theorem Beside.onCandidateTurn (h : Beside c blind s t) {turnId : Uuid} {text : String}
    {now : Instant}
    (hturn : TechScreen.awaitsAnswer s (.candidateTurnReceived turnId text now) = false) :
    Both (Alike c blind) (onCandidateTurn s turnId now cfg) (onCandidateTurn t turnId now cfg) := by
  unfold TechScreen.onCandidateTurn
  rw [h.awaiting, h.phase]
  cases hp : t.phase with
  | intro =>
      intro r r' hr hr'
      rcases h.onIntroCandidateTurn now r r' hr hr' with ⟨hst, hcommands, _⟩
      exact ⟨hst, congrArg _ hcommands⟩
  | tech =>
      have hidle : t.awaiting ≠ some .candidate := by
        intro hc
        rw [h.awaitsAnswer] at hturn
        simp only [TechScreen.awaitsAnswer, hp, hc, Event.isCandidateTurn, decide_true,
          Bool.and_self, Bool.true_eq_false] at hturn
      rw [if_pos hidle, if_pos hidle]
      exact Both.ok h.ignore
  | qa => exact h.onQaCandidateTurn now
  | created | close | completed | aborted => exact Both.ok h.ignore

/-- A step that adjudicates nothing keeps two sessions beside each other. -/
theorem Beside.step [Scalars] (h : Beside c blind s t) {e f : Event} (hsame : SameBut c e f)
    (hitems : itemsAbout c e = itemsAbout c f) (hturn : TechScreen.awaitsAnswer s e = false) :
    Both (Alike c blind) (transition s e cfg) (transition t f cfg) := by
  unfold transition
  rw [h.phase]
  -- A session that has ended stays as it is on both sides.
  by_cases hterminal : t.phase ∈ terminalPhases
  · rw [if_pos hterminal, if_pos hterminal]
    exact Both.ok h.ignore
  rw [if_neg hterminal, if_neg hterminal]
  -- Only a result of the assessor may differ; every other event is the same one.
  cases hsame with
  | assessed forTurnId output assessments now hfocus =>
      exact Both.ok (h.onAssessmentCompleted forTurnId
        (SameBut.assessed forTurnId output assessments now hfocus) hitems)
  | same =>
      cases e with
      | assessmentCompleted forTurnId output now =>
          exact Both.ok (h.onAssessmentCompleted forTurnId
            (SameBut.same (.assessmentCompleted forTurnId output now)) rfl)
      | assessmentFailed forTurnId errorKind now => exact Both.ok (h.onAssessmentFailed forTurnId)
      | operatorAbort reason now => exact Both.ok (h.abort _ _ _)
      | reconnected now => exact Both.ok h.onReconnected
      | timerTick now => exact h.onTimerTick now
      | sessionStarted now =>
          by_cases hcreated : t.phase = .created
          · simp only [if_pos hcreated]
            exact Both.ok (h.onSessionStarted now)
          · simp only [if_neg hcreated]
            exact Both.ok h.ignore
      | candidateTurnReceived turnId text now =>
          by_cases hcreated : t.phase = .created
          · simp only [if_pos hcreated]
            exact Both.ok h.ignore
          · simp only [if_neg hcreated]
            exact h.onCandidateTurn hturn
      | interviewerReplyReady turnId output now =>
          by_cases hcreated : t.phase = .created
          · simp only [if_pos hcreated]
            exact Both.ok h.ignore
          · simp only [if_neg hcreated]
            exact Both.ok (h.onInterviewerReply turnId output)
      | interviewerFailed turnId errorKind now =>
          by_cases hcreated : t.phase = .created
          · simp only [if_pos hcreated]
            exact Both.ok h.ignore
          · simp only [if_neg hcreated]
            exact Both.ok (h.onInterviewerFailed turnId errorKind)

/-- Two answers that were decided alike: the same commands, and sessions beside
    each other at the same position. -/
def Decided (c : String) (blind : Uuid → Bool) (r r' : TransitionResult) : Prop :=
  Beside c blind r.newState r'.newState ∧ r.commands = r'.commands ∧
    r.newState.tech.position = r'.newState.tech.position

/-- The answer is accepted, with the sub-state it leads to. -/
theorem Beside.heardTech (h : Beside c blind s t) {T T' : TechState} (hT : TechBeside c T T')
    (now : Instant) :
    Beside c blind { s with lastCandidateActivity := some now, tech := T }
      { t with lastCandidateActivity := some now, tech := T' } :=
  { h with activity := rfl, tech := hT }

theorem TechBeside.at (h : TechBeside c s.tech t.tech) (index seed probes : Int)
    (startedAt : Option Instant) :
    TechBeside c
      { s.tech with
        competencyIndex := index, seedIndex := seed, probesUsed := probes
        competencyStartedAt := startedAt }
      { t.tech with
        competencyIndex := index, seedIndex := seed, probesUsed := probes
        competencyStartedAt := startedAt } :=
  ⟨h.pending, h.cell, h.focus⟩

theorem markGap_position (tech : TechState) (q : PlannedCompetency) (marker : Option GapMarker) :
    (markGap tech q marker).position = tech.position := by
  unfold markGap
  split <;> rfl

/-- Leaving the same competency for the same one, or for Q&A. -/
theorem Beside.leaveCompetency (h : Beside c blind s t) {T T' : TechState}
    (hT : TechBeside c T T') (hpos : T.position = T'.position) (plan : PlanSnapshot)
    (q : PlannedCompetency) (now : Instant) (move : InterviewerMove) (assessor : RunAssessor)
    (tail : List Command) :
    Both (Decided c blind) (leaveCompetency s plan q T now move assessor tail)
      (leaveCompetency t plan q T' now move assessor tail) := by
  -- The plan is the same, so there is a next competency on both sides or on neither.
  have hindex : T.competencyIndex = T'.competencyIndex := congrArg Prod.fst hpos
  unfold TechScreen.leaveCompetency
  rw [hindex]
  cases hnext : plan.competency (T'.competencyIndex + 1) with
  | some following =>
      have hadvanced : Beside c blind
          { s with
            lastCandidateActivity := some now
            tech := { T with
              competencyIndex := T'.competencyIndex + 1, seedIndex := 0, probesUsed := 0
              competencyStartedAt := some now } }
          { t with
            lastCandidateActivity := some now
            tech := { T' with
              competencyIndex := T'.competencyIndex + 1, seedIndex := 0, probesUsed := 0
              competencyStartedAt := some now } } :=
        { h with activity := rfl, tech := ⟨hT.pending, hT.cell, hT.focus⟩ }
      refine Both.ok ⟨hadvanced.issue (Or.inr ⟨rfl, rfl, rfl⟩), ?_, rfl⟩
      simp only [interviewerCommand, h.sessionId, h.turnSeq]
  | none =>
      -- After the last one Q&A is entered, which may fail for want of a plan.
      have hqa := (h.heardTech hT now).requirePlan
      simp only [TechScreen.enterQa, hqa]
      cases TechScreen.requirePlan
          { t with lastCandidateActivity := some now, tech := T' } with
      | error x =>
          intro r r' hr
          cases hr
      | ok plan' =>
          refine Both.ok ⟨((h.heardTech hT now).inQa now).issue (Or.inr ⟨rfl, rfl, rfl⟩), ?_, hpos⟩
          simp only [issueInterviewer, interviewerCommand, h.sessionId, h.turnSeq]

/-- Edge 11 on both sides. -/
theorem Beside.probeCompetency (h : Beside c blind s t) {T T' : TechState}
    (hT : TechBeside c T T') (hpos : T.position = T'.position) (q : PlannedCompetency)
    (now : Instant) (assessor : RunAssessor) :
    Decided c blind (probeCompetency s q T now assessor) (probeCompetency t q T' now assessor) := by
  have hprobes : T.probesUsed = T'.probesUsed := congrArg (fun p => p.2.2.1) hpos
  simp only [TechState.position, Prod.mk.injEq] at hpos
  have hprobed : Beside c blind
      { s with
        lastCandidateActivity := some now, tech := { T with probesUsed := T.probesUsed + 1 } }
      { t with
        lastCandidateActivity := some now, tech := { T' with probesUsed := T'.probesUsed + 1 } } :=
    { h with activity := rfl, tech := ⟨hT.pending, hT.cell, hT.focus⟩ }
  refine ⟨hprobed.issue (Or.inr ⟨rfl, rfl, by rw [hprobes]⟩), ?_, ?_⟩
  · simp only [TechScreen.probeCompetency, issueInterviewer, interviewerCommand, h.sessionId,
      h.turnSeq, hprobes]
  · simp only [TechScreen.probeCompetency, issueInterviewer, TechState.position, hpos]

/-- The multi-seed rule on both sides. -/
theorem Beside.advanceSeed (h : Beside c blind s t) {T T' : TechState}
    (hT : TechBeside c T T') (hpos : T.position = T'.position) (q : PlannedCompetency)
    (now : Instant) (seed : String) (assessor : RunAssessor) :
    Decided c blind (advanceSeed s q T now seed assessor)
      (advanceSeed t q T' now seed assessor) := by
  have hseed : T.seedIndex = T'.seedIndex := congrArg (fun p => p.2.1) hpos
  simp only [TechState.position, Prod.mk.injEq] at hpos
  have hseeded : Beside c blind
      { s with
        lastCandidateActivity := some now, tech := { T with seedIndex := T.seedIndex + 1 } }
      { t with
        lastCandidateActivity := some now, tech := { T' with seedIndex := T'.seedIndex + 1 } } :=
    { h with activity := rfl, tech := ⟨hT.pending, hT.cell, hT.focus⟩ }
  refine ⟨hseeded.issue (Or.inr ⟨rfl, rfl, by rw [hseed]⟩), ?_, ?_⟩
  · simp only [TechScreen.advanceSeed, issueInterviewer, interviewerCommand, h.sessionId,
      h.turnSeq, hseed]
  · simp only [TechScreen.advanceSeed, issueInterviewer, TechState.position, hpos]

/-- Two sessions at the same position are on the same competency. -/
theorem Beside.currentCompetency (h : Beside c blind s t)
    (hpos : s.tech.position = t.tech.position) : currentCompetency s = currentCompetency t := by
  have hindex : s.tech.competencyIndex = t.tech.competencyIndex := congrArg Prod.fst hpos
  simp only [TechScreen.currentCompetency, h.requirePlan, hindex]

/-- The current competency of a session on `c` has node `c`. -/
theorem OnNode.nodeId {q : PlannedCompetency} (h : OnNode c s)
    (hq : TechScreen.currentCompetency s = .ok q) : q.nodeId.val = c := by
  rcases h with ⟨_, plan, q', hplan, hq', hc⟩
  have hsome := currentCompetency_ok hplan hq
  rw [hq'] at hsome
  rw [← Option.some.inj hsome]
  exact hc

/-- An answer on `c` is decided on the plan, the position, the clocks and the
    cell of `c`. -/
theorem Beside.adjudicated (h : Beside c blind s t) (hpos : s.tech.position = t.tech.position)
    (hon : OnNode c t) (turnId : Uuid) (now : Instant) :
    Both (Decided c blind) (onTechCandidateTurn s turnId now cfg)
      (onTechCandidateTurn t turnId now cfg) := by
  unfold onTechCandidateTurn
  rw [h.requirePlan, h.currentCompetency hpos]
  refine Both.bind _ (fun plan _ => Both.bind _ (fun q hq => ?_))
  -- The competency that is adjudicated is the one with node `c`.
  have hnode := hon.nodeId hq
  have hT := h.tech.schedule turnId (Iff.refl (q.nodeId.val = c))
  have hposT : (scheduleAssessment s.tech turnId q).position
      = (scheduleAssessment t.tech turnId q).position := hpos
  dsimp only
  generalize scheduleAssessment s.tech turnId q = T at hT hposT ⊢
  generalize scheduleAssessment t.tech turnId q = T' at hT hposT ⊢
  have hseed : T.seedIndex = T'.seedIndex := congrArg (fun p => p.2.1) hposT
  have hprobes : T.probesUsed = T'.probesUsed := congrArg (fun p => p.2.2.1) hposT
  have hstart : T.competencyStartedAt = T'.competencyStartedAt :=
    congrArg (fun p => p.2.2.2) hposT
  have hcell : T.coverage.get? q.nodeId = T'.coverage.get? q.nodeId := by
    rw [hnode]
    exact hT.cell
  rw [hstart, hcell, hprobes, hseed]
  refine Both.bind _ (fun remaining _ => ?_)
  cases (adjudicate (T'.coverage.get? q.nodeId) q.targetLevel T'.probesUsed remaining cfg) with
  | mk verdict basis marker =>
      cases verdict with
      | clarify => exact Both.ok (h.probeCompetency hT hposT q now _)
      | none =>
          have hgap : (markGap T q marker).position = (markGap T' q marker).position := by
            rw [markGap_position, markGap_position]
            exact hposT
          exact h.leaveCompetency (hT.markGap q marker) hgap plan q now _ _ _
      | answered =>
          dsimp only
          cases q.seedQuestion (T'.seedIndex + 1) with
          | none => exact h.leaveCompetency hT hposT plan q now _ _ _
          | some seed =>
              dsimp only
              by_cases hleft : remaining > 0
              · rw [if_pos hleft, if_pos hleft]
                exact Both.ok (h.advanceSeed hT hposT q now seed _)
              · rw [if_neg hleft, if_neg hleft]
                exact h.leaveCompetency hT hposT plan q now _ _ _

end Handlers

section Decisions
variable {c : String} {cfg : OrchestratorConfig} {s t : SessionState} {e f : Event}

/-- The turn whose move brought the session where it is. -/
def arrivalTurn (s : SessionState) : Uuid := deriveTurnId s.sessionId (turnPath (s.turnSeq - 1))

/-- The moves of one turn are not looked at. -/
def except (turnId : Uuid) : Uuid → Bool := fun id => id = turnId

/-- Two steps that decide alike: they compute the same verdict, an answer is
    met by the same commands, and every other step emits the same, too, but for
    the move of turn `arrival` where it is asked again. -/
structure SameDecision (cfg : OrchestratorConfig) (arrival : Uuid)
    (t u : Taken SessionState Event Command) : Prop where
  verdict : verdictOn cfg t.before t.event = verdictOn cfg u.before u.event
  issued : t.event.isCandidateTurn = true → t.out = u.out
  emitted : t.out.map (Command.blur (except arrival)) = u.out.map (Command.blur (except arrival))

theorem arrivalTurn_issue (s : SessionState) (move : InterviewerMove) (node : Option String)
    (ctx : Dict String Json) : arrivalTurn (issueInterviewer s move node ctx).1
      = deriveTurnId s.sessionId (turnPath s.turnSeq) :=
  congrArg (fun n => deriveTurnId s.sessionId (turnPath n)) (Int.add_sub_cancel s.turnSeq 1)

theorem SameBut.eq_of_candidateTurn (h : SameBut c e f) (hturn : e.isCandidateTurn = true) :
    f = e := by
  cases h with
  | same => rfl
  | assessed => exact absurd hturn Bool.false_ne_true

theorem SameBut.isCandidateTurn (h : SameBut c e f) : f.isCandidateTurn = e.isCandidateTurn := by
  cases h with
  | same => rfl
  | assessed => rfl

/-- An event that TECH does not wait for is not adjudicated. -/
theorem verdictOn_eq_none (h : awaitsAnswer s e = false) : verdictOn cfg s e = none := by
  unfold verdictOn
  cases e with
  | candidateTurnReceived turnId text now => simp only [h, Bool.false_eq_true, if_false]
  | _ => rfl

/-- Beside each other and at the same position on `c`, sessions compute the
    same verdict. -/
theorem Beside.verdictOn {blind : Uuid → Bool} (h : Beside c blind s t)
    (hpos : s.tech.position = t.tech.position) (hon : OnNode c t) :
    verdictOn cfg s e = verdictOn cfg t e := by
  have hprobes : s.tech.probesUsed = t.tech.probesUsed := congrArg (fun p => p.2.2.1) hpos
  have hstart : s.tech.competencyStartedAt = t.tech.competencyStartedAt :=
    congrArg (fun p => p.2.2.2) hpos
  cases e with
  | candidateTurnReceived turnId text now =>
      simp only [TechScreen.verdictOn, h.awaitsAnswer, h.currentCompetency hpos, hprobes, hstart]
      cases hq : TechScreen.currentCompetency t with
      | error x => rfl
      | ok q => simp only [hon.nodeId hq, h.tech.cell]
  | _ => rfl

/-- The technical phase is over. -/
def PastTech (s : SessionState) : Prop :=
  s.phase = .qa ∨ s.phase = .close ∨ s.phase = .completed ∨ s.phase = .aborted

theorem PastTech.not_onNode (h : PastTech s) : ¬ OnNode c s := by
  rintro ⟨hp, _⟩
  unfold PastTech at h
  rw [hp] at h
  exact absurd h (by decide)

/-- What an answer on another competency than `c` makes of the sub-state, its
    position aside. -/
structure AskedElsewhere (c : String) (turnId : Uuid) (before after : TechState) : Prop where
  pending : after.pendingAssessments = before.pendingAssessments ++ [turnId]
  cell : after.coverage.get? c = before.coverage.get? c
  focus : ∀ id, after.assessmentFocus.get? id = some c ↔
    id ≠ turnId ∧ before.assessmentFocus.get? id = some c

theorem askedElsewhere_schedule (tech : TechState) (turnId : Uuid) {q : PlannedCompetency}
    (hq : q.nodeId.val ≠ c) : AskedElsewhere c turnId tech (scheduleAssessment tech turnId q) where
  pending := rfl
  cell := rfl
  focus := by
    intro id
    simp only [scheduleAssessment, Dict.get?_set]
    by_cases hid : id = turnId
    · rw [if_pos hid, Option.some.injEq]
      exact ⟨fun hc => absurd hc hq, fun hc => absurd hid hc.1⟩
    · rw [if_neg hid]
      exact ⟨fun hc => ⟨hid, hc⟩, fun hc => hc.2⟩

theorem AskedElsewhere.markGap {turnId : Uuid} {before after : TechState}
    (h : AskedElsewhere c turnId before after) {q : PlannedCompetency} (hq : q.nodeId.val ≠ c)
    (marker : Option GapMarker) :
    AskedElsewhere c turnId before (markGap after q marker) := by
  unfold TechScreen.markGap
  by_cases hmarker : marker = some .gapBudgetExhausted
  · rw [if_pos hmarker]
    exact ⟨h.pending, (Dict.get?_set_of_ne _ _ _ _ (Ne.symm hq)).trans h.cell, h.focus⟩
  · rw [if_neg hmarker]
    exact h

/-- No competency that the session has been on so far has node `c`. -/
def Unvisited (c : String) (s : SessionState) : Prop :=
  s.phase = .tech → ∀ plan, s.plan = some plan → ∀ k q, 0 ≤ k → k < s.tech.competencyIndex →
    plan.competency k = some q → q.nodeId.val ≠ c

/-- Two sessions on their way to `c`. Unless one of them has missed it, they
    are beside each other; and once both are on it, they are at the same
    position, and only the move that brought them there may differ. -/
def Together (c : String) (s t : SessionState) : Prop :=
  PastTech s ∨ PastTech t ∨
    (Beside c (fun _ => true) s t ∧ Unvisited c s ∧ Unvisited c t ∧
      (OnNode c s → OnNode c t →
        s.tech.position = t.tech.position ∧ Beside c (except (arrivalTurn s)) s t))

/-- The first competency with node `c` that two sessions are on is the same. -/
theorem firstVisit_eq {i j : Int} {plan : PlanSnapshot} {q q' : PlannedCompetency}
    (hi : ∀ k p, 0 ≤ k → k < i → plan.competency k = some p → p.nodeId.val ≠ c)
    (hj : ∀ k p, 0 ≤ k → k < j → plan.competency k = some p → p.nodeId.val ≠ c)
    (hq : plan.competency i = some q) (hqc : q.nodeId.val = c)
    (hq' : plan.competency j = some q') (hqc' : q'.nodeId.val = c) : i = j := by
  have hizero := ((plan.competency_eq_some_iff i q).mp hq).1
  have hjzero := ((plan.competency_eq_some_iff j q').mp hq').1
  rcases Int.lt_trichotomy i j with hlt | heq | hlt
  · exact absurd hqc (hj i q hizero hlt hq)
  · exact heq
  · exact absurd hqc' (hi j q' hjzero hlt hq')

/-- The answer that takes the interview on leaves a competency that is not `c`. -/
theorem Unvisited.asked {s' : SessionState} (h : Unvisited c s) (hoff : ¬ OnNode c s)
    (hphase : s.phase = .tech) (hplan : s'.plan = s.plan)
    (hindex : s'.tech.competencyIndex = s.tech.competencyIndex ∨
      s'.tech.competencyIndex = s.tech.competencyIndex + 1) : Unvisited c s' := by
  intro _ plan hp k q hzero hk hq
  rw [hplan] at hp
  by_cases hlt : k < s.tech.competencyIndex
  · exact h hphase plan hp k q hzero hlt hq
  · have hlast : k = s.tech.competencyIndex := by omega
    exact fun hc => hoff ⟨hphase, plan, q, hp, hlast ▸ hq, hc⟩

end Decisions

section Steps
variable [Scalars] {c : String} {cfg : OrchestratorConfig} {s s' : SessionState} {e : Event}
  {out : List Command}

/-- An answer that TECH waits for goes to its handler. -/
theorem transition_of_answer {turnId : Uuid} {text : String} {now : Instant}
    (h : awaitsAnswer s (.candidateTurnReceived turnId text now) = true) :
    transition s (.candidateTurnReceived turnId text now) cfg
      = onTechCandidateTurn s turnId now cfg := by
  rcases (awaitsAnswer_iff _ _).mp h with ⟨⟨hphase, hawaiting⟩, _⟩
  have hlive : s.phase ∉ terminalPhases := by
    rw [hphase]
    decide
  have hcreated : s.phase ≠ .created := by
    rw [hphase]
    decide
  unfold transition
  rw [if_neg hlive]
  dsimp only
  rw [if_neg hcreated, onCandidateTurn, hphase]
  dsimp only
  rw [if_neg (not_not.mpr hawaiting)]

/-- An event that TECH does not wait for moves nothing in the plan, unless it
    is the turn that ends the introduction. -/
theorem kept_of_edge (hedge : Edge cfg s e s' out) (hturn : awaitsAnswer s e = false)
    (hintro : s.phase = .intro → e.isCandidateTurn = false) :
    s'.tech.position = s.tech.position ∧
      (s'.phase = .tech → s.phase = .tech ∧ s'.plan = s.plan) := by
  -- The edges of an answer are the ones that TECH waits for.
  have hwaits : ∀ {turnId : Uuid} {text : String} {now : Instant}, s.phase = .tech →
      s.awaiting = some .candidate →
      awaitsAnswer s (.candidateTurnReceived turnId text now) = false → False := by
    intro turnId text now hp ha hw
    simp only [awaitsAnswer, hp, ha, Event.isCandidateTurn, decide_true, Bool.and_self,
      Bool.true_eq_false] at hw
  cases hedge with
  | ignored e hidle => exact ⟨rfl, fun hp => ⟨hp, rfl⟩⟩
  | opened now p hphase hvalid =>
      exact ⟨rfl, fun hp => absurd hp (by simp only [opened, reduceCtorEq, not_false_eq_true])⟩
  | entered turnId text now p hphase hp =>
      exact absurd (hintro hphase) (by simp only [Event.isCandidateTurn, Bool.true_eq_false,
        not_false_eq_true])
  | probed turnId text now a hphase hawaiting hclarify hprobes =>
      exact (hwaits hphase hawaiting hturn).elim
  | seeded turnId text now a seed hphase hawaiting hanswered hseed =>
      exact (hwaits hphase hawaiting hturn).elim
  | advanced turnId text now a following hphase hawaiting hleaves hnext =>
      exact (hwaits hphase hawaiting hturn).elim
  | finished turnId text now a hphase hawaiting hleaves hlast =>
      exact (hwaits hphase hawaiting hturn).elim
  | cutShort now p hphase hp hover =>
      exact ⟨rfl, fun hp => absurd hp (by simp only [issueInterviewer, inQa, reduceCtorEq,
        not_false_eq_true])⟩
  | asked turnId text now p hphase hp =>
      refine ⟨rfl, fun hq => ?_⟩
      have hq' : s.phase = .tech := hq
      rw [hphase] at hq'
      exact absurd hq' (by decide)
  | closed e activity hphase =>
      exact ⟨rfl, fun hp => absurd hp (by simp only [enterClose, reduceCtorEq,
        not_false_eq_true])⟩
  | completed e hphase =>
      exact ⟨rfl, fun hp => absurd hp (by simp only [complete, reduceCtorEq, not_false_eq_true])⟩
  | aborted e reason decision persist hlive hidle =>
      exact ⟨rfl, fun hp => absurd hp (by simp only [abort, reduceCtorEq, not_false_eq_true])⟩
  -- A reply may raise the count of drifts, which is no part of the position.
  | delivered turnId output now hphase hawaiting hpending =>
      rcases noteDrift_fst s output.internalMoveExecuted cfg with ⟨drift, hdrift⟩
      refine ⟨?_, fun hp => ⟨hp, rfl⟩⟩
      simp only [delivered, hdrift, TechState.position]
  | retried turnId errorKind now pending hphase hawaiting hpending hid hstreak =>
      exact ⟨rfl, fun hp => ⟨hp, rfl⟩⟩
  | assessed forTurnId output now hlive hpending =>
      rw [onAssessmentCompleted, if_neg (not_not.mpr hpending)]
      exact ⟨rfl, fun hp => ⟨hp, rfl⟩⟩
  | assessmentFailed forTurnId errorKind now hlive hpending =>
      rw [onAssessmentFailed_eq s forTurnId hpending]
      refine ⟨?_, fun hp => ⟨hp, rfl⟩⟩
      simp only [failedTech]
      cases s.tech.assessmentFocus.get? forTurnId with
      | none => rfl
      | some node => rfl
  | reconnected now hlive => exact ⟨rfl, fun hp => ⟨hp, rfl⟩⟩

/-- A turn of the candidate that TECH does not wait for is ignored there. -/
theorem idle_of_edge (hedge : Edge cfg s e s' out) (hphase : s.phase = .tech)
    (hcandidate : e.isCandidateTurn = true) (hturn : awaitsAnswer s e = false) : out = [] := by
  have hidle : s.awaiting ≠ some .candidate := by
    intro hc
    simp only [awaitsAnswer, hphase, hc, hcandidate, decide_true, Bool.and_self,
      Bool.true_eq_false] at hturn
  cases hedge with
  | ignored e hidle => rfl
  | entered turnId text now p hp hplan => rw [hphase] at hp; exact absurd hp (by decide)
  | probed turnId text now a hp hawaiting hclarify hprobes => exact absurd hawaiting hidle
  | seeded turnId text now a seed hp hawaiting hanswered hseed => exact absurd hawaiting hidle
  | advanced turnId text now a following hp hawaiting hleaves hnext =>
      exact absurd hawaiting hidle
  | finished turnId text now a hp hawaiting hleaves hlast => exact absurd hawaiting hidle
  | asked turnId text now p hp hplan => rw [hphase] at hp; exact absurd hp (by decide)
  | closed e activity hp => rw [hphase] at hp; exact absurd hp (by decide)
  | completed e hp => rw [hphase] at hp; exact absurd hp (by decide)
  | aborted e reason decision persist hlive hn => rw [hn] at hcandidate; cases hcandidate
  | opened | cutShort | delivered | retried | assessed | assessmentFailed | reconnected =>
      exact absurd hcandidate Bool.false_ne_true

/-- On `c`, one step decides alike on both sides and keeps the sessions beside
    each other. -/
theorem decides_alike {arrival : Uuid} {x y : Taken SessionState Event Command}
    (h : Beside c (except arrival) x.before y.before)
    (hpos : x.before.tech.position = y.before.tech.position) (hon : OnNode c x.before)
    (hsame : SameBut c x.event y.event) (hitems : itemsAbout c x.event = itemsAbout c y.event)
    (hx : step cfg x.before x.event = .ok (x.after, x.out))
    (hy : step cfg y.before y.event = .ok (y.after, y.out)) :
    (Beside c (except arrival) x.after y.after ∧ x.after.tech.position = y.after.tech.position) ∧
      SameDecision cfg arrival x y := by
  -- The other side is on the node as well.
  have hon' : OnNode c y.before := by
    rcases hon with ⟨hp, plan, q, hplan, hq, hc⟩
    have hindex : x.before.tech.competencyIndex = y.before.tech.competencyIndex :=
      congrArg Prod.fst hpos
    exact ⟨h.phase ▸ hp, plan, q, h.plan ▸ hplan, hindex ▸ hq, hc⟩
  have hxt := (step_eq_ok_iff cfg _ _ _ _).mp hx
  have hyt := (step_eq_ok_iff cfg _ _ _ _).mp hy
  by_cases hturn : awaitsAnswer x.before x.event = true
  · -- An answer: both sides adjudicate it.
    have hcandidate : x.event.isCandidateTurn = true := ((awaitsAnswer_iff _ _).mp hturn).2
    have heq := hsame.eq_of_candidateTurn hcandidate
    have hverdict : verdictOn cfg x.before x.event
        = verdictOn cfg y.before y.event := by
      rw [heq]
      exact h.verdictOn hpos hon'
    have hdecided : Decided c (except arrival) ⟨x.after, x.out⟩ ⟨y.after, y.out⟩ := by
      rw [heq] at hyt
      have hturn' := hturn
      rw [h.awaitsAnswer] at hturn'
      cases hevent : x.event with
      | candidateTurnReceived turnId text now =>
          rw [hevent] at hxt hyt hturn hturn'
          rw [transition_of_answer hturn] at hxt
          rw [transition_of_answer hturn'] at hyt
          exact h.adjudicated hpos hon' turnId now _ _ hxt hyt
      | _ => rw [hevent] at hcandidate; cases hcandidate
    exact ⟨⟨hdecided.1, hdecided.2.2⟩, hverdict, fun _ => hdecided.2.1,
      congrArg _ hdecided.2.1⟩
  · -- Anything else adjudicates nothing, and both sides keep their place.
    have hidle : awaitsAnswer x.before x.event = false := Bool.eq_false_iff.mpr hturn
    have hidle' : awaitsAnswer y.before y.event = false := by
      rw [← h.awaitsAnswer]
      simp only [awaitsAnswer, hsame.isCandidateTurn] at hidle ⊢
      exact hidle
    have halike := h.step hsame hitems hidle _ _ hxt hyt
    have hedge := edge_of_step hx
    have hedge' := edge_of_step hy
    have hne : ∀ u : SessionState, u.phase = .tech → u.phase = .intro → False := by
      intro u hp hi
      rw [hp] at hi
      exact absurd hi (by decide)
    have hkept := kept_of_edge hedge hidle (fun hi => (hne _ hon.1 hi).elim)
    have hkept' := kept_of_edge hedge' hidle' (fun hi => (hne _ hon'.1 hi).elim)
    refine ⟨⟨halike.1, ?_⟩, ?_, ?_, halike.2⟩
    · rw [hkept.1, hkept'.1, hpos]
    · rw [verdictOn_eq_none hidle, verdictOn_eq_none hidle']
    · intro hcandidate
      rw [idle_of_edge hedge hon.1 hcandidate hidle, idle_of_edge hedge' hon'.1
        (hsame.isCandidateTurn.trans hcandidate) hidle']

/-- The technical phase is not entered again. -/
theorem pastTech_of_edge (hedge : Edge cfg s e s' out) (h : PastTech s) : PastTech s' := by
  have hstep := (phaseLaw_of_edge hedge).phase
  unfold PastTech at h ⊢
  rcases hstep with hq | hq | ⟨_, hq⟩
  · rw [hq]
    exact h
  · rcases h with hp | hp | hp | hp <;> rw [hp] at hq <;>
      simp only [Phase.next, Option.some.injEq, reduceCtorEq] at hq
    · exact Or.inr (Or.inl hq.symm)
    · exact Or.inr (Or.inr (Or.inl hq.symm))
  · exact Or.inr (Or.inr (Or.inr hq))

/-- An answer that TECH waits for, given on another competency than `c`: Q&A
    follows, or a move within the plan that leaves the cell of `c` alone. -/
theorem asked_of_edge {turnId : Uuid} {text : String} {now : Instant}
    (hedge : Edge cfg s (.candidateTurnReceived turnId text now) s' out)
    (hwaits : awaitsAnswer s (.candidateTurnReceived turnId text now) = true)
    (hoff : ¬ OnNode c s) :
    PastTech s' ∨ ∃ tech move node ctx,
      s' = (issueInterviewer { s with lastCandidateActivity := some now, tech := tech }
        move node ctx).1 ∧ AskedElsewhere c turnId s.tech tech ∧
      (tech.competencyIndex = s.tech.competencyIndex ∨
        tech.position = (s.tech.competencyIndex + 1, 0, 0, some now)) := by
  rcases (awaitsAnswer_iff _ _).mp hwaits with ⟨⟨htech, hcandidate⟩, _⟩
  -- Whoever is asked, it is not about this competency.
  have hnode : ∀ a : Answer s now, a.competency.nodeId.val ≠ c := by
    intro a hc
    exact hoff ⟨htech, a.plan, a.competency, a.hplan, a.hcompetency, hc⟩
  have hasked : ∀ a : Answer s now, AskedElsewhere c turnId s.tech (a.scheduled turnId) :=
    fun a => askedElsewhere_schedule s.tech turnId (hnode a)
  cases hedge with
  | ignored e hidle =>
      simp only [awaitsAnswer, htech, hcandidate, Event.isCandidateTurn, decide_true,
        Bool.and_self, Bool.true_eq_false] at hidle
  | entered _ _ _ p hphase hp => rw [htech] at hphase; exact absurd hphase (by decide)
  | probed _ _ _ a hphase hawaiting hclarify hprobes =>
      have h := hasked a
      exact Or.inr ⟨_, _, _, _, rfl, ⟨h.pending, h.cell, h.focus⟩, Or.inl rfl⟩
  | seeded _ _ _ a seed hphase hawaiting hanswered hseed =>
      have h := hasked a
      exact Or.inr ⟨_, _, _, _, rfl, ⟨h.pending, h.cell, h.focus⟩, Or.inl rfl⟩
  | advanced _ _ _ a following hphase hawaiting hleaves hnext =>
      -- A gap is marked in the cell of the competency that is left.
      have h : AskedElsewhere c turnId s.tech (a.leaving cfg turnId) := by
        unfold Answer.leaving
        split
        · exact (hasked a).markGap (hnode a) _
        · exact hasked a
      refine Or.inr ⟨_, _, _, _, rfl, ⟨h.pending, h.cell, h.focus⟩, Or.inr ?_⟩
      simp only [TechState.position, a.leaving_competencyIndex]
  | finished _ _ _ a hphase hawaiting hleaves hlast => exact Or.inl (Or.inl rfl)
  | asked _ _ _ p hphase hp => rw [htech] at hphase; exact absurd hphase (by decide)
  | closed _ activity hphase => exact Or.inl (Or.inr (Or.inl rfl))
  | completed _ hphase => exact Or.inl (Or.inr (Or.inr (Or.inl rfl)))
  | aborted _ reason decision persist hlive hn => cases hn

/-- The turn that ends the introduction goes to its handler. -/
theorem transition_of_intro {turnId : Uuid} {text : String} {now : Instant}
    (h : s.phase = .intro) :
    transition s (.candidateTurnReceived turnId text now) cfg = onIntroCandidateTurn s now := by
  have hlive : s.phase ∉ terminalPhases := by
    rw [h]
    decide
  have hcreated : s.phase ≠ .created := by
    rw [h]
    decide
  unfold transition
  rw [if_neg hlive]
  dsimp only
  rw [if_neg hcreated, onCandidateTurn, h]

/-- Two answers on other competencies than `c`, maybe not the same ones. -/
theorem together_of_answers {turnId : Uuid} {text : String} {now : Instant}
    {t t' : SessionState} {out' : List Command} (hb : Beside c (fun _ => true) s t)
    (hu : Unvisited c s) (hu' : Unvisited c t) (hoff : ¬ OnNode c s) (hoff' : ¬ OnNode c t)
    (hwaits : awaitsAnswer s (.candidateTurnReceived turnId text now) = true)
    (hedge : Edge cfg s (.candidateTurnReceived turnId text now) s' out)
    (hedge' : Edge cfg t (.candidateTurnReceived turnId text now) t' out') :
    Together c s' t' := by
  have hphase : s.phase = .tech := ((awaitsAnswer_iff _ _).mp hwaits).1.1
  rcases asked_of_edge hedge hwaits hoff with hp | ⟨T, move, node, ctx, hafter, ha, hi⟩
  · exact Or.inl hp
  rcases asked_of_edge hedge' (hb.awaitsAnswer _ ▸ hwaits) hoff' with
    hp | ⟨T', move', node', ctx', hafter', ha', hi'⟩
  · exact Or.inr (Or.inl hp)
  have hT : TechBeside c T T' := by
    refine ⟨?_, ?_, fun id => ?_⟩
    · rw [ha.pending, ha'.pending, hb.tech.pending]
    · rw [ha.cell, ha'.cell, hb.tech.cell]
    · rw [ha.focus, ha'.focus, hb.tech.focus]
  have hheard := hb.heardTech hT now
  have hnew : Unvisited c s' := hu.asked hoff hphase (by rw [hafter]; rfl)
    (by rw [hafter]; exact hi.imp_right (congrArg Prod.fst))
  have hnew' : Unvisited c t' := hu'.asked hoff' (hb.phase ▸ hphase) (by rw [hafter']; rfl)
    (by rw [hafter']; exact hi'.imp_right (congrArg Prod.fst))
  refine Or.inr (Or.inr ⟨?_, hnew, hnew', ?_⟩)
  · rw [hafter, hafter']
    exact hheard.issue (Or.inl rfl)
  rintro ⟨hp, plan, q, hplan, hq, hc⟩ ⟨hp', plan', q', hplan', hq', hc'⟩
  have hsamePlan : plan' = plan := by
    have hplans : s'.plan = t'.plan := by
      rw [hafter, hafter']
      exact hb.plan
    rw [← hplans, hplan] at hplan'
    exact (Option.some.inj hplan').symm
  rw [hsamePlan] at hplan' hq'
  have hindex := firstVisit_eq (fun k p h0 hk => hnew hp plan hplan k p h0 hk)
    (fun k p h0 hk => hnew' hp' plan hplan' k p h0 hk) hq hc hq' hc'
  -- Whoever is on `c` now has just got there, from the position before it.
  rw [hafter] at hplan hq hindex
  rw [hafter'] at hplan' hq' hindex
  have hadvanced : T.position = (s.tech.competencyIndex + 1, 0, 0, some now) :=
    hi.resolve_left (fun hstay => hoff ⟨hphase, plan, q, hplan, hstay ▸ hq, hc⟩)
  have hadvanced' : T'.position = (t.tech.competencyIndex + 1, 0, 0, some now) :=
    hi'.resolve_left (fun hstay =>
      hoff' ⟨hb.phase ▸ hphase, plan, q', hplan', hstay ▸ hq', hc'⟩)
  have hbefore : s.tech.competencyIndex + 1 = t.tech.competencyIndex + 1 :=
    (congrArg Prod.fst hadvanced).symm.trans (hindex.trans (congrArg Prod.fst hadvanced'))
  rw [hafter, hafter']
  refine ⟨?_, hheard.issue (Or.inl ?_)⟩
  · exact hadvanced.trans (hbefore ▸ hadvanced'.symm)
  · rw [arrivalTurn_issue]
    exact decide_eq_true rfl

/-- The turn that ends the introduction takes both sides to the first competency. -/
theorem together_of_intro {turnId : Uuid} {text : String} {now : Instant} {t t' : SessionState}
    {out' : List Command} (hb : Beside c (fun _ => true) s t) (hintro : s.phase = .intro)
    (hs : transition s (.candidateTurnReceived turnId text now) cfg = .ok ⟨s', out⟩)
    (ht : transition t (.candidateTurnReceived turnId text now) cfg = .ok ⟨t', out'⟩) :
    Together c s' t' := by
  rw [transition_of_intro hintro] at hs
  rw [transition_of_intro (hb.phase ▸ hintro)] at ht
  have hfirst : ∀ sharp, Beside c sharp s' t' ∧ s'.tech.competencyIndex = 0 ∧
      s'.tech.position = t'.tech.position := by
    intro sharp
    rcases hb.onIntroCandidateTurn now ⟨s', out⟩ ⟨t', out'⟩ hs ht with ⟨h1, _, h2, h3⟩
    exact ⟨h1, h2, h3⟩
  rcases hfirst (fun _ => true) with ⟨hbeside, hzero, hposition⟩
  have hzero' : t'.tech.competencyIndex = 0 := (congrArg Prod.fst hposition).symm.trans hzero
  refine Or.inr (Or.inr ⟨hbeside, ?_, ?_, fun _ _ => ⟨hposition, (hfirst _).1⟩⟩)
  · intro _ plan _ k q h0 hk
    omega
  · intro _ plan _ k q h0 hk
    omega

/-- Events that move nothing in the plan. -/
theorem together_of_kept {f : Event} {t t' : SessionState} {out' : List Command}
    (hb : Beside c (fun _ => true) s t) (hu : Unvisited c s) (hu' : Unvisited c t)
    (hoff : ¬ OnNode c s) (hsame : SameBut c e f) (hitems : itemsAbout c e = itemsAbout c f)
    (hidle : awaitsAnswer s e = false) (hquiet : s.phase = .intro → e.isCandidateTurn = false)
    (hs : step cfg s e = .ok (s', out)) (ht : step cfg t f = .ok (t', out')) :
    Together c s' t' := by
  have hidle' : awaitsAnswer t f = false := by
    rw [← hb.awaitsAnswer]
    simp only [awaitsAnswer, hsame.isCandidateTurn] at hidle ⊢
    exact hidle
  have halike := hb.step hsame hitems hidle _ _ ((step_eq_ok_iff cfg _ _ _ _).mp hs)
    ((step_eq_ok_iff cfg _ _ _ _).mp ht)
  have hkept := kept_of_edge (edge_of_step hs) hidle hquiet
  have hkept' := kept_of_edge (edge_of_step ht) hidle' (fun hi => by
    rw [hsame.isCandidateTurn]
    exact hquiet (hb.phase.trans hi))
  have hunvisited : ∀ u u' : SessionState, Unvisited c u → u'.tech.position = u.tech.position →
      (u'.phase = .tech → u.phase = .tech ∧ u'.plan = u.plan) → Unvisited c u' := by
    intro u u' h hposition hplans hp plan hplan k q h0 hk
    rcases hplans hp with ⟨hp0, hplan0⟩
    have hindex : u'.tech.competencyIndex = u.tech.competencyIndex := congrArg Prod.fst hposition
    exact h hp0 plan (hplan0 ▸ hplan) k q h0 (hindex ▸ hk)
  refine Or.inr (Or.inr ⟨halike.1, hunvisited s s' hu hkept.1 hkept.2,
    hunvisited t t' hu' hkept'.1 hkept'.2, ?_⟩)
  -- Nobody gets to `c` by such an event.
  rintro ⟨hp, plan, q, hplan, hq, hc⟩ _
  rcases hkept.2 hp with ⟨hp0, hplan0⟩
  have hindex : s'.tech.competencyIndex = s.tech.competencyIndex := congrArg Prod.fst hkept.1
  exact absurd ⟨hp0, plan, q, hplan0 ▸ hplan, hindex ▸ hq, hc⟩ hoff

/-- One step on the way to `c`. -/
theorem together_step {x y : Taken SessionState Event Command}
    (h : Together c x.before y.before) (hoff : ¬ OnNode c x.before) (hoff' : ¬ OnNode c y.before)
    (hsame : SameBut c x.event y.event) (hitems : itemsAbout c x.event = itemsAbout c y.event)
    (hx : step cfg x.before x.event = .ok (x.after, x.out))
    (hy : step cfg y.before y.event = .ok (y.after, y.out)) : Together c x.after y.after := by
  have hedge := edge_of_step hx
  have hedge' := edge_of_step hy
  have hxt := (step_eq_ok_iff cfg _ _ _ _).mp hx
  have hyt := (step_eq_ok_iff cfg _ _ _ _).mp hy
  rcases h with hp | hp | ⟨hb, hu, hu', _⟩
  · exact Or.inl (pastTech_of_edge hedge hp)
  · exact Or.inr (Or.inl (pastTech_of_edge hedge' hp))
  by_cases hcandidate : x.event.isCandidateTurn = true
  · have heq := hsame.eq_of_candidateTurn hcandidate
    rw [heq] at hedge' hyt
    cases hevent : x.event with
    | candidateTurnReceived turnId text now =>
        rw [hevent] at hedge hedge' hxt hyt
        by_cases hwaits : awaitsAnswer x.before (.candidateTurnReceived turnId text now) = true
        · exact together_of_answers hb hu hu' hoff hoff' hwaits hedge hedge'
        by_cases hintro : x.before.phase = .intro
        · exact together_of_intro hb hintro hxt hyt
        · exact together_of_kept hb hu hu' hoff hsame hitems
            (hevent ▸ Bool.eq_false_iff.mpr hwaits) (fun hi => absurd hi hintro) hx hy
    | _ => rw [hevent] at hcandidate; cases hcandidate
  · have hquiet := Bool.eq_false_iff.mpr hcandidate
    exact together_of_kept hb hu hu' hoff hsame hitems (awaitsAnswer_eq_false _ _ hquiet)
      (fun _ => hquiet) hx hy

end Steps

/-- The same events, but for assessments with another focus than `c`, which
    agree on what they assess `c` at. -/
abbrev SameElsewhere (c : String) (x y : Taken SessionState Event Command) : Prop :=
  SameBut c x.event y.event ∧ itemsAbout c x.event = itemsAbout c y.event

section Runs
variable [Scalars] {cfg : OrchestratorConfig} {sessionId : Uuid} {planInput : Dict String Json}
  {c : String} {s t s' t' : SessionState}
  {pre pre' post post' : List (Taken SessionState Event Command)}

/-- Two sessions over one plan that first arrive at `c` on the same event. -/
theorem arrive_together (hs : SessionRun cfg sessionId planInput pre s)
    (ht : SessionRun cfg sessionId planInput pre' t)
    (hpre : List.Forall₂ (SameElsewhere c) pre pre')
    (hoff : ∀ x ∈ pre, ¬ OnNode c x.before) (hoff' : ∀ y ∈ pre', ¬ OnNode c y.before)
    (hon : OnNode c s) (hon' : OnNode c t) :
    Beside c (except (arrivalTurn s)) s t ∧ s.tech.position = t.tech.position := by
  have hstart : Together c (initialState sessionId planInput cfg)
      (initialState sessionId planInput cfg) := by
    have hcreated : (initialState sessionId planInput cfg).phase ≠ .tech := by
      simp only [initialState]
      decide
    refine Or.inr (Or.inr ⟨?_, fun hp => absurd hp hcreated, fun hp => absurd hp hcreated,
      fun h => absurd h.1 hcreated⟩)
    exact ⟨rfl, rfl, rfl, rfl, rfl, ⟨rfl, rfl, fun _ => Iff.rfl⟩, rfl, rfl, rfl, rfl, rfl, rfl⟩
  have htogether := (Run.lockstep (Q := fun _ _ => True)
    (fun x y h hP hx hy => ⟨together_step h hP.2.1 hP.2.2 hP.1.1 hP.1.2 hx hy, trivial⟩)
    hstart hs ht (forall₂_and_mem hpre hoff hoff')).1
  rcases htogether with hp | hp | ⟨_, _, _, h⟩
  · exact absurd hon hp.not_onNode
  · exact absurd hon' hp.not_onNode
  · exact (h hon hon').symm

/-- Two sessions on `c` that agree on what is read there decide alike until the
    first of them leaves `c`. -/
theorem decide_alike {arrival : Uuid} (h : Beside c (except arrival) s t)
    (hpos : s.tech.position = t.tech.position) (hs : Run (step cfg) s post s')
    (ht : Run (step cfg) t post' t') (hpost : List.Forall₂ (SameElsewhere c) post post')
    (hon : ∀ x ∈ post, OnNode c x.before) :
    List.Forall₂ (SameDecision cfg arrival) post post' :=
  (Run.lockstep (R := fun u v => Beside c (except arrival) u v ∧ u.tech.position = v.tech.position)
    (fun _ _ hR hP hx hy => decides_alike hR.1 hR.2 hP.2.1 hP.1.1 hP.1.2 hx hy)
    ⟨h, hpos⟩ hs ht (forall₂_and_mem hpost hon (fun _ _ => trivial))).2

end Runs

/-- Take two sessions over one plan whose events are the same, but for
    assessments in outputs for other competencies than `c`, about other nodes
    than `c`. If they first arrive at `c` on the same event, then until control
    leaves `c` they compute the same verdicts and issue the same moves. -/
theorem adjudication_local [Scalars] (cfg : OrchestratorConfig) (sessionId : Uuid)
    (planInput : Dict String Json) (c : String)
    (pre pre' post post' : List (Taken SessionState Event Command)) (s t s' t' : SessionState)
    (hs : SessionRun cfg sessionId planInput pre s)
    (ht : SessionRun cfg sessionId planInput pre' t)
    (hpre : List.Forall₂ (SameElsewhere c) pre pre')
    (hoff : ∀ x ∈ pre, ¬ OnNode c x.before) (hoff' : ∀ y ∈ pre', ¬ OnNode c y.before)
    (hon : OnNode c s) (hon' : OnNode c t)
    (hs' : Run (step cfg) s post s') (ht' : Run (step cfg) t post' t')
    (hpost : List.Forall₂ (SameElsewhere c) post post')
    (hstay : ∀ x ∈ post, OnNode c x.before) :
    List.Forall₂ (SameDecision cfg (arrivalTurn s)) post post' := by
  rcases arrive_together hs ht hpre hoff hoff' hon hon' with ⟨hbeside, hpos⟩
  exact decide_alike hbeside hpos hs' ht' hpost hstay

section SmallInterview

/-- An output for the first competency of the small interview. -/
def sqlOutput (turnId : Uuid) (items : List AssessmentItem) : AssessorOutput :=
  ⟨turnId, smallId, "sql", items, [], false, none⟩

/-- One item of an output. -/
def itemOn (node : String) (level : Fin 6) : AssessmentItem := ⟨node, level, 9 / 10, "", []⟩

/-- The small interview up to the answer after the first assessment. -/
def towardsApi (items : List AssessmentItem) : List Event :=
  smallEvents.take 5 ++ [.assessmentCompleted ⟨101⟩ (sqlOutput ⟨101⟩ items) 5000000,
    .candidateTurnReceived ⟨102⟩ "another" 6000000]

/-- How it goes on: the second assessment comes in, then two answers, the last
    one when the five minutes are over. -/
def onApi (items : List AssessmentItem) : List Event :=
  [.interviewerReplyReady (smallTurn 3) ⟨"REST?", .acknowledgeAndTransition⟩ 7000000,
    .assessmentCompleted ⟨102⟩ (sqlOutput ⟨102⟩ items) 7500000,
    .candidateTurnReceived ⟨103⟩ "verbs" 8000000,
    .interviewerReplyReady (smallTurn 4) ⟨"Why?", .depthProbe⟩ 9000000,
    .candidateTurnReceived ⟨104⟩ "" 400000000]

theorem towardsApi_related {P : Event → Event → Prop} (hrefl : ∀ e, P e e)
    (items items' : List AssessmentItem)
    (h : P (.assessmentCompleted ⟨101⟩ (sqlOutput ⟨101⟩ items) 5000000)
      (.assessmentCompleted ⟨101⟩ (sqlOutput ⟨101⟩ items') 5000000)) :
    List.Forall₂ P (towardsApi items) (towardsApi items') :=
  List.rel_append (List.forall₂_same.mpr (fun e _ => hrefl e))
    (List.Forall₂.cons h (List.forall₂_same.mpr (fun e _ => hrefl e)))

theorem onApi_related {P : Event → Event → Prop} (hrefl : ∀ e, P e e)
    (items items' : List AssessmentItem)
    (h : P (.assessmentCompleted ⟨102⟩ (sqlOutput ⟨102⟩ items) 7500000)
      (.assessmentCompleted ⟨102⟩ (sqlOutput ⟨102⟩ items') 7500000)) :
    List.Forall₂ P (onApi items) (onApi items') :=
  List.Forall₂.cons (hrefl _)
    (List.Forall₂.cons h (List.forall₂_same.mpr (fun e _ => hrefl e)))

/-- The verdicts that a run computes on `c`. -/
def verdictsOn (cfg : OrchestratorConfig) (c : String)
    (ts : List (Taken SessionState Event Command)) : List Adjudication :=
  ts.filterMap (fun t => if OnNode c t.before then verdictOn cfg t.before t.event else none)

/-- The assessments of the first competency differ, in outputs for it; on the
    second one the verdicts are a clarification and a spent budget either way. -/
theorem adjudication_local_small : ∃ pre pre' post post' s t s' t',
    SmallRun pre s ∧ SmallRun pre' t ∧ OnNode "api" s ∧ OnNode "api" t ∧
      Run (@step Scalars.strict OrchestratorConfig.committed) s post s' ∧
      Run (@step Scalars.strict OrchestratorConfig.committed) t post' t' ∧
      (verdictsOn OrchestratorConfig.committed "api" post).map Adjudication.verdict
        = [.clarify, .none] ∧
      List.Forall₂ (SameDecision OrchestratorConfig.committed (arrivalTurn s)) post post' := by
  have hrec : (smallRecord (towardsApi [itemOn "sql" 3])).map (fun r =>
      (decide (∀ x ∈ r.1, ¬ OnNode "api" x.before), decide (OnNode "api" r.2),
        (record (@step Scalars.strict OrchestratorConfig.committed) r.2
          (onApi [itemOn "sql" 1])).map (fun q => (decide (∀ x ∈ q.1, OnNode "api" x.before),
            (verdictsOn OrchestratorConfig.committed "api" q.1).map Adjudication.verdict))))
      = .ok (true, true, .ok (true, [.clarify, .none])) := by decide +kernel
  have hrec' : (smallRecord (towardsApi [itemOn "sql" 2])).map (fun r =>
      (decide (∀ x ∈ r.1, ¬ OnNode "api" x.before), decide (OnNode "api" r.2),
        (record (@step Scalars.strict OrchestratorConfig.committed) r.2
          (onApi [])).map (fun _ => true)))
      = .ok (true, true, .ok true) := by decide +kernel
  -- The two interviews up to the second competency, and what follows on it.
  rcases exists_run_of_events _ _ _ _ _ hrec with ⟨pre, s, hs, hpre, hproj⟩
  rcases exists_run_of_events _ _ _ _ _ hrec' with ⟨pre', t, ht, hpre', hproj'⟩
  simp only [Prod.mk.injEq, decide_eq_true_eq] at hproj hproj'
  rcases exists_run_of_events _ _ _ _ _ hproj.2.2 with ⟨post, s', hs', hpost, hlast⟩
  rcases exists_run_of_events _ _ _ _ _ hproj'.2.2 with ⟨post', t', ht', hpost', _⟩
  simp only [Prod.mk.injEq, decide_eq_true_eq] at hlast
  -- Their events differ in what the assessor says about the first one.
  have hbefore : List.Forall₂ (SameElsewhere "api") pre pre' := by
    have h := towardsApi_related (P := fun e f => SameBut "api" e f ∧
        itemsAbout "api" e = itemsAbout "api" f) (fun e => ⟨SameBut.same e, rfl⟩)
      [itemOn "sql" 3] [itemOn "sql" 2]
      ⟨SameBut.assessed _ _ _ _ (by decide), by decide⟩
    rw [← hpre, ← hpre', List.forall₂_map_left_iff, List.forall₂_map_right_iff] at h
    exact h
  have hafter : List.Forall₂ (SameElsewhere "api") post post' := by
    have h := onApi_related (P := fun e f => SameBut "api" e f ∧
        itemsAbout "api" e = itemsAbout "api" f) (fun e => ⟨SameBut.same e, rfl⟩)
      [itemOn "sql" 1] []
      ⟨SameBut.assessed _ _ _ _ (by decide), by decide⟩
    rw [← hpost, ← hpost', List.forall₂_map_left_iff, List.forall₂_map_right_iff] at h
    exact h
  exact ⟨pre, pre', post, post', s, t, s', t', hs, ht, hproj.2.1, hproj'.2.1, hs', ht', hlast.2,
    @adjudication_local Scalars.strict OrchestratorConfig.committed smallId smallInput "api" pre
      pre' post post' s t s' t' hs ht hbefore hproj.1 hproj'.1 hproj.2.1 hproj'.2.1 hs' ht'
      hafter hlast.1⟩

/-- Two recordings of the small interview, their events and the verdicts of
    each on its second competency. -/
theorem verdicts_of_records {items items' later later' : List AssessmentItem}
    {vs vs' : List Verdict}
    (h : (smallRecord (towardsApi items ++ onApi later)).map (fun r =>
      (verdictsOn OrchestratorConfig.committed "api" r.1).map Adjudication.verdict) = .ok vs)
    (h' : (smallRecord (towardsApi items' ++ onApi later')).map (fun r =>
      (verdictsOn OrchestratorConfig.committed "api" r.1).map Adjudication.verdict) = .ok vs') :
    ∃ ts us s t, SmallRun ts s ∧ SmallRun us t ∧
      List.Forall₂ (fun x y => SameBut "api" x.event y.event) ts us ∧
      (verdictsOn OrchestratorConfig.committed "api" ts).map Adjudication.verdict = vs ∧
      (verdictsOn OrchestratorConfig.committed "api" us).map Adjudication.verdict = vs' := by
  rcases exists_run_of_events _ _ _ _ _ h with ⟨ts, s, hs, hts, hv⟩
  rcases exists_run_of_events _ _ _ _ _ h' with ⟨us, t, ht, hus, hv'⟩
  have hfocus : "sql" ≠ "api" := by decide
  have hsame : List.Forall₂ (SameBut "api") (towardsApi items ++ onApi later)
      (towardsApi items' ++ onApi later') :=
    List.rel_append
      (towardsApi_related SameBut.same items items' (SameBut.assessed _ _ items' _ hfocus))
      (onApi_related SameBut.same later later' (SameBut.assessed _ _ later' _ hfocus))
  rw [← hts, ← hus, List.forall₂_map_left_iff, List.forall₂_map_right_iff] at hsame
  exact ⟨ts, us, s, t, hs, ht, hsame, hv, hv'⟩

/-- What an output for the first competency assesses decides when the second
    one is reached, and so on which answer its budget is spent. An item about
    the second one in such an output decides the verdicts on it outright. -/
theorem adjudication_not_local :
    (∃ ts us s t, SmallRun ts s ∧ SmallRun us t ∧
      List.Forall₂ (fun x y => SameBut "api" x.event y.event) ts us ∧
      (verdictsOn OrchestratorConfig.committed "api" ts).map Adjudication.verdict
        = [.clarify, .none] ∧
      (verdictsOn OrchestratorConfig.committed "api" us).map Adjudication.verdict = [.none]) ∧
    (∃ ts us s t, SmallRun ts s ∧ SmallRun us t ∧
      List.Forall₂ (fun x y => SameBut "api" x.event y.event) ts us ∧
      (verdictsOn OrchestratorConfig.committed "api" ts).map Adjudication.verdict
        = [.answered, .answered] ∧
      (verdictsOn OrchestratorConfig.committed "api" us).map Adjudication.verdict
        = [.clarify, .none]) := by
  have hslow : (smallRecord (towardsApi [itemOn "sql" 1] ++ onApi [itemOn "sql" 1])).map (fun r =>
      (verdictsOn OrchestratorConfig.committed "api" r.1).map Adjudication.verdict)
      = .ok [.none] := by decide +kernel
  have hquick : (smallRecord (towardsApi [itemOn "sql" 3] ++ onApi [itemOn "sql" 1])).map (fun r =>
      (verdictsOn OrchestratorConfig.committed "api" r.1).map Adjudication.verdict)
      = .ok [.clarify, .none] := by decide +kernel
  have hcross : (smallRecord (towardsApi [itemOn "sql" 3] ++ onApi [itemOn "api" 3])).map (fun r =>
      (verdictsOn OrchestratorConfig.committed "api" r.1).map Adjudication.verdict)
      = .ok [.answered, .answered] := by decide +kernel
  exact ⟨verdicts_of_records hquick hslow, verdicts_of_records hcross hquick⟩

end SmallInterview

end TechScreen
