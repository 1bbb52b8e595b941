import Mathlib.Data.List.DropRight
import TechScreen.Services.Transcript

/-!
# The Context of an Assessment

An assessor is given the last four exchanges before the question and the answer it
is about, so that it sees the answer in its context. The prompt asks for the last
four exchanges in the competency; the service counts four entries back from the
end of the transcript, wherever the competency began.

A competency is entered with a candidate's message, by which the last one was left
or the interview was opened. Since then every answer was one question and one
message, so the two windows agree once there are two earlier answers, and before
that the service always reaches back over the boundary.

## Main definitions

* `sinceEntry`: The steps since the machine has entered its competency.
* `spokenSince`, `answersSince`: What was said in them, and the answers.
* `priorTurnsOf`: The last exchanges in the competency.
* `Focused`: The transcript since the competency was entered.

## Theorems

* `lastN_append_eq_iff`: When a window does not reach over a boundary.
* `focused_of_converse`: What a step does to the transcript of the competency.
* `prior_turns_in_competency`: When the context stays in the competency.
-/

namespace TechScreen

open Lib

section Windows
variable {α β : Type}

theorem lastN_length (n : Nat) (l : List α) : (lastN n l).length = min n l.length := by
  unfold lastN
  rw [List.length_drop]
  omega

/-- A window that is not wider than what follows a boundary does not reach over
    it. -/
theorem lastN_append_of_le {n : Nat} (a : List α) {b : List α} (h : n ≤ b.length) :
    lastN n (a ++ b) = lastN n b := by
  unfold lastN
  rw [List.length_append, Nat.add_sub_assoc h, List.drop_append, List.drop_of_length_le (by omega),
    Nat.add_sub_cancel_left, List.nil_append]

/-- It does reach over the boundary if it is wider, and there is something. -/
theorem lastN_append_eq_iff {n : Nat} {a b : List α} (ha : a ≠ []) (f : α → β) :
    (lastN n (a ++ b)).map f = (lastN n b).map f ↔ n ≤ b.length := by
  constructor
  · -- The two windows differ in length.
    intro h
    have hlength := congrArg List.length h
    have hsome := List.length_pos_of_ne_nil ha
    rw [List.length_map, List.length_map, lastN_length, lastN_length, List.length_append]
      at hlength
    omega
  · intro h
    rw [lastN_append_of_le a h]

end Windows

section Competency

/-- The step enters a competency. -/
def entersCompetency (m : Taken Working Event Command) : Bool :=
  visit (m.image Working.state (fun _ e => e)) ≠ []

/-- The steps since the machine has entered the competency that it is on. -/
def sinceEntry (ms : List (Taken Working Event Command)) : List (Taken Working Event Command) :=
  ms.rtakeWhile (fun m => !entersCompetency m)

/-- The answers that have been taken since then. -/
def answersSince (ms : List (Taken Working Event Command)) : Nat :=
  ((sinceEntry ms).map (fun m => acceptedAnswer (m.image Working.state (fun _ e => e)))).sum

variable (svc : DevSession)

/-- What a step of the conversation adds to the transcript. -/
def addedBy (m : Taken Working Event Command) : List TranscriptEntry :=
  m.event.said ++ m.out.flatMap (Command.entries svc m.after.state)

/-- What has been said since the competency was entered. -/
def spokenSince (ms : List (Taken Working Event Command)) : List TranscriptEntry :=
  (sinceEntry ms).flatMap (addedBy svc)

/-- The last exchanges that took place in the competency, before the question that
    has just been answered. -/
def priorTurnsOf (ms : List (Taken Working Event Command)) : List (TranscriptRole × String) :=
  (lastN priorTurnsMax (spokenSince svc ms).dropLast).map (fun entry => (entry.role, entry.text))

theorem sinceEntry_entered (ms : List (Taken Working Event Command))
    {m : Taken Working Event Command} (h : entersCompetency m = true) :
    sinceEntry (ms ++ [m]) = [] :=
  List.rtakeWhile_concat_neg _ _ _ (by rw [h]; exact Bool.false_ne_true)

theorem sinceEntry_stayed (ms : List (Taken Working Event Command))
    {m : Taken Working Event Command} (h : entersCompetency m = false) :
    sinceEntry (ms ++ [m]) = sinceEntry ms ++ [m] :=
  List.rtakeWhile_concat_pos _ _ _ (by rw [h]; rfl)

/-- A step that stays in the technical phase without entering a competency came
    from there. -/
theorem before_of_stayed {m : Taken Working Event Command} (h : entersCompetency m = false)
    (hafter : m.after.state.phase = .tech) : m.before.state.phase = .tech := by
  by_contra hbefore
  have hvisit : visit (m.image Working.state (fun _ e => e)) ≠ [] := by
    unfold visit
    rw [if_pos ⟨hafter, fun hboth => hbefore hboth.1⟩]
    exact List.cons_ne_nil _ _
  rw [entersCompetency, decide_eq_true hvisit] at h
  cases h

/-- A competency is entered with a candidate's message. -/
theorem turn_of_entry [Scalars] {cfg : OrchestratorConfig} {s s' : SessionState} {e : Event}
    {out : List Command} (hedge : Edge cfg s e s' out) (h : visit ⟨s, e, s', out⟩ ≠ []) :
    e.isCandidateTurn = true := by
  have hsame : s'.phase = s.phase → s'.tech.competencyIndex = s.tech.competencyIndex →
      e.isCandidateTurn = true := by
    intro hphase hindex
    refine absurd (if_neg ?_) h
    rintro ⟨hafter, hmoved⟩
    exact hmoved ⟨hphase.symm.trans hafter, hindex.symm⟩
  have helsewhere : s'.phase ≠ .tech → e.isCandidateTurn = true :=
    fun hafter => absurd (if_neg (fun hboth => hafter hboth.1)) h
  cases hedge with
  | entered | probed | seeded | advanced | finished | asked => rfl
  | ignored e hidle => exact hsame rfl rfl
  | opened now p hphase hvalid => exact helsewhere (by simp [opened])
  | cutShort now p hphase hp hover => exact helsewhere (by simp [issueInterviewer, inQa])
  | closed e activity hphase => exact helsewhere (by simp [enterClose])
  | completed e hphase => exact helsewhere (by simp [complete])
  | aborted e reason decision persist hlive hturn => exact helsewhere (by simp [abort])
  | delivered turnId output now hphase hawaiting hpending =>
      obtain ⟨drift, hdrift⟩ := noteDrift_fst s output.internalMoveExecuted cfg
      exact hsame rfl (by simp only [delivered, hdrift])
  | retried turnId errorKind now pending hphase hawaiting hpending hid hstreak =>
      exact hsame rfl rfl
  | assessed forTurnId output now hlive hpending =>
      rw [onAssessmentCompleted, if_neg (not_not.mpr hpending)] at hsame
      exact hsame rfl rfl
  | assessmentFailed forTurnId errorKind now hlive hpending =>
      rw [onAssessmentFailed, if_neg (not_not.mpr hpending)] at hsame
      refine hsame rfl ?_
      cases s.tech.assessmentFocus.get? forTurnId with
      | none => rfl
      | some node => rfl
  | reconnected now hlive => exact hsame rfl rfl

/-- The transcript since the competency was entered: it was entered with a message,
    and every answer since then has followed a question. -/
structure Focused (ms : List (Taken Working Event Command)) (w : Working) : Prop where
  entered : ∃ (before : List TranscriptEntry) (message : Message),
    w.transcript = before ++ message.val :: spokenSince svc ms
  worded : ∀ x ∈ spokenSince svc ms, x.text ≠ ""
  length : (spokenSince svc ms).length
    = 2 * answersSince ms + if w.state.awaiting = some .candidate then 1 else 0

variable {svc} {ms : List (Taken Working Event Command)} {m : Taken Working Event Command}
  {a b : Working}

/-- What a step that stays adds is spoken in the competency. -/
theorem Focused.stay (h : Focused svc ms a) (hstays : entersCompetency m = false)
    (hadded : b.transcript = a.transcript ++ addedBy svc m)
    (hworded : ∀ x ∈ addedBy svc m, x.text ≠ "")
    (hlength : (addedBy svc m).length + (if a.state.awaiting = some .candidate then 1 else 0)
      = 2 * acceptedAnswer (m.image Working.state (fun _ e => e))
        + if b.state.awaiting = some .candidate then 1 else 0) :
    Focused svc (ms ++ [m]) b := by
  have hspoken : spokenSince svc (ms ++ [m]) = spokenSince svc ms ++ addedBy svc m := by
    unfold spokenSince
    rw [sinceEntry_stayed ms hstays, List.flatMap_append, List.flatMap_singleton]
  have hanswers : answersSince (ms ++ [m])
      = answersSince ms + acceptedAnswer (m.image Working.state (fun _ e => e)) := by
    unfold answersSince
    rw [sinceEntry_stayed ms hstays, List.map_append, List.sum_append, List.map_singleton,
      List.sum_singleton]
  obtain ⟨before, message, htranscript⟩ := h.entered
  refine ⟨⟨before, message, ?_⟩, fun x hx => ?_, ?_⟩
  · rw [hadded, htranscript, hspoken, List.append_assoc, List.cons_append]
  · rw [hspoken] at hx
    exact (List.mem_append.mp hx).elim (h.worded x) (hworded x)
  · have hbefore := h.length
    rw [hspoken, List.length_append, hanswers]
    omega

variable [Scalars] {e : Event} {out : List Command}

/-- What a step adds is spoken in the competency, unless the step enters one. -/
theorem focused_of_converse (hinv : StateInv svc.config a.state) (hfits : e.Fits svc a)
    (hab : converse svc a e = .ok (b, out)) (h : a.state.phase = .tech → Focused svc ms a)
    (hphase : b.state.phase = .tech) : Focused svc (ms ++ [⟨a, e, b, out⟩]) b := by
  obtain ⟨htransition, htranscript⟩ := (converse_eq_ok_iff _ _ _ _).mp hab
  have hadded : b.transcript = a.transcript ++ addedBy svc ⟨a, e, b, out⟩ := by
    rw [htranscript, List.append_assoc]
    rfl
  have hspoken : ∀ xs, b.transcript = a.transcript ++ xs → addedBy svc ⟨a, e, b, out⟩ = xs :=
    fun xs hxs => List.append_cancel_left (hadded.symm.trans hxs)
  have hover : ¬ live b.state → Focused svc (ms ++ [⟨a, e, b, out⟩]) b :=
    fun hdead => absurd (by rw [live, hphase]; decide) hdead
  cases hturn : e.isCandidateTurn with
  | false =>
      -- No competency is entered, and no answer is taken.
      have hstays : entersCompetency ⟨a, e, b, out⟩ = false := by
        by_contra henters
        rw [Bool.not_eq_false] at henters
        have hentry := turn_of_entry (edge_of_transition htransition) (of_decide_eq_true henters)
        rw [hturn] at hentry
        cases hentry
      have hnone : acceptedAnswer ⟨a.state, e, b.state, out⟩ = 0 :=
        acceptedAnswer_of_idle (awaitsAnswer_eq_false _ _ hturn)
      have hfocused := h (before_of_stayed hstays hphase)
      cases beat_of_converse hinv hfits hab with
      | opens now hbefore hafter hseq hsaid => cases hafter.symm.trans hphase
      | hears | closes => cases hturn
      | replies output now hbefore hafter hseq hsaid =>
          refine hfocused.stay hstays hadded ?_ ?_
          · rw [hspoken _ hsaid]
            intro x hx
            rw [List.mem_singleton.mp hx]
            exact hfits.1
          · rw [hspoken _ hsaid, if_pos hafter.2, hbefore.2]
            exact congrArg (fun n => 2 * n + 1) hnone.symm
      | keeps e hsame hawaiting hseq hsaid =>
          rw [← List.append_nil a.transcript] at hsaid
          refine hfocused.stay hstays hadded ?_ ?_
          · rw [hspoken _ hsaid]
            exact fun x hx => absurd hx List.not_mem_nil
          · rw [hspoken _ hsaid, hawaiting]
            change 0 + _ = 2 * acceptedAnswer ⟨a.state, e, b.state, out⟩ + _
            rw [hnone]
      | ends e hafter hseq hsaid => exact hover hafter
  | true =>
      cases beat_of_converse hinv hfits hab with
      | opens | replies => cases hturn
      | hears turnId text now hbefore hafter hseq hsaid =>
          have hidle : ¬ b.state.awaiting = some .candidate := by
            rw [hafter.2]
            decide
          cases henters : entersCompetency ⟨a, .candidateTurnReceived turnId text now, b, out⟩ with
          | true =>
              -- The message enters the competency, and nothing has been said in it.
              have hnone := sinceEntry_entered ms henters
              refine ⟨⟨a.transcript, ⟨⟨.candidate, text, some turnId⟩, rfl, hfits.2.1⟩, ?_⟩, ?_, ?_⟩
              · unfold spokenSince
                rw [hsaid, hnone, List.flatMap_nil]
              · unfold spokenSince
                rw [hnone]
                exact fun x hx => absurd hx List.not_mem_nil
              · unfold spokenSince answersSince
                rw [hnone, if_neg hidle]
                rfl
          | false =>
              have htech := before_of_stayed henters hphase
              -- The message is an answer in the competency.
              have hawaits : AwaitsCandidate a.state :=
                hbefore.elim (fun hintro => by cases hintro.symm.trans htech) id
              have hone : acceptedAnswer
                  ⟨a.state, .candidateTurnReceived turnId text now, b.state, out⟩ = 1 :=
                acceptedAnswer_of_awaits (awaitsAnswer_of_tech htech hawaits.2)
              refine (h htech).stay henters hadded ?_ ?_
              · rw [hspoken _ hsaid]
                intro x hx
                rw [List.mem_singleton.mp hx]
                exact hfits.2.1
              · rw [hspoken _ hsaid, if_pos hawaits.2, if_neg hidle]
                exact congrArg (fun n => 2 * n) hone.symm
      | closes turnId text now hbefore hafter hseq hsaid => cases hafter.symm.trans hphase
      | keeps e hsame hawaiting hseq hsaid =>
          -- A message is in the transcript.
          cases e with
          | candidateTurnReceived turnId text now =>
              rw [← List.append_nil a.transcript] at hsaid
              cases hspoken _ hsaid
          | _ => cases hturn
      | ends e hafter hseq hsaid => exact hover hafter

/-- In the technical phase the transcript is focused. -/
theorem focused_of_run {planInput : Dict String Json} {now : Instant}
    (h : Run (converse svc) (created svc planInput now).row ms b)
    (hfits : ∀ m ∈ ms, m.event.Fits svc m.before) (hphase : b.state.phase = .tech) :
    Focused svc ms b := by
  induction h with
  | nil => cases hphase
  | snoc ms a b e out hrun hab ih =>
      have hfit : e.Fits svc a := hfits _ (List.mem_append_right _ (List.mem_singleton_self _))
      have hpre := ih (fun m hm => hfits m (List.mem_append_left _ hm))
      exact focused_of_converse (stateInv_of_converse hrun).1 hfit hab hpre hphase

end Competency

section Calls
variable (svc : DevSession)

/-- The context of an answer is a window on what was said before its question. -/
theorem priorTurns_of_spoken (s : SessionState) (c : RunAssessor)
    (before : List TranscriptEntry) {spoken : List TranscriptEntry} (answer : Message)
    (hsome : spoken ≠ []) (hworded : ∀ x ∈ spoken, x.text ≠ "") :
    (assessorInputs svc ⟨s, before ++ spoken ++ [answer.val]⟩ c).priorTurns
      = (lastN priorTurnsMax (before.filter (fun entry => entry.text ≠ "") ++ spoken.dropLast)).map
          (fun entry => (entry.role, entry.text)) := by
  have hfilter : (before ++ spoken ++ [answer.val]).filter (fun entry => entry.text ≠ "")
      = before.filter (fun entry => entry.text ≠ "") ++ spoken ++ [answer.val] := by
    have hkept : spoken.filter (fun entry => entry.text ≠ "") = spoken :=
      List.filter_eq_self.mpr (fun x hx => decide_eq_true (hworded x hx))
    rw [List.filter_append, List.filter_append, hkept]
    simp [answer.property.2]
  unfold assessorInputs
  simp only [hfilter, List.dropLast_concat, List.dropLast_append_of_ne_nil hsome]

/-- After these steps of the conversation, the next one asks for the assessment,
    and this is what the assessor is called with. -/
def AsksFor (ts : List (Taken World Choice Effect)) (ms : List (Taken Working Event Command))
    (m : Taken Working Event Command) (c : RunAssessor) (inputs : AssessorTurnInput) : Prop :=
  (∃ vs, conversation svc ts = ms ++ m :: vs) ∧ .runAssessor c ∈ m.out ∧
    inputs = assessorInputs svc ⟨m.after.state, m.before.transcript ++ m.event.said⟩ c

variable {svc} [Scalars] {planInput : Dict String Json} {now : Instant}
  {ts : List (Taken World Choice Effect)} {w : World}

omit [Scalars] in
theorem asksFor_of_askedIn {c : RunAssessor} {inputs : AssessorTurnInput}
    (h : AskedIn svc (conversation svc ts) c inputs) : ∃ ms m, AsksFor svc ts ms m c inputs := by
  obtain ⟨m, hm, hc, hinputs⟩ := h
  obtain ⟨ms, vs, hsplit⟩ := List.append_of_mem hm
  exact ⟨ms, m, ⟨vs, hsplit⟩, hc, hinputs⟩

/-- The context is that of the competency exactly when two earlier answers in it
    fill the window. -/
theorem priorTurns_eq_iff (h : Run (shellStep svc) (created svc planInput now) ts w)
    (hseq : Sequential ts) (hworded : ∀ t ∈ ts, t.event.Worded)
    {ms : List (Taken Working Event Command)} {m : Taken Working Event Command} {c : RunAssessor}
    {inputs : AssessorTurnInput} (hasks : AsksFor svc ts ms m c inputs) :
    (m.before.state.phase = .tech ∧ ∃ plan competency, m.before.state.plan = some plan ∧
      plan.competency m.before.state.tech.competencyIndex = some competency ∧
      inputs.competencyFocus = competency.nodeId.val) ∧
    (inputs.priorTurns = priorTurnsOf svc ms ↔ 2 ≤ answersSince ms) := by
  obtain ⟨⟨vs, hsplit⟩, hc, rfl⟩ := hasks
  obtain ⟨row, hrun, -, hfits⟩ := conversation_of_run svc h hseq hworded
  obtain ⟨hpre, hstep, hearlier, hfit⟩ := split_of_converse hrun hfits ms m vs hsplit
  have hinv := (stateInv_of_converse hpre).1
  have hedge := edge_of_transition ((converse_eq_ok_iff _ _ _ _).mp hstep).1
  obtain ⟨hawaits, hfocus⟩ := awaits_of_assessor hinv hedge hc
  obtain ⟨⟨hphase, hawaiting⟩, -⟩ := (awaitsAnswer_iff _ _).mp hawaits
  refine ⟨⟨hphase, hfocus⟩, ?_⟩
  have hfocused : Focused svc ms m.before := focused_of_run hpre hearlier hphase
  obtain ⟨before, message, htranscript⟩ := hfocused.entered
  have hlength := hfocused.length
  rw [if_pos hawaiting] at hlength
  -- The question at least has been asked in the competency.
  have hsome : spokenSince svc ms ≠ [] := by
    intro hnil
    rw [hnil, List.length_nil] at hlength
    omega
  obtain ⟨text, now', he⟩ := runAssessor_of_edge hedge hc
  rw [he] at hfit ⊢
  have htext : text ≠ "" := hfit.2.1
  let answer : Message := ⟨⟨.candidate, text, some c.turnId⟩, rfl, htext⟩
  have hsaid : m.before.transcript ++ (Event.candidateTurnReceived c.turnId text now').said
      = (before ++ [message.val]) ++ spokenSince svc ms ++ [answer.val] := by
    rw [htranscript, List.append_cons before]
    rfl
  -- The message with which the competency was entered is on the other side.
  have hother : (before ++ [message.val]).filter (fun entry => entry.text ≠ "") ≠ [] := by
    rw [List.filter_append]
    simp [message.property.2]
  rw [hsaid, priorTurns_of_spoken svc _ c _ _ hsome hfocused.worded, priorTurnsOf,
    lastN_append_eq_iff hother, List.length_dropLast, hlength, priorTurnsMax]
  omega

end Calls

/-- When calls and tasks are executed one after another, every assessor is called
    in a step of the conversation that asks for it, on the competency that the
    machine is on then; and its context is the last exchanges in that competency if
    and only if at least two answers have been taken in it before. -/
theorem prior_turns_in_competency [Scalars] (svc : DevSession) (planInput : Dict String Json)
    (now : Instant) (ts : List (Taken World Choice Effect)) (w : World)
    (h : Run (shellStep svc) (created svc planInput now) ts w) (hseq : Sequential ts)
    (hworded : ∀ t ∈ ts, t.event.Worded) :
    (∀ c inputs, (.assess c inputs ∈ w.tasks ∨ .assessorCalled c inputs ∈ outputs ts) →
      ∃ ms m, AsksFor svc ts ms m c inputs) ∧
    ∀ ms m c inputs, AsksFor svc ts ms m c inputs →
      (m.before.state.phase = .tech ∧ ∃ plan competency, m.before.state.plan = some plan ∧
        plan.competency m.before.state.tech.competencyIndex = some competency ∧
        inputs.competencyFocus = competency.nodeId.val) ∧
      (inputs.priorTurns = priorTurnsOf svc ms ↔ 2 ≤ answersSince ms) := by
  refine ⟨fun c inputs hc => ?_, fun ms m c inputs hasks =>
    priorTurns_eq_iff h hseq hworded hasks⟩
  obtain ⟨htasks, hcalls⟩ := assess_of_run svc h hseq
  exact asksFor_of_askedIn (hc.elim (fun htask => htasks _ htask) (hcalls c inputs))

section SmallService

/-- The assessment that a command asks for. -/
def Command.assessor? : Command → Option RunAssessor
  | .runAssessor c => some c
  | _ => none

/-- What the assessor is called with in this step of the conversation. -/
def askedAt (svc : DevSession) (ts : List (Taken World Choice Effect)) (k : Nat) :
    List (RunAssessor × AssessorTurnInput) :=
  ((conversation svc ts)[k]?.toList).flatMap (fun m => (m.out.filterMap Command.assessor?).map
    (fun c => (c,
      assessorInputs svc ⟨m.after.state, m.before.transcript ++ m.event.said⟩ c)))

theorem asksFor_of_askedAt {svc : DevSession} {ts : List (Taken World Choice Effect)} {k : Nat}
    {c : RunAssessor} {inputs : AssessorTurnInput} (h : (c, inputs) ∈ askedAt svc ts k) :
    ∃ m, AsksFor svc ts ((conversation svc ts).take k) m c inputs := by
  obtain ⟨m, hm, hasked⟩ := List.mem_flatMap.mp h
  obtain ⟨hlt, hget⟩ := List.getElem?_eq_some_iff.mp (Option.mem_toList.mp hm)
  obtain ⟨c', hc', hpair⟩ := List.mem_map.mp hasked
  obtain ⟨rfl, rfl⟩ := Prod.mk.inj hpair
  obtain ⟨command, hcommand, hassessor⟩ := List.mem_filterMap.mp hc'
  refine ⟨m, ⟨(conversation svc ts).drop (k + 1), ?_⟩, ?_, rfl⟩
  · rw [← hget, ← List.drop_eq_getElem_cons hlt, List.take_append_drop]
  · cases command with
    | runAssessor assessor =>
        cases hassessor
        exact hcommand
    | _ => cases hassessor

/-- The first answer of the small interview is assessed in the context of the
    opening and of the candidate's readiness. -/
theorem prior_turns_reach_back : ∃ ts w ms m c inputs, SmallShell ts w ∧ Sequential ts ∧
    (∀ t ∈ ts, t.event.Worded) ∧ AsksFor smallService ts ms m c inputs ∧
    inputs.priorTurns = [(.system, openingScriptPath), (.candidate, "ready")] ∧
    inputs.priorTurns ≠ priorTurnsOf smallService ms := by
  have hrec : (smallShellRecord smallExchanges).map (fun r => (sequentially r.1,
      r.1.all (fun t => t.event.worded), answersSince ((conversation smallService r.1).take 3),
      decide ((askedAt smallService r.1 3).map (fun x => x.2.priorTurns)
        = [[(.system, openingScriptPath), (.candidate, "ready")]])))
          = .ok (true, true, 0, true) := by decide +kernel
  obtain ⟨ts, w, hrun, hproj⟩ := exists_run_of_record _ _ _ _ _ hrec
  simp only [Prod.mk.injEq] at hproj
  obtain ⟨hcheck, hworded, hanswers, hcontext⟩ := hproj
  obtain ⟨⟨c, inputs⟩, hasked, hinputs⟩ :=
    List.mem_map.mp ((of_decide_eq_true hcontext).symm ▸ List.mem_cons_self)
  obtain ⟨m, hasks⟩ := asksFor_of_askedAt hasked
  have hseq := sequential_of_check hcheck
  have hiff := (@priorTurns_eq_iff smallService Scalars.strict smallInput 0 ts w hrun hseq
    (worded_of_check hworded) _ m c inputs hasks).2
  refine ⟨ts, w, _, m, c, inputs, hrun, hseq, worded_of_check hworded, hasks, hinputs,
    fun heq => ?_⟩
  have htwo := hiff.mp heq
  rw [hanswers] at htwo
  omega

/-- Two more answers to the first question of the plan. -/
def smallProbing : List Choice :=
  smallExchanges ++ .post "second" :: goes 15 4 (answering 3000000 "Why?" "sql" 0)
    ++ .post "third" :: goes 15 6 (answering 4000000 "REST?" "sql" 0)

/-- The third answer in a competency is assessed in the context of the other two. -/
theorem prior_turns_in_competency_small : ∃ ts w ms m c inputs, SmallShell ts w ∧
    Sequential ts ∧ AsksFor smallService ts ms m c inputs ∧ answersSince ms = 2 ∧
    inputs.priorTurns = priorTurnsOf smallService ms := by
  have hrec : (smallShellRecord smallProbing).map (fun r => (sequentially r.1,
      r.1.all (fun t => t.event.worded), answersSince ((conversation smallService r.1).take 7),
      (askedAt smallService r.1 7).isEmpty)) = .ok (true, true, 2, false) := by
    decide +kernel
  obtain ⟨ts, w, hrun, hproj⟩ := exists_run_of_record _ _ _ _ _ hrec
  simp only [Prod.mk.injEq] at hproj
  obtain ⟨hcheck, hworded, hanswers, hsome⟩ := hproj
  obtain ⟨⟨c, inputs⟩, hasked⟩ :=
    List.exists_mem_of_ne_nil _ (List.isEmpty_eq_false_iff.mp hsome)
  obtain ⟨m, hasks⟩ := asksFor_of_askedAt hasked
  have hseq := sequential_of_check hcheck
  have hall := @prior_turns_in_competency Scalars.strict smallService smallInput 0 ts w hrun hseq
    (worded_of_check hworded)
  exact ⟨ts, w, _, m, c, inputs, hrun, hseq, hasks, hanswers,
    (hall.2 _ m c inputs hasks).2.mpr (by rw [hanswers])⟩

end SmallService

end TechScreen
