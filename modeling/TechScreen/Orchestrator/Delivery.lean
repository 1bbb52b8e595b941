import TechScreen.Orchestrator.Invariant
import Mathlib.Data.Int.ConditionallyCompleteOrder
import Mathlib.Data.Set.Function
import Mathlib.Order.ConditionallyCompleteLattice.Basic
import Mathlib.Order.Interval.Set.Defs

/-!
# Delivery

An utterance is delivered once, and only for the turn the machine issued last.
Replies and failures may come twice, late, in any order or for turns of other
sessions; what they name is compared with the outstanding command, and only the
turn in flight is let through.

The outbound turns of a session are numbered by its structural counter, and a
turn's identifier is derived from its number. `TraceInv` ties what a run has
emitted to the counter: the turns were issued in the order of their numbers,
the delivered ones have increasing numbers, and while a move is in flight its
number is above everything scripted or delivered so far. Where the derivation
is injective on the numbers in use, equal identifiers are then equal turns.

## Main definitions

* `issued`: The outbound turns among some commands, in order.
* `deliveredIds`: The identifiers of the delivered utterances, in order.
* `InFlight`: An interviewer call is outstanding.
* `OutboundStep`: What a step does to the outbound turns.
* `TraceInv`: What a run has emitted, against the counter.
* `Stale`: A turn that is superseded, delivered, scripted or unknown.

## Theorems

* `outboundStep_of_edge`: Every edge is one of four outbound steps.
* `SessionRun.traceInv`: The trace invariant over a run.
* `exactly_once_delivery`: Deliveries are unique and current; stale replies
  and failures change nothing.
-/

namespace TechScreen

open Lib

/-- The outbound turn that a command issues. A reissued command is none. -/
def Command.issued : Command → Option PendingCommand
  | .runInterviewer c => some (.runInterviewer c)
  | .emitScriptedOpening c => some (.emitScriptedOpening c)
  | .emitScriptedClosing c => some (.emitScriptedClosing c)
  | _ => none

/-- The turn whose utterance a command delivers. -/
def Command.deliveredId : Command → Option Uuid
  | .deliverUtterance c => some c.turnId
  | _ => none

/-- The outbound turns among some commands, in order. -/
def issued (out : List Command) : List PendingCommand := out.filterMap Command.issued

/-- The identifiers of the delivered utterances, in order. -/
def deliveredIds (out : List Command) : List Uuid := out.filterMap Command.deliveredId

def PendingCommand.isScripted : PendingCommand → Bool
  | .emitScriptedOpening _ => true
  | .emitScriptedClosing _ => true
  | _ => false

/-- An interviewer call is outstanding. -/
def InFlight (s : SessionState) : Prop :=
  (s.phase = .tech ∨ s.phase = .qa) ∧ s.awaiting = some .interviewer

theorem issued_append (a b : List Command) : issued (a ++ b) = issued a ++ issued b :=
  List.filterMap_append

theorem deliveredIds_append (a b : List Command) :
    deliveredIds (a ++ b) = deliveredIds a ++ deliveredIds b :=
  List.filterMap_append

/-- What one step does to the outbound turns: nothing, a new turn, a second
    attempt at the turn in flight, or its delivery. -/
inductive OutboundStep (s s' : SessionState) (out : List Command) : Prop
  | quiet (hissued : issued out = []) (hdelivered : deliveredIds out = [])
      (hseq : s'.turnSeq = s.turnSeq)
      (hflight : InFlight s' → InFlight s ∧ s'.pendingCommand = s.pendingCommand)
  | issues (p : PendingCommand) (hissued : issued out = [p]) (hdelivered : deliveredIds out = [])
      (hseq : s'.turnSeq = s.turnSeq + 1)
      (hid : p.turnId = deriveTurnId s.sessionId (turnPath s.turnSeq))
      (hflight : InFlight s' → ∃ r, p = .runInterviewer r ∧ s'.pendingCommand = some p)
  | retries (r : RunInterviewer) (hbefore : InFlight s) (hissued : issued out = [.runInterviewer r])
      (hdelivered : deliveredIds out = []) (hseq : s'.turnSeq = s.turnSeq)
      (hid : r.turnId = deriveTurnId s.sessionId (turnPath (s.turnSeq - 1)))
      (hpending : s'.pendingCommand = some (.runInterviewer r))
  | delivers (r : RunInterviewer) (hbefore : InFlight s) (hafter : ¬ InFlight s')
      (hissued : issued out = []) (hdelivered : deliveredIds out = [r.turnId])
      (hseq : s'.turnSeq = s.turnSeq) (hpending : s.pendingCommand = some (.runInterviewer r))
      (hid : r.turnId = deriveTurnId s.sessionId (turnPath (s.turnSeq - 1)))

section Steps
variable {cfg : OrchestratorConfig} {s s' : SessionState} {e : Event} {out : List Command}

/-- Issuing a move is issuing its turn. -/
theorem OutboundStep.move {staged : SessionState} (move : InterviewerMove) (node : Option String)
    (ctx : Dict String Json) (hid : staged.sessionId = s.sessionId)
    (hseq : staged.turnSeq = s.turnSeq)
    (hissued : issued out = [.runInterviewer (interviewerCommand s move node ctx)])
    (hdelivered : deliveredIds out = []) :
    OutboundStep s (issueInterviewer staged move node ctx).1 out := by
  refine OutboundStep.issues _ hissued hdelivered ?_ rfl (fun _ => ⟨_, rfl, ?_⟩)
  · simp only [issueInterviewer, hseq]
  · simp only [issueInterviewer, interviewerCommand, hid, hseq]

/-- The commands of an answer that leaves a competency issue its one move. -/
theorem issued_leaving {now : Instant} (a : Answer s now) (assessor : RunAssessor)
    (interviewer : RunInterviewer) :
    issued (.runAssessor assessor :: .runInterviewer interviewer
      :: (a.gap cfg ++ [.persistState])) = [.runInterviewer interviewer] := by
  unfold Answer.gap
  split
  · rfl
  · rfl

theorem deliveredIds_leaving {now : Instant} (a : Answer s now) (assessor : RunAssessor)
    (interviewer : RunInterviewer) :
    deliveredIds (.runAssessor assessor :: .runInterviewer interviewer
      :: (a.gap cfg ++ [.persistState])) = [] := by
  unfold Answer.gap
  split
  · rfl
  · rfl

/-- In a reachable state, a call in flight is the outstanding command. -/
theorem StateInv.inFlight (h : StateInv cfg s) (hs : InFlight s) : MoveInFlight s := by
  rcases (h.conversing hs.1).2 with hmove | hreply
  · exact hmove
  · have hawaiting := hs.2
    rw [hreply.1] at hawaiting
    exact absurd hawaiting (by decide)

/-- Every edge is one of the four outbound steps. -/
theorem outboundStep_of_edge [Scalars] (h : StateInv cfg s) (hedge : Edge cfg s e s' out) :
    OutboundStep s s' out := by
  cases hedge with
  | ignored e hidle => exact OutboundStep.quiet rfl rfl rfl (fun hf => ⟨hf, rfl⟩)
  | opened now plan hphase hplan =>
      refine OutboundStep.issues _ rfl rfl rfl rfl (fun hf => ?_)
      rcases hf.1 with hp | hp
      · exact absurd hp (by simp only [opened]; decide)
      · exact absurd hp (by simp only [opened]; decide)
  | entered turnId text now plan hphase hplan => exact OutboundStep.move _ _ _ rfl rfl rfl rfl
  | probed turnId text now a hphase hawaiting hclarify hprobes =>
      exact OutboundStep.move _ _ _ rfl rfl rfl rfl
  | seeded turnId text now a seed hphase hawaiting hanswered hseed =>
      exact OutboundStep.move _ _ _ rfl rfl rfl rfl
  | advanced turnId text now a following hphase hawaiting hleaves hnext =>
      exact OutboundStep.move _ _ _ rfl rfl (issued_leaving a _ _) (deliveredIds_leaving a _ _)
  | finished turnId text now a hphase hawaiting hleaves hlast =>
      exact OutboundStep.move _ _ _ rfl rfl (issued_leaving a _ _) (deliveredIds_leaving a _ _)
  | cutShort now plan hphase hplan hover => exact OutboundStep.move _ _ _ rfl rfl rfl rfl
  | asked turnId text now plan hphase hplan => exact OutboundStep.move _ _ _ rfl rfl rfl rfl
  | closed e activity hphase =>
      refine OutboundStep.issues _ rfl rfl rfl rfl (fun hf => ?_)
      rcases hf.1 with hp | hp
      · exact absurd hp (by simp only [enterClose]; decide)
      · exact absurd hp (by simp only [enterClose]; decide)
  | completed e hphase =>
      refine OutboundStep.quiet rfl rfl rfl (fun hf => ?_)
      exact absurd hf.2 (by simp only [complete, reduceCtorEq, not_false_eq_true])
  | aborted e reason decision persist hlive hturn =>
      refine OutboundStep.quiet ?_ ?_ rfl (fun hf => ?_)
      · cases persist with
        | true => rfl
        | false => rfl
      · cases persist with
        | true => rfl
        | false => rfl
      · exact absurd hf.2 (by simp only [abort, reduceCtorEq, not_false_eq_true])
  | delivered turnId output now hphase hawaiting hpending =>
      -- The identifier is that of the move in flight, which is delivered once.
      rcases h.inFlight ⟨hphase, hawaiting⟩ with ⟨_, r, hr, _, _⟩
      have hid : r.turnId = turnId := by
        rw [answersPendingCommand, hr] at hpending
        exact of_decide_eq_true hpending
      refine OutboundStep.delivers r ⟨hphase, hawaiting⟩ (fun hf => ?_) rfl ?_ rfl hr
        (h.pendingId _ hr)
      · exact absurd hf.2 (by simp only [delivered, Option.some.injEq, reduceCtorEq,
          not_false_eq_true])
      · rw [hid]
        rfl
  | retried turnId errorKind now pending hphase hawaiting hpending hid hstreak =>
      exact OutboundStep.retries { pending with retry := true } ⟨hphase, hawaiting⟩ rfl rfl rfl
        (h.pendingId (.runInterviewer pending) hpending) rfl
  | assessed forTurnId output now hlive hpending =>
      rw [onAssessmentCompleted, if_neg (not_not.mpr hpending)]
      exact OutboundStep.quiet rfl rfl rfl (fun hf => ⟨hf, rfl⟩)
  | assessmentFailed forTurnId errorKind now hlive hpending =>
      rw [onAssessmentFailed, if_neg (not_not.mpr hpending)]
      exact OutboundStep.quiet rfl rfl rfl (fun hf => ⟨hf, rfl⟩)
  | reconnected now hlive =>
      refine OutboundStep.quiet ?_ ?_ rfl (fun hf => ⟨hf, rfl⟩)
      · unfold onReconnected
        cases s.pendingCommand with
        | none => rfl
        | some c => rfl
      · unfold onReconnected
        cases s.pendingCommand with
        | none => rfl
        | some c => rfl

end Steps

/-- The identifier of an outbound turn by its number. -/
def outboundId (sessionId : Uuid) (i : Int) : Uuid := deriveTurnId sessionId (turnPath i)

/-- What a run has emitted, against the structural counter it has reached. -/
structure TraceInv (sessionId : Uuid) (out : List Command) (s : SessionState) : Prop where
  ordered : (issued out).Pairwise (fun p q => ∃ i j, 0 ≤ i ∧ i ≤ j ∧ j < s.turnSeq ∧
    p.turnId = outboundId sessionId i ∧ q.turnId = outboundId sessionId j)
  numbered : ∀ p ∈ issued out, ∃ i, 0 ≤ i ∧ i < s.turnSeq ∧ p.turnId = outboundId sessionId i ∧
    (p.isScripted = true → InFlight s → i < s.turnSeq - 1)
  delivered : ∃ ks : List Int, deliveredIds out = ks.map (outboundId sessionId) ∧
    ks.Pairwise (· < ·) ∧
    ∀ k ∈ ks, 0 ≤ k ∧ k < s.turnSeq ∧ (InFlight s → k < s.turnSeq - 1)
  last : InFlight s → ∃ r, (issued out).getLast? = some (.runInterviewer r) ∧
    s.pendingCommand = some (.runInterviewer r)

section Trace
variable {sessionId : Uuid} {s s' : SessionState} {done out : List Command}

/-- A call in flight has a number. -/
theorem TraceInv.turnSeq_pos (h : TraceInv sessionId done s) (hs : InFlight s) :
    0 < s.turnSeq := by
  rcases h.last hs with ⟨r, hr, _⟩
  rcases h.numbered _ (List.mem_of_getLast? hr) with ⟨i, h0, h1, _⟩
  omega

/-- A new turn has the next number. -/
theorem TraceInv.issue (h : TraceInv sessionId done s) (hseq : 0 ≤ s.turnSeq)
    (p : PendingCommand) (hissued : issued out = [p]) (hdelivered : deliveredIds out = [])
    (hnext : s'.turnSeq = s.turnSeq + 1) (hid : p.turnId = outboundId sessionId s.turnSeq)
    (hflight : InFlight s' → ∃ r, p = .runInterviewer r ∧ s'.pendingCommand = some p) :
    TraceInv sessionId (done ++ out) s' where
  ordered := by
    rw [issued_append, hissued, List.pairwise_append]
    refine ⟨h.ordered.imp (fun hpq => ?_), List.pairwise_singleton _ _, fun q hq r hr => ?_⟩
    · rcases hpq with ⟨i, j, h0, h1, h2, hrest⟩
      exact ⟨i, j, h0, h1, by omega, hrest⟩
    · rw [List.mem_singleton] at hr
      rcases h.numbered q hq with ⟨i, h0, h1, hq', _⟩
      exact ⟨i, s.turnSeq, h0, by omega, by omega, hq', hr ▸ hid⟩
  numbered := by
    intro q hq
    rw [issued_append, hissued, List.mem_append, List.mem_singleton] at hq
    -- An old number stays below, and the new one is the last.
    rcases hq with hold | rfl
    · rcases h.numbered q hold with ⟨i, h0, h1, hq', _⟩
      exact ⟨i, h0, by omega, hq', fun _ _ => by omega⟩
    · refine ⟨s.turnSeq, hseq, by omega, hid, fun hscripted hf => ?_⟩
      rcases hflight hf with ⟨r, hr, _⟩
      rw [hr] at hscripted
      exact absurd hscripted Bool.false_ne_true
  delivered := by
    rcases h.delivered with ⟨ks, hks, hinc, hrange⟩
    refine ⟨ks, ?_, hinc, fun k hk => ?_⟩
    · rw [deliveredIds_append, hdelivered, List.append_nil, hks]
    · have hk' := hrange k hk
      exact ⟨hk'.1, by omega, fun _ => by omega⟩
  last := by
    intro hf
    -- What is in flight now is what has just been issued.
    rcases hflight hf with ⟨r, hr, hpending⟩
    refine ⟨r, ?_, hr ▸ hpending⟩
    rw [issued_append, hissued, hr, List.getLast?_append, List.getLast?_singleton, Option.some_or]

/-- A second attempt has the number of the turn in flight. -/
theorem TraceInv.retry (h : TraceInv sessionId done s) (hs : InFlight s) (r : RunInterviewer)
    (hissued : issued out = [.runInterviewer r]) (hdelivered : deliveredIds out = [])
    (hseq : s'.turnSeq = s.turnSeq) (hid : r.turnId = outboundId sessionId (s.turnSeq - 1))
    (hpending : s'.pendingCommand = some (.runInterviewer r)) :
    TraceInv sessionId (done ++ out) s' where
  ordered := by
    rw [issued_append, hissued, List.pairwise_append, hseq]
    refine ⟨h.ordered, List.pairwise_singleton _ _, fun q hq p hp => ?_⟩
    rw [List.mem_singleton] at hp
    rcases h.numbered q hq with ⟨i, h0, h1, hq', _⟩
    exact ⟨i, s.turnSeq - 1, h0, by omega, by omega, hq', hp ▸ hid⟩
  numbered := by
    intro q hq
    rw [issued_append, hissued, List.mem_append, List.mem_singleton] at hq
    -- The repeated move keeps its number.
    rcases hq with hold | rfl
    · rcases h.numbered q hold with ⟨i, h0, h1, hq', hscripted⟩
      exact ⟨i, h0, by omega, hq', fun hq _ => by rw [hseq]; exact hscripted hq hs⟩
    · have hpos := h.turnSeq_pos hs
      exact ⟨s.turnSeq - 1, by omega, by omega, hid,
        fun hscripted => absurd hscripted Bool.false_ne_true⟩
  delivered := by
    rcases h.delivered with ⟨ks, hks, hinc, hrange⟩
    refine ⟨ks, ?_, hinc, fun k hk => ?_⟩
    · rw [deliveredIds_append, hdelivered, List.append_nil, hks]
    · have hk' := hrange k hk
      exact ⟨hk'.1, by omega, fun _ => by rw [hseq]; exact hk'.2.2 hs⟩
  last := by
    intro _
    refine ⟨r, ?_, hpending⟩
    rw [issued_append, hissued, List.getLast?_append, List.getLast?_singleton, Option.some_or]

/-- A delivery closes the turn in flight, whose number is above all delivered
    ones. -/
theorem TraceInv.deliver (h : TraceInv sessionId done s) (hs : InFlight s) (hafter : ¬ InFlight s')
    (r : RunInterviewer) (hissued : issued out = []) (hdelivered : deliveredIds out = [r.turnId])
    (hseq : s'.turnSeq = s.turnSeq) (hid : r.turnId = outboundId sessionId (s.turnSeq - 1)) :
    TraceInv sessionId (done ++ out) s' where
  ordered := by
    rw [issued_append, hissued, List.append_nil, hseq]
    exact h.ordered
  numbered := by
    intro q hq
    rw [issued_append, hissued, List.append_nil] at hq
    rcases h.numbered q hq with ⟨i, h0, h1, hq', _⟩
    exact ⟨i, h0, by omega, hq', fun _ hf => absurd hf hafter⟩
  delivered := by
    rcases h.delivered with ⟨ks, hks, hinc, hrange⟩
    have hpos := h.turnSeq_pos hs
    refine ⟨ks ++ [s.turnSeq - 1], ?_, ?_, fun k hk => ?_⟩
    · rw [deliveredIds_append, hdelivered, hks, List.map_append, List.map_singleton, hid]
    · rw [List.pairwise_append]
      refine ⟨hinc, List.pairwise_singleton _ _, fun k hk j hj => ?_⟩
      rw [List.mem_singleton] at hj
      rw [hj]
      exact (hrange k hk).2.2 hs
    · rw [List.mem_append, List.mem_singleton] at hk
      rcases hk with hold | rfl
      · have hk' := hrange k hold
        exact ⟨hk'.1, by omega, fun hf => absurd hf hafter⟩
      · exact ⟨by omega, by omega, fun hf => absurd hf hafter⟩
  last := fun hf => absurd hf hafter

/-- A step that issues and delivers nothing. -/
theorem TraceInv.quiet (h : TraceInv sessionId done s) (hissued : issued out = [])
    (hdelivered : deliveredIds out = []) (hseq : s'.turnSeq = s.turnSeq)
    (hflight : InFlight s' → InFlight s ∧ s'.pendingCommand = s.pendingCommand) :
    TraceInv sessionId (done ++ out) s' where
  ordered := by
    rw [issued_append, hissued, List.append_nil, hseq]
    exact h.ordered
  numbered := by
    intro q hq
    rw [issued_append, hissued, List.append_nil] at hq
    rcases h.numbered q hq with ⟨i, h0, h1, hq', hscripted⟩
    exact ⟨i, h0, by omega, hq', fun hq hf => by rw [hseq]; exact hscripted hq (hflight hf).1⟩
  delivered := by
    rcases h.delivered with ⟨ks, hks, hinc, hrange⟩
    refine ⟨ks, ?_, hinc, fun k hk => ?_⟩
    · rw [deliveredIds_append, hdelivered, List.append_nil, hks]
    · have hk' := hrange k hk
      exact ⟨hk'.1, by omega, fun hf => by rw [hseq]; exact hk'.2.2 (hflight hf).1⟩
  last := by
    intro hf
    rcases h.last (hflight hf).1 with ⟨r, hr, hpending⟩
    refine ⟨r, ?_, by rw [(hflight hf).2, hpending]⟩
    rw [issued_append, hissued, List.append_nil, hr]

/-- One step keeps the trace invariant. -/
theorem TraceInv.step (h : TraceInv sessionId done s) (hid : s.sessionId = sessionId)
    (hseq : 0 ≤ s.turnSeq) (hstep : OutboundStep s s' out) :
    TraceInv sessionId (done ++ out) s' := by
  cases hstep with
  | quiet hissued hdelivered hsame hflight => exact h.quiet hissued hdelivered hsame hflight
  | issues p hissued hdelivered hnext hp hflight =>
      exact h.issue hseq p hissued hdelivered hnext (hid ▸ hp) hflight
  | retries r hbefore hissued hdelivered hsame hr hpending =>
      exact h.retry hbefore r hissued hdelivered hsame (hid ▸ hr) hpending
  | delivers r hbefore hafter hissued hdelivered hsame hpending hr =>
      exact h.deliver hbefore hafter r hissued hdelivered hsame (hid ▸ hr)

end Trace

/-- The trace invariant over a run. -/
theorem SessionRun.traceInv [Scalars] {cfg : OrchestratorConfig} {sessionId : Uuid}
    {planInput : Dict String Json} {ts : List (Taken SessionState Event Command)}
    {s : SessionState} (h : SessionRun cfg sessionId planInput ts s) :
    TraceInv sessionId (outputs ts) s := by
  induction h with
  | nil =>
      exact
        { ordered := List.Pairwise.nil
          numbered := fun p hp => absurd hp List.not_mem_nil
          delivered := ⟨[], rfl, List.Pairwise.nil, fun k hk => absurd hk List.not_mem_nil⟩
          last := fun hf => absurd hf.2 (by simp only [initialState, reduceCtorEq,
            not_false_eq_true]) }
  | snoc ts a b e out hrun hab ih =>
      have hinv := SessionRun.stateInv hrun
      rw [outputs_snoc]
      exact ih.step (SessionRun.identity hrun).id_eq hinv.turnSeq
        (outboundStep_of_edge hinv (edge_of_step hab))

/-- The turn that an agent reply or failure names. -/
def Event.repliesTo : Event → Option Uuid
  | .interviewerReplyReady turnId _ _ => some turnId
  | .interviewerFailed turnId _ _ => some turnId
  | _ => none

/-- A turn that no reply and no failure may act on any more: a later turn was
    issued, its utterance was delivered, it is a scripted turn, or it was never
    issued. -/
inductive Stale (out : List Command) (turnId : Uuid) : Prop
  | superseded (a b : List PendingCommand) (r : RunInterviewer) (q : PendingCommand)
      (hsplit : issued out = a ++ .runInterviewer r :: b) (hid : r.turnId = turnId)
      (hq : q ∈ b) (hne : q.turnId ≠ turnId)
  | delivered (h : turnId ∈ deliveredIds out)
  | scripted (p : PendingCommand) (hp : p ∈ issued out) (hs : p.isScripted = true)
      (hid : p.turnId = turnId)
  | unknown (h : ∀ p ∈ issued out, p.turnId ≠ turnId)

/-- The reply that completes a session: to the closing that is outstanding. -/
def ClosingReply (s : SessionState) (e : Event) : Prop :=
  ∃ output now closing, e = .interviewerReplyReady closing.turnId output now ∧
    s.phase = .close ∧ s.pendingCommand = some (.emitScriptedClosing closing)

section Staleness
variable {cfg : OrchestratorConfig} {sessionId : Uuid} {s : SessionState} {out : List Command}

/-- A stale turn is not the one in flight. -/
theorem TraceInv.not_stale (h : TraceInv sessionId out s)
    (hinj : Set.InjOn (outboundId sessionId) (Set.Ico 0 s.turnSeq)) (hs : InFlight s)
    {r : RunInterviewer} (hr : s.pendingCommand = some (.runInterviewer r))
    (hid : r.turnId = outboundId sessionId (s.turnSeq - 1)) : ¬ Stale out r.turnId := by
  have hpos := h.turnSeq_pos hs
  have hcurrent : s.turnSeq - 1 ∈ Set.Ico 0 s.turnSeq := ⟨by omega, by omega⟩
  intro hstale
  cases hstale with
  -- A later turn has a greater number, and the one in flight has the greatest.
  | superseded a b r' q hsplit hid' hq hne =>
      have hpair := h.ordered
      rw [hsplit, List.pairwise_append, List.pairwise_cons] at hpair
      rcases hpair.2.1.1 q hq with ⟨i, j, h0, h1, h2, hi, hj⟩
      have hlast := hinj ⟨h0, by omega⟩ hcurrent
        (hi.symm.trans (hid'.trans hid))
      have hqlast : j = s.turnSeq - 1 := by omega
      exact hne (by rw [hj, hqlast, hid])
  -- Delivered numbers lie below the one in flight.
  | delivered hmem =>
      rcases h.delivered with ⟨ks, hks, _, hrange⟩
      rw [hks, List.mem_map] at hmem
      rcases hmem with ⟨k, hk, hkid⟩
      have hk' := hrange k hk
      have hlast := hinj ⟨hk'.1, hk'.2.1⟩ hcurrent (hkid.trans hid)
      have hbelow := hk'.2.2 hs
      omega
  -- A script in flight would be no move.
  | scripted p hp hscripted hpid =>
      rcases h.numbered p hp with ⟨i, h0, h1, hi, hbelow⟩
      have hlast := hinj ⟨h0, h1⟩ hcurrent (hi.symm.trans (hpid.trans hid))
      have hi' := hbelow hscripted hs
      omega
  -- What is in flight has been issued.
  | unknown hnone =>
      rcases h.last hs with ⟨r', hr', hpending⟩
      rw [hr, Option.some.injEq, PendingCommand.runInterviewer.injEq] at hpending
      exact hnone _ (List.mem_of_getLast? hr') (by rw [hpending]; rfl)

/-- A reply or a failure is ignored, or names the turn in flight, or completes
    the session. -/
theorem transition_repliesTo [Scalars] (cfg : OrchestratorConfig) (s : SessionState) {e : Event}
    {turnId : Uuid} (he : e.repliesTo = some turnId) :
    transition s e cfg = .ok (ignore s) ∨
    (InFlight s ∧ answersPendingCommand s turnId = true) ∨
    (s.phase = .close ∧ answersPendingCommand s turnId = true ∧
      (∃ output now, e = .interviewerReplyReady turnId output now) ∧
      transition s e cfg = .ok (complete s)) := by
  by_cases hterminal : s.phase ∈ terminalPhases
  · refine Or.inl ?_
    unfold transition
    rw [if_pos hterminal]
  by_cases hcreated : s.phase = .created
  · refine Or.inl ?_
    unfold transition
    rw [if_neg hterminal]
    cases e with
    | interviewerReplyReady id output now => simp only [if_pos hcreated]
    | interviewerFailed id errorKind now => simp only [if_pos hcreated]
    | _ => simp only [Event.repliesTo, reduceCtorEq] at he
  by_cases hanswers : answersPendingCommand s turnId = true
  · by_cases hflight : InFlight s
    · exact Or.inr (Or.inl ⟨hflight, hanswers⟩)
    -- No move is in flight, so only the closing is left to be answered.
    have hidle : (s.phase ≠ .tech ∧ s.phase ≠ .qa) ∨ s.awaiting ≠ some .interviewer := by
      by_contra hc
      rw [not_or, not_and_or, not_not, not_not, not_not] at hc
      exact hflight hc
    cases e with
    | interviewerReplyReady id output now =>
        simp only [Event.repliesTo, Option.some.injEq] at he
        unfold transition
        simp only [if_neg hterminal, if_neg hcreated, onInterviewerReply, he, hanswers,
          Bool.not_true, Bool.false_eq_true, if_false]
        by_cases hclose : s.phase = .close
        · rw [if_pos hclose]
          exact Or.inr (Or.inr ⟨hclose, trivial, ⟨output, now, rfl⟩, rfl⟩)
        · rw [if_neg hclose, if_pos hidle]
          exact Or.inl rfl
    | interviewerFailed id errorKind now =>
        simp only [Event.repliesTo, Option.some.injEq] at he
        refine Or.inl ?_
        unfold transition
        simp only [if_neg hterminal, if_neg hcreated, onInterviewerFailed, he, hanswers,
          Bool.not_true, Bool.false_eq_true, if_false, if_pos hidle]
    | _ => simp only [Event.repliesTo, reduceCtorEq] at he
  · -- The turn is not the outstanding one.
    have hnot : (!answersPendingCommand s turnId) = true := by
      rw [Bool.not_eq_true] at hanswers
      rw [hanswers]
      rfl
    refine Or.inl ?_
    unfold transition
    cases e with
    | interviewerReplyReady id output now =>
        simp only [Event.repliesTo, Option.some.injEq] at he
        simp only [if_neg hterminal, if_neg hcreated, onInterviewerReply, he, hnot, if_true]
    | interviewerFailed id errorKind now =>
        simp only [Event.repliesTo, Option.some.injEq] at he
        simp only [if_neg hterminal, if_neg hcreated, onInterviewerFailed, he, hnot, if_true]
    | _ => simp only [Event.repliesTo, reduceCtorEq] at he

/-- The outstanding command of a turn that a reply answers. -/
theorem turnId_of_answers {turnId : Uuid} {c : PendingCommand}
    (h : answersPendingCommand s turnId = true) (hc : s.pendingCommand = some c) :
    c.turnId = turnId := by
  rw [answersPendingCommand, hc] at h
  exact of_decide_eq_true h

end Staleness

/-- Over every sequence of events, late, doubled, reordered and foreign replies
    and failures included: no turn is delivered twice; each delivery is for the
    turn that was issued last; and a reply or a failure for a stale turn leaves
    the state as it is and emits nothing, unless it is the reply to the
    outstanding closing, which completes the session. The identifiers of the
    turns numbered so far are taken to be distinct. -/
theorem exactly_once_delivery [Scalars] (cfg : OrchestratorConfig) (sessionId : Uuid)
    (planInput : Dict String Json) (ts : List (Taken SessionState Event Command))
    (s : SessionState) (h : SessionRun cfg sessionId planInput ts s)
    (hinj : Set.InjOn (fun i => deriveTurnId sessionId (turnPath i)) (Set.Ico 0 s.turnSeq)) :
    (deliveredIds (outputs ts)).Nodup ∧
    (∀ us t vs, ts = us ++ t :: vs → ∀ d, .deliverUtterance d ∈ t.out →
      ∃ r, (issued (outputs us)).getLast? = some (.runInterviewer r) ∧ r.turnId = d.turnId) ∧
    (∀ e turnId, e.repliesTo = some turnId → Stale (outputs ts) turnId →
      transition s e cfg = .ok (ignore s) ∨
        (ClosingReply s e ∧ transition s e cfg = .ok (complete s))) := by
  have htrace := SessionRun.traceInv h
  have hinv := SessionRun.stateInv h
  have hid := (SessionRun.identity h).id_eq
  refine ⟨?_, fun us t vs hsplit d hd => ?_, fun e turnId he hstale => ?_⟩
  · -- The numbers of the delivered turns increase.
    rcases htrace.delivered with ⟨ks, hks, hinc, hrange⟩
    rw [hks]
    refine List.Nodup.map_on (fun i hi j hj hij => ?_) (hinc.imp (fun hlt => ne_of_lt hlt))
    exact hinj ⟨(hrange i hi).1, (hrange i hi).2.1⟩ ⟨(hrange j hj).1, (hrange j hj).2.1⟩ hij
  · -- A delivery is for the move in flight, which is the last that was issued.
    rcases Run.split h us t vs hsplit with ⟨hus, hstep⟩
    have hbefore := SessionRun.traceInv hus
    have hd' : d.turnId ∈ deliveredIds t.out := List.mem_filterMap.mpr ⟨_, hd, rfl⟩
    cases outboundStep_of_edge (SessionRun.stateInv hus) (edge_of_step hstep) with
    | quiet hissued hdelivered hseq hflight =>
        rw [hdelivered] at hd'
        exact absurd hd' List.not_mem_nil
    | issues p hissued hdelivered hseq hp hflight =>
        rw [hdelivered] at hd'
        exact absurd hd' List.not_mem_nil
    | retries r hflight hissued hdelivered hseq hr hpending =>
        rw [hdelivered] at hd'
        exact absurd hd' List.not_mem_nil
    | delivers r hflight hafter hissued hdelivered hseq hpending hr =>
        rw [hdelivered, List.mem_singleton] at hd'
        rcases hbefore.last hflight with ⟨r', hlast, hr'⟩
        rw [hpending, Option.some.injEq, PendingCommand.runInterviewer.injEq] at hr'
        exact ⟨r', hlast, by rw [← hr', hd']⟩
  · -- A stale turn is not in flight, so its reply is ignored or closes the session.
    rcases transition_repliesTo cfg s he with hignored | ⟨hflight, hanswers⟩ | hclose
    · exact Or.inl hignored
    · rcases hinv.inFlight hflight with ⟨_, r, hr, _, _⟩
      have hturn : r.turnId = turnId := turnId_of_answers hanswers hr
      have hnumber := hinv.pendingId _ hr
      rw [hid] at hnumber
      exact absurd (hturn ▸ hstale) (htrace.not_stale hinj hflight hr hnumber)
    · rcases hclose with ⟨hphase, hanswers, ⟨output, now, hreply⟩, hdone⟩
      rcases (hinv.close hphase).2.2 with ⟨closing, hpending⟩
      have hturn : closing.turnId = turnId := turnId_of_answers hanswers hpending
      exact Or.inr ⟨⟨output, now, closing, by rw [hturn]; exact hreply, hphase, hpending⟩, hdone⟩

/-- Distinct identifiers for the first numbers, as a check that can be run. -/
theorem outboundId_injOn (sessionId : Uuid) (n : Nat)
    (h : ((List.range n).map (fun k : Nat => outboundId sessionId k)).Nodup) :
    Set.InjOn (fun i => deriveTurnId sessionId (turnPath i)) (Set.Ico 0 (n : Int)) := by
  intro i hi j hj hij
  rcases hi with ⟨hi0, hin⟩
  rcases hj with ⟨hj0, hjn⟩
  have hcast : ∀ k : Int, 0 ≤ k → ((k.toNat : Nat) : Int) = k := fun k hk => Int.toNat_of_nonneg hk
  have hnat := List.inj_on_of_nodup_map h (x := i.toNat) (y := j.toNat)
    (List.mem_range.mpr (by omega)) (List.mem_range.mpr (by omega))
    (by rw [hcast i hi0, hcast j hj0]; exact hij)
  omega

/-- In the small interview two utterances were delivered, and a second reply
    for the first of them is ignored. -/
theorem exactly_once_delivery_small : ∃ ts s, SmallRun ts s ∧
    deliveredIds (outputs ts) = [smallTurn 1, smallTurn 2] ∧ (deliveredIds (outputs ts)).Nodup ∧
    (∀ output now, (@transition Scalars.strict s (.interviewerReplyReady (smallTurn 1) output now)
      OrchestratorConfig.committed = .ok (ignore s))) := by
  have hrec : (smallRecord smallEvents).map
      (fun r => (r.2.phase, r.2.turnSeq, deliveredIds (outputs r.1)))
      = .ok (.tech, 4, [smallTurn 1, smallTurn 2]) := by decide +kernel
  have hnodup : ((List.range 4).map (fun k : Nat => outboundId smallId k)).Nodup := by
    decide +kernel
  rcases exists_run_of_record _ _ _ _ _ hrec with ⟨ts, s, hrun, hproj⟩
  simp only [Prod.mk.injEq] at hproj
  have hinj := outboundId_injOn smallId 4 hnodup
  have hall := @exactly_once_delivery Scalars.strict _ _ _ ts s hrun (by rw [hproj.2.1]; exact hinj)
  refine ⟨ts, s, hrun, hproj.2.2, hall.1, fun output now => ?_⟩
  have hstale : Stale (outputs ts) (smallTurn 1) :=
    Stale.delivered (by rw [hproj.2.2]; exact List.mem_cons_self)
  rcases hall.2.2 (.interviewerReplyReady (smallTurn 1) output now) _ rfl hstale with
    hignored | ⟨⟨_, _, _, _, hclose, _⟩, _⟩
  · exact hignored
  · rw [hproj.1] at hclose
    exact absurd hclose (by decide)

end TechScreen
