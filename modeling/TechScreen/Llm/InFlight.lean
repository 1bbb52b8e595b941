import TechScreen.Lib.Gauge
import TechScreen.Lib.Run
import TechScreen.Llm.Ledgers

/-!
# Invocations in Flight

Any number of invocations of the wrapper at once, over the ledger that sums the
trace rows. An invocation enters, reads what its session has spent and is
admitted or refused, calls the backend if it was admitted, and leaves its record
behind. Between any two of these the others may do theirs, so the total that an
invocation was admitted on may be an old one by the time its own cost is in the
rows.

The excess over the budget is bounded all the same. For one session the floor is
a gauge: what is spent is the sum of the rows, and what is pending are the
invocations that have been admitted and have not left their record yet. Each of
them was admitted below the budget.

## Main definitions

* `Progress`, `Flight`, `Floor`: The invocations at work and the books.
* `floorStep`: What one of them does next.
* `Floor.gauge`: What a session has spent and what is pending for it.

## Theorems

* `serve_eq_settle`: One invocation from end to end is the wrapper's.
* `moved_gauge`: Every step moves the gauge by the rules.
* `gauge_of_run`: The gauge in every run.
* `feed_loneMoves`: Undisturbed, an invocation is the wrapper's.
* `overshoot_bound`: The bound, over every run.
* `negativeBudget_not_below`: It needs a budget above zero.
-/

namespace TechScreen.Llm

open Lib

section Floor

/-- How far an invocation has got. A refusal is free. -/
inductive Progress where
  | entered
  | admitted (resolved : Resolved)
  | refused (stop : {stop : Stop // stop.cost = 0})
  | answered (ending : Except Stop Answer)
  | left

/-- An invocation and how far it has got. -/
structure Flight where
  call : Call
  progress : Progress

/-- The books, and every invocation so far in the order of entering. -/
structure Floor where
  books : Books := {}
  flights : List Flight := []

/-- What happens next, and to which invocation. -/
inductive Move where
  | enter (call : Call)
  | check (n : Nat)
  | answer (n : Nat)
  | leave (n : Nat)

/-- It is not that invocation's turn to do this. -/
structure NotItsTurn where
  deriving DecidableEq

variable (rt : Runtime)

/-- The stages between the budget check and the charge. -/
def respond (call : Invocation) (resolved : Resolved) : Except Stop Answer := do
  let (raw, attempts) ← callBackend call resolved
  let parsed ← checkSchema rt call resolved raw attempts
  let costUsd ← costOf rt resolved raw
  return { resolved, raw, attempts, parsed, costUsd }

/-- The charge and the record, for the way the stages before them ended. -/
def settle (call : Call) (books : Books) : Except Stop Answer → Books
  | .error (.escaped _) => books
  | .error (.failed failure) => written call (failureRecord call.invocation failure) books
  | .ok answer =>
      match postgresCostLedger.add books call.sessionId answer.costUsd with
      | .error _ => books
      | .ok books => written call (answerRecord call.invocation answer) books

/-- What a session has spent. -/
def Floor.total (floor : Floor) (sessionId : Uuid) : ℚ :=
  postgresCostLedger.sessionTotal floor.books sessionId

/-- The budget check on a total. -/
def checked (call : Call) (total : ℚ) : Progress :=
  match h : admitCall rt call.invocation total with
  | .error stop => .refused ⟨stop, admitCall_free h⟩
  | .ok resolved => .admitted resolved

/-- The floor with one invocation further. -/
def Floor.advance (floor : Floor) (n : Nat) (call : Call) (progress : Progress) : Floor :=
  { floor with flights := floor.flights.set n ⟨call, progress⟩ }

/-- One step of one invocation. The output names those that reach the backend. -/
def floorStep : Step Floor Move Nat NotItsTurn := fun floor move =>
  match move with
  | .enter call => .ok ({ floor with flights := floor.flights ++ [⟨call, .entered⟩] }, [])
  | .check n =>
      match floor.flights[n]? with
      | some ⟨call, .entered⟩ =>
          .ok (floor.advance n call (checked rt call (floor.total call.sessionId)), [])
      | _ => .error ⟨⟩
  | .answer n =>
      match floor.flights[n]? with
      | some ⟨call, .admitted resolved⟩ =>
          .ok (floor.advance n call (.answered (respond rt call.invocation resolved)), [n])
      | _ => .error ⟨⟩
  | .leave n =>
      match floor.flights[n]? with
      | some ⟨call, .refused stop⟩ =>
          .ok ({ floor.advance n call .left with
            books := settle call floor.books (.error stop.val) }, [])
      | some ⟨call, .answered ending⟩ =>
          .ok ({ floor.advance n call .left with books := settle call floor.books ending }, [])
      | _ => .error ⟨⟩

/-- The invocation is in flight on the session. -/
def Flight.present (sessionId : Uuid) (flight : Flight) : Bool :=
  flight.call.sessionId = sessionId && match flight.progress with
    | .left => false
    | _ => true

/-- The invocation has been admitted and has not left its record. -/
def Flight.pending (sessionId : Uuid) (flight : Flight) : Bool :=
  flight.call.sessionId = sessionId && match flight.progress with
    | .admitted _ | .answered _ => true
    | _ => false

/-- How many invocations are in flight on a session. -/
def Floor.inFlight (floor : Floor) (sessionId : Uuid) : Nat :=
  floor.flights.countP (Flight.present sessionId)

/-- What a session has spent, and how many of its invocations are pending. -/
def Floor.gauge (floor : Floor) (sessionId : Uuid) : Gauge ℚ :=
  ⟨floor.total sessionId, floor.flights.countP (Flight.pending sessionId)⟩

end Floor

section Settling

variable (rt : Runtime) (call : Call) (books : Books)

/-- An invocation with nobody in between is settled as the wrapper does it. -/
theorem serve_eq_settle : serve rt postgresCostLedger books call =
    settle call books
      (consult rt call.invocation (postgresCostLedger.sessionTotal books call.sessionId)) := by
  cases hx : consult rt call.invocation (postgresCostLedger.sessionTotal books call.sessionId) with
  | error stop =>
      cases stop with
      | escaped error => exact serve_escaped hx
      | failed failure => exact serve_failed hx
  | ok answer =>
      have hadd : postgresCostLedger.add books call.sessionId answer.costUsd = .ok books :=
        if_neg (not_lt.mpr (costOf_nonneg rt (consult_ok rt hx)))
      rw [serve_ok hx hadd, settle, hadd]

/-- A record adds one row of its session, or nothing. -/
theorem rows_written (record : TraceRecord) :
    (written call record books).rows = books.rows ∨
      ∃ r, (written call record books).rows = books.rows ++ [r] ∧
        r.interviewSessionId = record.sessionId ∧ 0 ≤ r.costUsd := by
  by_cases hfit : call.up = true ∧ FitsColumns record.latencyMs record.inputTokens
      record.outputTokens record.costUsd
  · right
    refine ⟨row call.context record, ?_, rfl, hfit.2.2.2.2.1⟩
    simp only [written, persistTrace, postgresTraceSink, if_pos hfit, Except.mapError]
  · left
    simp only [written, persistTrace, postgresTraceSink, if_neg hfit, Except.mapError]

/-- So does an invocation that leaves. -/
theorem rows_settle (ending : Except Stop Answer) :
    (settle call books ending).rows = books.rows ∨
      ∃ r, (settle call books ending).rows = books.rows ++ [r] ∧
        r.interviewSessionId = call.sessionId ∧ 0 ≤ r.costUsd := by
  rcases ending with (failure | error) | answer
  · exact rows_written call books _
  · exact Or.inl rfl
  · by_cases hneg : answer.costUsd < 0
    · left
      simp only [settle, postgresCostLedger, if_pos hneg]
    · simp only [settle, postgresCostLedger, if_neg hneg]
      exact rows_written call books _

/-- A refused invocation adds nothing to any total. -/
theorem total_settle_refused (stop : {stop : Stop // stop.cost = 0}) (sid : Uuid) :
    sessionCostTotal (settle call books (.error stop.val)).rows sid =
      sessionCostTotal books.rows sid := by
  rcases stop with ⟨failure | error, hfree⟩
  · have hcost : (failureRecord call.invocation failure).costUsd = 0 := hfree
    rw [settle, total_written, hcost, storedCost_zero, ite_self, ite_self, add_zero]
  · rfl

end Settling

section Lone

variable (rt : Runtime)

/-- Who is admitted has read a total below the budget. -/
theorem lt_budget_of_admitCall {call : Invocation} {total : ℚ} {resolved : Resolved}
    (h : admitCall rt call total = .ok resolved) :
    total < call.settings.llmBudgetPerSessionUsd := by
  rcases admitCall_ok h with ⟨-, -, -, -, hbudget⟩
  by_contra hle
  rw [checkBudget, if_pos (not_lt.mp hle)] at hbudget
  cases hbudget

/-- The check refuses, or admits below the budget. -/
theorem checked_cases (call : Call) (total : ℚ) :
    (∃ stop, checked rt call total = .refused stop ∧
        admitCall rt call.invocation total = .error stop.val) ∨
      ∃ resolved, checked rt call total = .admitted resolved ∧
        admitCall rt call.invocation total = .ok resolved ∧
        total < call.invocation.settings.llmBudgetPerSessionUsd := by
  unfold checked
  split
  · next stop h => exact Or.inl ⟨⟨stop, admitCall_free h⟩, rfl, h⟩
  · next resolved h => exact Or.inr ⟨resolved, rfl, h, lt_budget_of_admitCall rt h⟩

/-- The moves of an invocation that enters a floor and leaves it undisturbed. -/
def loneMoves (floor : Floor) (call : Call) : List Move :=
  let n := floor.flights.length
  [.enter call, .check n] ++
    (match checked rt call (floor.total call.sessionId) with
      | .admitted _ => [.answer n]
      | _ => []) ++
    [.leave n]

/-- Undisturbed, it does to the books what the wrapper does. -/
theorem feed_loneMoves (floor : Floor) (call : Call) :
    (feed (floorStep rt) floor (loneMoves rt floor call)).map (fun r => r.1.books) =
      .ok (serve rt postgresCostLedger floor.books call) := by
  -- The floor with the invocation at its end.
  let joined (p : Progress) : Floor := { floor with flights := floor.flights ++ [⟨call, p⟩] }
  have hget (p : Progress) : (joined p).flights[floor.flights.length]? = some ⟨call, p⟩ :=
    List.getElem?_concat_length
  have hset (p q : Progress) : (joined p).advance floor.flights.length call q = joined q := by
    simp only [joined, Floor.advance, Floor.mk.injEq, true_and]
    rw [List.set_append_right _ _ (le_refl _), Nat.sub_self, List.set_cons_zero]
  have henter : floorStep rt floor (.enter call) = .ok (joined .entered, []) := rfl
  have hcheck : floorStep rt (joined .entered) (.check floor.flights.length) =
      .ok (joined (checked rt call (floor.total call.sessionId)), []) := by
    simp only [floorStep, hget, hset]
    rfl
  have hconsult : consult rt call.invocation (floor.total call.sessionId) =
      admitCall rt call.invocation (floor.total call.sessionId) >>=
        respond rt call.invocation := rfl
  have hserve : serve rt postgresCostLedger floor.books call =
      settle call floor.books (consult rt call.invocation (floor.total call.sessionId)) :=
    serve_eq_settle rt call floor.books
  rw [hserve, hconsult, loneMoves]
  rcases checked_cases rt call (floor.total call.sessionId) with
    ⟨stop, hc, ha⟩ | ⟨resolved, hc, ha, _⟩
  · have hleave : floorStep rt (joined (.refused stop)) (.leave floor.flights.length) =
        .ok ({ joined .left with books := settle call floor.books (.error stop.val) }, []) := by
      simp only [floorStep, hget, hset]
      rfl
    rw [hc] at hcheck
    rw [hc, ha]
    simp only [List.append_nil, List.cons_append, List.nil_append]
    rw [feed_cons_ok _ _ _ _ _ _ henter, feed_cons_ok _ _ _ _ _ _ hcheck,
      feed_cons_ok _ _ _ _ _ _ hleave]
    rfl
  · have hanswer : floorStep rt (joined (.admitted resolved)) (.answer floor.flights.length) =
        .ok (joined (.answered (respond rt call.invocation resolved)), [floor.flights.length]) := by
      simp only [floorStep, hget, hset]
    have hleave : floorStep rt (joined (.answered (respond rt call.invocation resolved)))
        (.leave floor.flights.length) = .ok ({ joined .left with
          books := settle call floor.books (respond rt call.invocation resolved) }, []) := by
      simp only [floorStep, hget, hset]
      rfl
    rw [hc] at hcheck
    rw [hc, ha]
    simp only [List.cons_append, List.nil_append]
    rw [feed_cons_ok _ _ _ _ _ _ henter, feed_cons_ok _ _ _ _ _ _ hcheck,
      feed_cons_ok _ _ _ _ _ _ hanswer, feed_cons_ok _ _ _ _ _ _ hleave]
    rfl

end Lone

section Moves

variable {rt : Runtime} {floor floor' : Floor} {move : Move} {out : List Nat}

/-- What a step can do: somebody enters; somebody is admitted or refused on the
    total as it stands; somebody who was admitted reaches the backend; somebody
    leaves. -/
inductive Moved (rt : Runtime) (floor : Floor) : Move → Floor → List Nat → Prop
  | entered (call : Call) :
      Moved rt floor (.enter call) { floor with flights := floor.flights ++ [⟨call, .entered⟩] } []
  | checked (n : Nat) (call : Call) (hn : floor.flights[n]? = some ⟨call, .entered⟩) :
      Moved rt floor (.check n)
        (floor.advance n call (checked rt call (floor.total call.sessionId))) []
  | answered (n : Nat) (call : Call) (resolved : Resolved)
      (hn : floor.flights[n]? = some ⟨call, .admitted resolved⟩) :
      Moved rt floor (.answer n)
        (floor.advance n call (.answered (respond rt call.invocation resolved))) [n]
  | leftRefused (n : Nat) (call : Call) (stop : {stop : Stop // stop.cost = 0})
      (hn : floor.flights[n]? = some ⟨call, .refused stop⟩) :
      Moved rt floor (.leave n) { floor.advance n call .left with
        books := settle call floor.books (.error stop.val) } []
  | leftAnswered (n : Nat) (call : Call) (ending : Except Stop Answer)
      (hn : floor.flights[n]? = some ⟨call, .answered ending⟩) :
      Moved rt floor (.leave n) { floor.advance n call .left with
        books := settle call floor.books ending } []

theorem moved_of_floorStep (h : floorStep rt floor move = .ok (floor', out)) :
    Moved rt floor move floor' out := by
  cases move with
  | enter call =>
      cases h
      exact .entered call
  | check n =>
      simp only [floorStep] at h
      split at h
      · next call hn =>
          cases h
          exact .checked n call hn
      · cases h
  | answer n =>
      simp only [floorStep] at h
      split at h
      · next call resolved hn =>
          cases h
          exact .answered n call resolved hn
      · cases h
  | leave n =>
      simp only [floorStep] at h
      split at h
      · next call stop hn =>
          cases h
          exact .leftRefused n call stop hn
      · next call ending hn =>
          cases h
          exact .leftAnswered n call ending hn
      · cases h

/-- Moving one invocation changes the count by what it was and what it becomes. -/
theorem countP_advance {n : Nat} {call : Call} {p : Progress}
    (hn : floor.flights[n]? = some ⟨call, p⟩) (q : Progress) (test : Flight → Bool) :
    (floor.advance n call q).flights.countP test + (if test ⟨call, p⟩ then 1 else 0) =
      floor.flights.countP test + (if test ⟨call, q⟩ then 1 else 0) := by
  rcases List.getElem?_eq_some_iff.mp hn with ⟨hlt, hget⟩
  have hpos := List.boole_getElem_le_countP (p := test) hlt
  have hset := List.countP_set (p := test) (a := (⟨call, q⟩ : Flight)) hlt
  rw [hget] at hpos hset
  simp only [Floor.advance]
  omega

/-- Rows are only ever added, and what they add is not negative. -/
theorem moved_rows (h : Moved rt floor move floor' out) :
    floor'.books.rows = floor.books.rows ∨
      ∃ r, floor'.books.rows = floor.books.rows ++ [r] ∧ 0 ≤ r.costUsd := by
  cases h with
  | entered => exact Or.inl rfl
  | checked => exact Or.inl rfl
  | answered => exact Or.inl rfl
  | leftRefused n call stop hn =>
      exact (rows_settle call floor.books (.error stop.val)).imp_right
        (fun ⟨r, hr, _, h0⟩ => ⟨r, hr, h0⟩)
  | leftAnswered n call ending hn =>
      exact (rows_settle call floor.books ending).imp_right
        (fun ⟨r, hr, _, h0⟩ => ⟨r, hr, h0⟩)

theorem moved_total_le (h : Moved rt floor move floor' out) (sid : Uuid) :
    floor.total sid ≤ floor'.total sid := by
  change sessionCostTotal floor.books.rows sid ≤ sessionCostTotal floor'.books.rows sid
  rcases moved_rows h with hr | ⟨r, hr, h0⟩
  · rw [hr]
  · rw [hr, sessionCostTotal_snoc]
    by_cases hs : r.interviewSessionId = sid
    · rw [if_pos hs]
      exact le_add_of_nonneg_right h0
    · rw [if_neg hs, add_zero]

/-- An invocation of another session is not pending on this one. -/
theorem pending_eq_false {sid : Uuid} {call : Call} (h : call.sessionId ≠ sid) (p : Progress) :
    Flight.pending sid ⟨call, p⟩ = false := by
  simp only [Flight.pending, h, decide_false, Bool.false_and]

/-- Every step moves the session's gauge by the rules, when the session's
    invocations share a budget and its rows cost at most `c`. -/
theorem moved_gauge {sid : Uuid} {budget c : ℚ} (h : Moved rt floor move floor' out)
    (hbudget : ∀ f ∈ floor.flights, f.call.sessionId = sid →
      f.call.invocation.settings.llmBudgetPerSessionUsd = budget)
    (hcost : ∀ r ∈ floor'.books.rows, r.interviewSessionId = sid → r.costUsd ≤ c) (hc : 0 ≤ c) :
    Gauge.Step budget c (floor.gauge sid) (floor'.gauge sid) := by
  cases h with
  | entered call =>
      have hcount : (floor.flights ++ [(⟨call, .entered⟩ : Flight)]).countP (Flight.pending sid) =
          floor.flights.countP (Flight.pending sid) := by
        simp [Flight.pending]
      simp only [Floor.gauge, hcount]
      exact .idle _
  | checked n call hn =>
      have hcount := countP_advance hn (checked rt call (floor.total call.sessionId))
        (Flight.pending sid)
      by_cases hs : call.sessionId = sid
      · subst hs
        rcases checked_cases rt call (floor.total call.sessionId) with
          ⟨stop, hr, _⟩ | ⟨resolved, hr, _, hlt⟩
        · rw [hr] at hcount ⊢
          simp [Flight.pending] at hcount
          simp only [Floor.gauge, hcount]
          exact .idle _
        · rw [hr] at hcount ⊢
          simp [Flight.pending] at hcount
          simp only [Floor.gauge, hcount]
          rw [hbudget _ (List.mem_of_getElem? hn) rfl] at hlt
          exact .enter _ _ hlt
      · rw [pending_eq_false hs, pending_eq_false hs] at hcount
        simp only [Floor.gauge, Nat.add_right_cancel hcount]
        exact .idle _
  | answered n call resolved hn =>
      have hcount := countP_advance hn (.answered (respond rt call.invocation resolved))
        (Flight.pending sid)
      have hsame : Flight.pending sid ⟨call, .answered (respond rt call.invocation resolved)⟩ =
          Flight.pending sid ⟨call, .admitted resolved⟩ := rfl
      rw [hsame] at hcount
      simp only [Floor.gauge, Nat.add_right_cancel hcount]
      exact .idle _
  | leftRefused n call stop hn =>
      have hcount := countP_advance hn .left (Flight.pending sid)
      simp [Flight.pending] at hcount
      have htotal : ({ floor.advance n call .left with
          books := settle call floor.books (.error stop.val) } : Floor).total sid =
            floor.total sid := total_settle_refused call floor.books stop sid
      simp only [Floor.gauge, htotal, hcount]
      exact .idle _
  | leftAnswered n call ending hn =>
      have hcount := countP_advance hn .left (Flight.pending sid)
      have hleft : Flight.pending sid ⟨call, .left⟩ = false := Bool.and_false _
      rw [hleft] at hcount
      -- What the record adds to this session's rows.
      have htotal : ∃ x, 0 ≤ x ∧ x ≤ c ∧ (call.sessionId ≠ sid → x = 0) ∧
          ({ floor.advance n call .left with
            books := settle call floor.books ending } : Floor).total sid =
              floor.total sid + x := by
        rcases rows_settle call floor.books ending with hr | ⟨r, hr, hrs, h0⟩
        · exact ⟨0, le_refl _, hc, fun _ => rfl, (congrArg (sessionCostTotal · sid) hr).trans
            (add_zero _).symm⟩
        · have hsum := (congrArg (sessionCostTotal · sid) hr).trans (sessionCostTotal_snoc _ r sid)
          by_cases hs : r.interviewSessionId = sid
          · rw [if_pos hs] at hsum
            have hmem : r ∈ (settle call floor.books ending).rows := by
              rw [hr]
              exact List.mem_append_right _ (List.mem_singleton_self r)
            exact ⟨r.costUsd, h0, hcost r hmem hs, fun hne => absurd (hrs.symm.trans hs) hne, hsum⟩
          · rw [if_neg hs] at hsum
            exact ⟨0, le_refl _, hc, fun _ => rfl, hsum⟩
      rcases htotal with ⟨x, h0, hx, hother, htotal⟩
      by_cases hs : call.sessionId = sid
      · have hpending : Flight.pending sid ⟨call, .answered ending⟩ = true := by
          simp only [Flight.pending, hs, decide_true, Bool.and_self]
        rw [hpending] at hcount
        simp only [Bool.false_eq_true, if_true, if_false, add_zero] at hcount
        simp only [Floor.gauge, htotal, ← hcount]
        exact .settle _ x _ h0 hx
      · rw [pending_eq_false hs] at hcount
        simp only [Floor.gauge, htotal, hother hs, add_zero, Nat.add_right_cancel hcount]
        exact .idle _

/-- Invocations are never forgotten. -/
theorem moved_calls (h : Moved rt floor move floor' out) :
    floor.flights.map Flight.call <+: floor'.flights.map Flight.call := by
  have hadvance {n : Nat} {call : Call} {p : Progress} (hn : floor.flights[n]? = some ⟨call, p⟩)
      (q : Progress) : (floor.advance n call q).flights.map Flight.call =
        floor.flights.map Flight.call := by
    rcases List.getElem?_eq_some_iff.mp hn with ⟨hlt, hget⟩
    have hlt' : n < (floor.flights.map Flight.call).length := by rwa [List.length_map]
    have hcall : call = (floor.flights.map Flight.call)[n] := by
      rw [List.getElem_map, hget]
    simp only [Floor.advance, List.map_set]
    rw [hcall, List.set_getElem_self]
  cases h with
  | entered call =>
      rw [List.map_append]
      exact List.prefix_append _ _
  | checked n call hn => rw [hadvance hn]
  | answered n call resolved hn => rw [hadvance hn]
  | leftRefused n call stop hn => exact (hadvance hn .left).symm ▸ List.prefix_refl _
  | leftAnswered n call ending hn => exact (hadvance hn .left).symm ▸ List.prefix_refl _

end Moves

section Runs

variable {rt : Runtime} {ts : List (Taken Floor Move Nat)} {s : Floor}

/-- Who is pending is in flight. -/
theorem pending_le_inFlight (floor : Floor) (sid : Uuid) :
    (floor.gauge sid).pending ≤ floor.inFlight sid := by
  refine List.countP_mono_left ?_
  intro f _ hf
  rcases f with ⟨call, progress⟩
  cases progress with
  | admitted resolved => exact hf
  | answered ending => exact hf
  | entered => exact absurd ((Bool.and_false _).symm.trans hf) Bool.false_ne_true
  | refused stop => exact absurd ((Bool.and_false _).symm.trans hf) Bool.false_ne_true
  | left => exact absurd ((Bool.and_false _).symm.trans hf) Bool.false_ne_true

/-- The gauge of a session in every run: within the bound for a budget above
    zero, and never moved for any other. -/
theorem gauge_of_run (sid : Uuid) (budget c : ℚ) (k : Nat) (hc : 0 ≤ c)
    (hrun : Run (floorStep rt) {} ts s)
    (hbudget : ∀ call ∈ s.flights.map Flight.call, call.sessionId = sid →
      call.invocation.settings.llmBudgetPerSessionUsd = budget)
    (hk : ∀ t ∈ ts, t.after.inFlight sid ≤ k)
    (hcost : ∀ r ∈ s.books.rows, r.interviewSessionId = sid → r.costUsd ≤ c) :
    (0 < budget → (s.gauge sid).Within budget c k) ∧ (budget ≤ 0 → s.gauge sid = ⟨0, 0⟩) := by
  induction hrun with
  | nil => exact ⟨fun hpos => Gauge.within_start hc hpos, fun _ => rfl⟩
  | snoc ts a b move out _ hstep ih =>
      have hmoved := moved_of_floorStep hstep
      -- What holds of the rows and the calls at the end held of fewer of them before.
      have hrows : ∀ r ∈ a.books.rows, r.interviewSessionId = sid → r.costUsd ≤ c := by
        intro r hr
        rcases moved_rows hmoved with hb | ⟨r', hb, _⟩
        · exact hcost r (hb ▸ hr)
        · exact hcost r (hb ▸ List.mem_append_left _ hr)
      have hcalls : ∀ call ∈ a.flights.map Flight.call, call.sessionId = sid →
          call.invocation.settings.llmBudgetPerSessionUsd = budget :=
        fun call hcall => hbudget call ((moved_calls hmoved).subset hcall)
      have hgauge := moved_gauge hmoved
        (fun f hf hs => hcalls f.call (List.mem_map_of_mem hf) hs) hcost hc
      have ih := ih hcalls (fun t ht => hk t (List.mem_append_left _ ht)) hrows
      refine ⟨fun hpos => ?_, fun hle => ?_⟩
      · have hlast : (b.gauge sid).pending ≤ k := le_trans (pending_le_inFlight b sid)
          (hk _ (List.mem_append_right _ (List.mem_singleton_self _)))
        exact hgauge.within hc hlast (ih.1 hpos)
      · rw [hgauge.shut (by rw [ih.2 hle]; exact hle) (by rw [ih.2 hle]), ih.2 hle]

/-- The invocation is not on its way through the backend. -/
def Progress.unadmitted : Progress → Bool
  | .entered | .refused _ | .left => true
  | .admitted _ | .answered _ => false

/-- The invocation will not reach the backend: its session's budget is spent,
    and it has not been admitted before. -/
def Floor.Bars (floor : Floor) (n : Nat) (call : Call) : Prop :=
  call.invocation.settings.llmBudgetPerSessionUsd ≤ floor.total call.sessionId ∧
    ∃ p, floor.flights[n]? = some ⟨call, p⟩ ∧ p.unadmitted = true

theorem moved_bars {floor floor' : Floor} {move : Move} {out : List Nat} {n : Nat} {call : Call}
    (h : Moved rt floor move floor' out) (hbars : floor.Bars n call) :
    floor'.Bars n call ∧ n ∉ out := by
  rcases hbars with ⟨hspent, p, hp, hbarred⟩
  have hlen : n < floor.flights.length := (List.getElem?_eq_some_iff.mp hp).1
  have hother {m : Nat} {call' : Call} {q : Progress} (hm : m ≠ n) :
      (floor.advance m call' q).flights[n]? = some ⟨call, p⟩ := by
    rw [← hp, Floor.advance, List.getElem?_set_ne hm]
  have hself {call' : Call} {q : Progress} :
      (floor.advance n call' q).flights[n]? = some ⟨call', q⟩ := by
    rw [Floor.advance, List.getElem?_set_self hlen]
  have hturn {m : Nat} {call' : Call} {q : Progress} (hm : m = n)
      (hq : floor.flights[m]? = some ⟨call', q⟩) : call' = call ∧ q = p := by
    rw [hm, hp, Option.some.injEq, Flight.mk.injEq] at hq
    exact ⟨hq.1.symm, hq.2.symm⟩
  refine ⟨⟨hspent.trans (moved_total_le h call.sessionId), ?_⟩, ?_⟩
  · cases h with
    | entered call' =>
        refine ⟨p, ?_, hbarred⟩
        rw [List.getElem?_append_left hlen]
        exact hp
    | checked m call' hm =>
        by_cases hmn : m = n
        · -- The total it reads is not below the budget, so it is refused.
          rcases hturn hmn hm with ⟨rfl, _⟩
          subst hmn
          rcases checked_cases rt call' (floor.total call'.sessionId) with
            ⟨stop, hc, _⟩ | ⟨_, _, _, hlt⟩
          · exact ⟨_, hself, by rw [hc]; rfl⟩
          · exact absurd hlt (not_lt.mpr hspent)
        · exact ⟨p, hother hmn, hbarred⟩
    | answered m call' resolved hm =>
        by_cases hmn : m = n
        · rcases hturn hmn hm with ⟨_, rfl⟩
          exact absurd hbarred Bool.false_ne_true
        · exact ⟨p, hother hmn, hbarred⟩
    | leftRefused m call' stop hm =>
        by_cases hmn : m = n
        · rcases hturn hmn hm with ⟨rfl, _⟩
          subst hmn
          exact ⟨_, hself, rfl⟩
        · exact ⟨p, hother hmn, hbarred⟩
    | leftAnswered m call' ending hm =>
        by_cases hmn : m = n
        · rcases hturn hmn hm with ⟨_, rfl⟩
          exact absurd hbarred Bool.false_ne_true
        · exact ⟨p, hother hmn, hbarred⟩
  · cases h with
    | answered m call' resolved hm =>
        rw [List.mem_singleton]
        intro hnm
        rcases hturn hnm.symm hm with ⟨_, rfl⟩
        exact absurd hbarred Bool.false_ne_true
    | _ => exact List.not_mem_nil

/-- Who enters when the budget is spent never reaches the backend. -/
theorem not_mem_outputs_of_bars {start : Floor} {n : Nat} {call : Call}
    (hrun : Run (floorStep rt) start ts s) (hbars : start.Bars n call) :
    s.Bars n call ∧ n ∉ outputs ts := by
  induction hrun with
  | nil => exact ⟨hbars, List.not_mem_nil⟩
  | snoc ts a b move out _ hstep ih =>
      rcases moved_bars (moved_of_floorStep hstep) ih.1 with ⟨hb, hout⟩
      refine ⟨hb, ?_⟩
      rw [outputs_snoc, List.mem_append, not_or]
      exact ⟨ih.2, hout⟩

/-- However the invocations of a session interleave and however they end: with
    at most `k` of them in flight and no more than `c` recorded for any of them,
    what is recorded stays below the budget and `k` times `c`; with no budget
    above zero nothing is ever spent; and who enters once the budget is spent
    never reaches the backend. -/
theorem overshoot_bound (sid : Uuid) (settings : Settings) (k : Nat) (c : ℚ)
    (hrun : Run (floorStep rt) {} ts s)
    (hsettings : ∀ f ∈ s.flights, f.call.sessionId = sid →
      f.call.invocation.settings = settings)
    (hk : ∀ t ∈ ts, t.after.inFlight sid ≤ k)
    (hc : 0 ≤ c) (hcost : ∀ r ∈ s.books.rows, r.interviewSessionId = sid → r.costUsd ≤ c) :
    (0 < settings.llmBudgetPerSessionUsd →
        s.total sid < settings.llmBudgetPerSessionUsd + k * c) ∧
      (settings.llmBudgetPerSessionUsd ≤ 0 → s.total sid = 0) ∧
      ∀ us t vs call, ts = us ++ t :: vs → t.event = .enter call →
        call.invocation.settings.llmBudgetPerSessionUsd ≤ t.before.total call.sessionId →
          t.before.flights.length ∉ outputs vs := by
  have hbudget : ∀ call ∈ s.flights.map Flight.call, call.sessionId = sid →
      call.invocation.settings.llmBudgetPerSessionUsd = settings.llmBudgetPerSessionUsd := by
    intro call hcall hs
    rcases List.mem_map.mp hcall with ⟨f, hf, rfl⟩
    rw [hsettings f hf hs]
  have hgauge := gauge_of_run sid _ c k hc hrun hbudget hk hcost
  refine ⟨fun hpos => ?_, fun hle => ?_, ?_⟩
  · rw [← nsmul_eq_mul]
    exact (hgauge.1 hpos).spent_lt hc
  · exact congrArg Gauge.spent (hgauge.2 hle)
  · intro us t vs call hts hevent hspent
    have hstep := (hrun.split us t vs hts).2
    rw [hevent] at hstep
    have hafter : t.after = { t.before with
        flights := t.before.flights ++ [⟨call, .entered⟩] } := by
      simp only [floorStep, Except.ok.injEq, Prod.mk.injEq] at hstep
      exact hstep.1.symm
    have hbars : t.after.Bars t.before.flights.length call := by
      rw [hafter]
      exact ⟨hspent, .entered, List.getElem?_concat_length, rfl⟩
    exact (not_mem_outputs_of_bars (hrun.rest us t vs hts) hbars).2

/-- Two invocations that both read an empty ledger, and one that comes late. -/
def smallMoves : List Move :=
  [.enter (smallCall "{}" 1000 2000), .enter (smallCall "oops" 1000 2000), .check 0, .check 1,
    .answer 1, .answer 0, .leave 0, .enter (smallCall "{}" 1000 2000), .leave 1, .check 2, .leave 2]

/-- What the run of these moves shows. -/
def shown (r : List (Taken Floor Move Nat) × Floor) : List ℚ × List ℚ × List ℕ × List ℕ :=
  (r.2.flights.map (fun f => f.call.invocation.settings.llmBudgetPerSessionUsd),
    r.2.books.rows.map TurnTrace.costUsd, r.1.map (fun t => t.after.inFlight ⟨7⟩), outputs r.1)

theorem overshoot_bound_small : ∃ ts s, Run (floorStep smallRuntime) {} ts s ∧
    s.books.rows.map TurnTrace.costUsd = [675 / 1000000, 675 / 1000000, 0] ∧
    s.total ⟨7⟩ < 5 / 10000 + (2 : ℕ) * (675 / 1000000) := by
  have hrec : (record (floorStep smallRuntime) {} smallMoves).map shown =
      .ok (List.replicate 3 (5 / 10000), [675 / 1000000, 675 / 1000000, 0],
        [1, 2, 2, 2, 2, 2, 1, 2, 1, 1, 0], [1, 0]) := by
    decide +kernel
  rcases exists_run_of_record _ _ _ _ _ hrec with ⟨ts, s, hrun, hshown⟩
  simp only [shown, Prod.mk.injEq] at hshown
  rcases hshown with ⟨hbudgets, hcosts, hflights, _⟩
  refine ⟨ts, s, hrun, hcosts, ?_⟩
  refine (overshoot_bound ⟨7⟩ ⟨5 / 10000⟩ 2 (675 / 1000000) hrun ?_ ?_ (by norm_num) ?_).1
    (by norm_num)
  · intro f hf _
    have hmem : f.call.invocation.settings.llmBudgetPerSessionUsd ∈
        List.replicate 3 (5 / 10000 : ℚ) := hbudgets ▸ List.mem_map_of_mem hf
    exact congrArg Settings.mk (List.eq_of_mem_replicate hmem)
  · intro t ht
    have hmem : t.after.inFlight ⟨7⟩ ∈ [1, 2, 2, 2, 2, 2, 1, 2, 1, 1, 0] :=
      hflights ▸ List.mem_map_of_mem ht
    revert hmem
    generalize t.after.inFlight ⟨7⟩ = m
    intro hmem
    simp only [List.mem_cons, List.not_mem_nil, or_false] at hmem
    omega
  · intro r hr _
    have hmem : r.costUsd ∈ [(675 / 1000000 : ℚ), 675 / 1000000, 0] :=
      hcosts ▸ List.mem_map_of_mem hr
    simp only [List.mem_cons, List.not_mem_nil, or_false] at hmem
    rcases hmem with h | h | h
    · rw [h]
    · rw [h]
    · rw [h]
      norm_num

/-- A call under a budget of its own. -/
def Call.under (call : Call) (budget : ℚ) : Call :=
  { call with invocation := { call.invocation with settings := ⟨budget⟩ } }

/-- Under a budget below zero, the one invocation of a session is refused, and
    the nothing it has spent is not below the budget and half a dollar. -/
theorem negativeBudget_not_below : ∃ ts s, Run (floorStep smallRuntime) {} ts s ∧
    s.flights.map (fun f => f.call.invocation.settings.llmBudgetPerSessionUsd) = [-1] ∧
    (∀ t ∈ ts, t.after.inFlight ⟨7⟩ ≤ 1) ∧
    (∀ r ∈ s.books.rows, r.costUsd ≤ 1 / 2) ∧
    ¬ s.total ⟨7⟩ < -1 + (1 : ℕ) * (1 / 2) := by
  have hrec : (record (floorStep smallRuntime) {}
      [.enter ((smallCall "{}" 1000 2000).under (-1)), .check 0, .leave 0]).map
        (fun r => (shown r, r.2.total ⟨7⟩)) = .ok (([-1], [0], [1, 1, 0], []), 0) := by
    decide +kernel
  rcases exists_run_of_record _ _ _ _ _ hrec with ⟨ts, s, hrun, hshown⟩
  simp only [shown, Prod.mk.injEq] at hshown
  rcases hshown with ⟨⟨hbudgets, hcosts, hflights, _⟩, htotal⟩
  refine ⟨ts, s, hrun, hbudgets, ?_, ?_, ?_⟩
  · intro t ht
    have hmem : t.after.inFlight ⟨7⟩ ∈ [1, 1, 0] := hflights ▸ List.mem_map_of_mem ht
    simp only [List.mem_cons, List.not_mem_nil, or_false] at hmem
    omega
  · intro r hr
    have hmem : r.costUsd ∈ [(0 : ℚ)] := hcosts ▸ List.mem_map_of_mem hr
    rw [List.mem_singleton.mp hmem]
    norm_num
  · rw [htotal]
    norm_num

end Runs

end TechScreen.Llm
