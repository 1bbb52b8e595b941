import TechScreen.Llm.Audit

/-!
# The Attempts of a Record

The trace record of an invocation is to say how many `generate` calls it has
started. The number is kept in the retry loop, and it leaves the loop with a
result and with an error of the wrapper's own, but with nothing else. When the
wall clock runs out, or an exception of another class comes up, the wrapper has
no number and writes one. That is right during the first call and in the wait
after it, and wrong from the second call on.

## Main definitions

* `CountsAttempts`: The record says how many calls were started.
* `Reply.uncounted`, `KeepsCount`: Whether the number is lost on the way.

## Theorems

* `reached_iff_le_started`: The calls that the loop gets to are those it has started.
* `keepsCount_exit_iff`: When the number is lost, by the calls that are reached.
* `counts_attempts_iff`: The record is right exactly when the number is not lost.
* `lost_count`: A timeout of the second call is recorded as one attempt.
-/

namespace TechScreen.Llm

open Lib

section Count

variable {σ : Type}

/-- Whenever an invocation reaches the backend, the records that it writes say
    how many `generate` calls it has started. -/
def CountsAttempts (rt : Runtime) (sink : TraceSink σ) (ledger : CostLedger σ) (call : Invocation)
    (s : σ) : Prop :=
  ∀ resolved backend,
    admitCall rt call (ledger.sessionTotal s call.request.sessionId) = .ok resolved →
    call.backend = .ok backend →
    ∀ record ∈ (callModel rt sink.logged ledger.logged call (s, [])).2.2,
      record.attempts = (callWithRetries backend (generateCall call.request resolved)).started

/-- After this reply the number of attempts is lost: the wall clock has run out,
    or the exception is none that the retry loop translates. -/
def Reply.uncounted : Reply → Bool
  | .timeout | .pending | .other _ => true
  | _ => false

/-- From the second call on no call that the loop gets to ends so that the number
    is lost, and the wall clock does not run out in the wait after it. -/
def KeepsCount (rt : Runtime) (call : Invocation) (total : ℚ) : Prop :=
  ∀ resolved backend, admitCall rt call total = .ok resolved → call.backend = .ok backend →
    ∀ n, 2 ≤ n → Reached backend (generateCall call.request resolved) n →
      (backend.generate (generateCall call.request resolved) n).uncounted = false ∧
      ((backend.generate (generateCall call.request resolved) n).retried = true → n < 3 →
        backend.expiresAfter n = false)

end Count

section Started

variable {backend : Backend} {call : GenerateCall}

/-- A reply that ends the loop is not retried. -/
theorem not_retried_of_final {reply : Reply} {exit : RetryExit} (h : reply.exit? = some exit) :
    reply.retried = false := by
  cases reply with
  | backend error => cases error <;> cases h <;> rfl
  | connection text => cases h
  | _ => rfl

theorem attemptFrom_started_of_final {left n : Nat} (hn : 1 ≤ n) (hl : n + left = 3)
    {exit : RetryExit} (h : (backend.generate call n).exit? = some exit) :
    (attemptFrom backend call left n hn hl).started.val = n := by
  unfold attemptFrom
  cases hr : backend.generate call n with
  | backend error =>
      rw [hr] at h
      cases error <;> cases h <;> rfl
  | connection text =>
      rw [hr] at h
      cases h
  | _ => rfl

/-- There is no call after the third. -/
theorem attemptFrom_started_of_last {n : Nat} (hn : 1 ≤ n) (hl : n + 0 = 3) :
    (attemptFrom backend call 0 n hn hl).started.val = n := by
  unfold attemptFrom
  cases backend.generate call n with
  | backend error => cases error <;> rfl
  | _ => rfl

/-- From its `n`-th call on, the loop starts the `m`-th call exactly when it gets
    to it. -/
theorem reachedFrom_iff_le_started {left n m : Nat} (hn : 1 ≤ n) (hl : n + left = 3)
    (hnm : n ≤ m) :
    (m ≤ 3 ∧ ∀ j, n ≤ j → j < m →
      (backend.generate call j).retried = true ∧ backend.expiresAfter j = false) ↔
    m ≤ (attemptFrom backend call left n hn hl).started.val := by
  induction left generalizing n m with
  | zero =>
      rw [attemptFrom_started_of_last hn hl]
      exact ⟨fun h => by omega, fun h => ⟨by omega, fun j hj hjm => by omega⟩⟩
  | succ left ih =>
      by_cases hmn : m = n
      · subst hmn
        have hle : m ≤ (attemptFrom backend call (left + 1) m hn hl).started.val := by
          rcases retried_or_final (backend.generate call m) with hr | ⟨x, hx⟩
          · rw [attemptFrom_retried hn hl hr]
            split
            · exact le_refl m
            · have hnext := (ih (by omega) (by omega) (le_refl (m + 1))).mp
                ⟨by omega, fun j hj hjm => by omega⟩
              omega
          · rw [attemptFrom_started_of_final hn hl hx]
        exact ⟨fun _ => hle, fun _ => ⟨by omega, fun j hj hjm => by omega⟩⟩
      · rcases retried_or_final (backend.generate call n) with hr | ⟨x, hx⟩
        · rw [attemptFrom_retried hn hl hr]
          cases hclock : backend.expiresAfter n with
          | true =>
              -- The clock runs out in the wait after the `n`-th call.
              rw [if_pos rfl]
              refine iff_of_false (fun h => ?_) (fun h => ?_)
              · have hnot := (h.2 n (le_refl n) (by omega)).2
                rw [hclock] at hnot
                cases hnot
              · change m ≤ n at h
                omega
          | false =>
              rw [if_neg Bool.false_ne_true, ← ih (by omega) (by omega) (by omega)]
              refine and_congr_right (fun _ => ⟨fun h j hj => h j (by omega), fun h j hj hjm => ?_⟩)
              by_cases hjn : j = n
              · subst hjn
                exact ⟨hr, hclock⟩
              · exact h j (by omega) hjm
        · rw [attemptFrom_started_of_final hn hl hx]
          refine iff_of_false (fun h => ?_) (by omega)
          have hretried := (h.2 n (le_refl n) (by omega)).1
          rw [not_retried_of_final hx] at hretried
          cases hretried

/-- The calls that the loop gets to are those that it has started. -/
theorem reached_iff_le_started {n : Nat} (hn : 1 ≤ n) :
    Reached backend call n ↔ n ≤ (callWithRetries backend call).started.val := by
  unfold callWithRetries
  rw [← reachedFrom_iff_le_started (by omega) (by omega) hn]
  exact ⟨fun h => ⟨h.2.1, h.2.2⟩, fun h => ⟨hn, h.1, h.2⟩⟩

/-- The loop ends with the reply to the last call it has started, unless this is
    one that is retried. Then time or the budget has run out. -/
theorem attemptFrom_ended {left n : Nat} (hn : 1 ≤ n) (hl : n + left = 3) :
    (backend.generate call (attemptFrom backend call left n hn hl).started).exit?
        = some (attemptFrom backend call left n hn hl).exit ∨
    (backend.generate call (attemptFrom backend call left n hn hl).started).retried = true ∧
      ((attemptFrom backend call left n hn hl).started.val < 3 ∧
          backend.expiresAfter (attemptFrom backend call left n hn hl).started = true ∧
          (attemptFrom backend call left n hn hl).exit = .timedOut ∨
        (attemptFrom backend call left n hn hl).started.val = 3 ∧
          ∃ text, (attemptFrom backend call left n hn hl).exit
            = .failed (.vertexUpstreamUnavailable text)) := by
  induction left generalizing n with
  | zero =>
      rw [attemptFrom_started_of_last hn hl]
      rcases retried_or_final (backend.generate call n) with hr | ⟨x, hx⟩
      · exact Or.inr ⟨hr, Or.inr ⟨by omega, attemptFrom_spent hn hl hr⟩⟩
      · exact Or.inl (by rw [hx, attemptFrom_final hn hl hx])
  | succ left ih =>
      rcases retried_or_final (backend.generate call n) with hr | ⟨x, hx⟩
      · rw [attemptFrom_retried hn hl hr]
        cases hclock : backend.expiresAfter n with
        | true =>
            rw [if_pos rfl]
            have hlt : n < 3 := by omega
            exact Or.inr ⟨hr, Or.inl ⟨hlt, hclock, rfl⟩⟩
        | false =>
            rw [if_neg Bool.false_ne_true]
            exact ih (by omega) (by omega)
      · left
        rw [attemptFrom_started_of_final hn hl hx, attemptFrom_final hn hl hx, hx]

/-- The ending has kept the number of attempts. -/
def RetryExit.counted : RetryExit → Bool
  | .timedOut | .other _ => false
  | _ => true

theorem counted_of_final {reply : Reply} {exit : RetryExit} (h : reply.exit? = some exit) :
    exit.counted = !reply.uncounted := by
  cases reply with
  | backend error => cases error <;> cases h <;> rfl
  | connection text => cases h
  | _ =>
      cases h
      rfl

theorem Reply.counted_of_retried {reply : Reply} (h : reply.retried = true) :
    reply.uncounted = false := by
  cases reply with
  | timeout | pending | other => cases h
  | result | backend | connection | wrapper | interrupt => rfl

/-- The number is kept, or is the one that is assumed, exactly when it is lost on
    no call from the second on. -/
theorem keepsCount_exit_iff :
    ((callWithRetries backend call).exit.counted = true ∨
      (callWithRetries backend call).started.val = 1) ↔
    ∀ n, 2 ≤ n → Reached backend call n → (backend.generate call n).uncounted = false ∧
      ((backend.generate call n).retried = true → n < 3 → backend.expiresAfter n = false) := by
  have hended := @attemptFrom_ended backend call 2 1 (by omega) (by omega)
  change (backend.generate call (callWithRetries backend call).started).exit?
      = some (callWithRetries backend call).exit ∨ _ at hended
  have hlast : Reached backend call (callWithRetries backend call).started.val :=
    (reached_iff_le_started (callWithRetries backend call).started.property.1).mpr (le_refl _)
  constructor
  · intro h n htwo hn
    have hle := (reached_iff_le_started hn.1).mp hn
    rcases Nat.lt_or_eq_of_le hle with hlt | rfl
    · -- Another call has been made after it.
      obtain ⟨hretried, hclock⟩ := hlast.2.2 n hn.1 hlt
      exact ⟨Reply.counted_of_retried hretried, fun _ _ => hclock⟩
    · have hcounted := h.resolve_right (by omega)
      rcases hended with hx | ⟨hretried, ⟨-, -, hexit⟩ | ⟨hthree, -⟩⟩
      · rw [counted_of_final hx, Bool.not_eq_true'] at hcounted
        refine ⟨hcounted, fun hretried => ?_⟩
        rw [not_retried_of_final hx] at hretried
        cases hretried
      · change (callWithRetries backend call).exit = .timedOut at hexit
        rw [hexit] at hcounted
        cases hcounted
      · exact ⟨Reply.counted_of_retried hretried, fun _ hlt => absurd hthree (Nat.ne_of_lt hlt)⟩
  · intro h
    by_cases hone : (callWithRetries backend call).started.val = 1
    · exact Or.inr hone
    left
    have hfirst := (callWithRetries backend call).started.property.1
    obtain ⟨hkept, hclock⟩ := h _ (by omega) hlast
    rcases hended with hx | ⟨hretried, ⟨hlt, hexpired, -⟩ | ⟨-, text, hexit⟩⟩
    · rw [counted_of_final hx, hkept]
      rfl
    · exact absurd hexpired (by rw [Bool.not_eq_true]; exact hclock hretried hlt)
    · change (callWithRetries backend call).exit = _ at hexit
      rw [hexit]
      rfl

end Started

section Records

variable {rt : Runtime} {call : Invocation} {resolved : Resolved} {backend : Backend} {total : ℚ}

theorem costOf_error {raw : RawBackendResult} {stop : Stop}
    (h : costOf rt resolved raw = .error stop) : ∃ error, stop = .escaped error := by
  unfold costOf at h
  cases hc : resolved.pricing.costFor resolved.model.val raw.inputTokens raw.outputTokens with
  | ok c =>
      rw [hc] at h
      cases h
  | error e =>
      rw [hc] at h
      cases h
      exact ⟨_, rfl⟩

/-- Only a schema miss is a failure of the answer, and it has the number. -/
theorem attempts_of_checkSchema {raw : RawBackendResult} {attempts : Attempts} {failure : Failure}
    (h : checkSchema rt call resolved raw attempts = .error (.failed failure)) :
    failure.attempts = attempts := by
  unfold checkSchema at h
  split at h
  · cases h
  · split at h
    · cases h
    · cases h
    · cases hcost : costOf rt resolved raw with
      | error stop =>
          obtain ⟨error, rfl⟩ := costOf_error hcost
          simp only [hcost, bind, Except.bind] at h
          cases h
      | ok cost =>
          simp only [hcost, bind, Except.bind] at h
          cases h
          rfl

/-- The number of attempts of an admitted invocation. A failure has it when the
    ending has kept it, and an answer always. -/
theorem attempts_of_consult (ha : admitCall rt call total = .ok resolved)
    (hb : call.backend = .ok backend) :
    (∀ failure, consult rt call total = .error (.failed failure) → failure.attempts =
      if (callWithRetries backend (generateCall call.request resolved)).exit.counted then
        (callWithRetries backend (generateCall call.request resolved)).started
      else ⟨1, by decide⟩) ∧
    ∀ answer, consult rt call total = .ok answer →
      answer.attempts = (callWithRetries backend (generateCall call.request resolved)).started := by
  -- Once admitted, the invocation is what its backend makes of it.
  have hconsult : consult rt call total = respond rt call resolved := by
    change admitCall rt call total >>= respond rt call = _
    rw [ha]
    rfl
  rw [hconsult]
  simp only [respond, callBackend, hb]
  -- Only an exit that is no plain failure has lost the counter.
  cases hexit : (callWithRetries backend (generateCall call.request resolved)).exit with
  | failed error =>
      refine ⟨fun failure h => ?_, fun answer h => by cases h⟩
      cases h
      rfl
  | timedOut =>
      refine ⟨fun failure h => ?_, fun answer h => by cases h⟩
      cases h
      rfl
  | other error =>
      refine ⟨fun failure h => ?_, fun answer h => by cases h⟩
      cases h
      rfl
  | interrupted error => exact ⟨fun failure h => (by cases h), fun answer h => by cases h⟩
  | returned raw =>
      simp only [bind, Except.bind]
      cases hschema : checkSchema rt call resolved raw
          (callWithRetries backend (generateCall call.request resolved)).started with
      | error stop =>
          refine ⟨fun failure h => ?_, fun answer h => by cases h⟩
          dsimp only at h
          cases h
          exact attempts_of_checkSchema hschema
      | ok parsed =>
          dsimp only
          cases hcost : costOf rt resolved raw with
          | error stop =>
              obtain ⟨error, rfl⟩ := costOf_error hcost
              exact ⟨fun failure h => (by cases h), fun answer h => (by cases h)⟩
          | ok cost =>
              refine ⟨fun failure h => (by cases h), fun answer h => ?_⟩
              cases h
              rfl

variable {σ : Type} {sink : TraceSink σ} {ledger : CostLedger σ} {s : σ}

/-- A record that is written is the one of the failure or of the answer. -/
theorem record_of_logged {record : TraceRecord}
    (h : record ∈ (callModel rt sink.logged ledger.logged call (s, [])).2.2) :
    (∃ failure, consult rt call (ledger.sessionTotal s call.request.sessionId)
        = .error (.failed failure) ∧ record = failureRecord call failure) ∨
      ∃ answer, consult rt call (ledger.sessionTotal s call.request.sessionId) = .ok answer ∧
        record = answerRecord call answer := by
  -- What the sink has taken is the record that it was given.
  have hwritten : ∀ (r : TraceRecord) (s' : σ) (after : σ × List TraceRecord),
      persistTrace sink.logged r (s', []) = .ok after → after.2 = [r] := by
    intro r s' after hp
    unfold persistTrace at hp
    cases hw : sink.write s' r with
    | ok t =>
        simp only [TraceSink.logged, hw, Except.map, Except.mapError] at hp
        cases hp
        rfl
    | error e =>
        simp only [TraceSink.logged, hw, Except.map, Except.mapError] at hp
        cases hp
  have htotal : ledger.logged.sessionTotal (s, []) call.request.sessionId
      = ledger.sessionTotal s call.request.sessionId := rfl
  unfold callModel at h
  rw [htotal] at h
  -- Without a failure or an answer nothing is written.
  cases hx : consult rt call (ledger.sessionTotal s call.request.sessionId) with
  | error stop =>
      cases stop with
      | escaped error =>
          rw [hx] at h
          exact absurd h List.not_mem_nil
      | failed failure =>
          rw [hx] at h
          dsimp only at h
          cases hp : persistTrace sink.logged (failureRecord call failure) (s, []) with
          | error e =>
              rw [hp] at h
              exact absurd h List.not_mem_nil
          | ok after =>
              rw [hp] at h
              dsimp only at h
              rw [hwritten _ _ _ hp, List.mem_singleton] at h
              exact Or.inl ⟨failure, rfl, h⟩
  | ok answer =>
      rw [hx] at h
      dsimp only at h
      cases hadd : ledger.add s call.request.sessionId answer.costUsd with
      | error e =>
          simp only [CostLedger.logged, hadd, Except.map] at h
          exact absurd h List.not_mem_nil
      | ok s' =>
          simp only [CostLedger.logged, hadd, Except.map] at h
          cases hp : persistTrace sink.logged (answerRecord call answer) (s', []) with
          | error e =>
              rw [hp] at h
              exact absurd h List.not_mem_nil
          | ok after =>
              rw [hp] at h
              dsimp only at h
              rw [hwritten _ _ _ hp, List.mem_singleton] at h
              exact Or.inr ⟨answer, rfl, h⟩

/-- A sink that takes everything is given the record of a failure. -/
theorem logged_of_failed (hsink : sink.Accepts) {failure : Failure}
    (h : consult rt call (ledger.sessionTotal s call.request.sessionId)
      = .error (.failed failure)) :
    (callModel rt sink.logged ledger.logged call (s, [])).2.2
      = [failureRecord call failure] := by
  have htotal : ledger.logged.sessionTotal (s, []) call.request.sessionId
      = ledger.sessionTotal s call.request.sessionId := rfl
  obtain ⟨s', hs'⟩ := hsink s (failureRecord call failure)
  simp only [callModel, htotal, h, persistTrace, TraceSink.logged, hs', Except.map,
    Except.mapError, List.nil_append]

/-- The record of an invocation says how many calls it has started when the number
    is not lost on the way, and otherwise it does not, once the sink takes it. -/
theorem counts_attempts_iff (rt : Runtime) (sink : TraceSink σ) (ledger : CostLedger σ)
    (call : Invocation) (s : σ) :
    (KeepsCount rt call (ledger.sessionTotal s call.request.sessionId) →
      CountsAttempts rt sink ledger call s) ∧
    (sink.Accepts → CountsAttempts rt sink ledger call s →
      KeepsCount rt call (ledger.sessionTotal s call.request.sessionId)) := by
  refine ⟨fun hkeeps resolved backend ha hb record hrecord => ?_,
    fun hsink hcounts resolved backend ha hb => ?_⟩
  · obtain ⟨hfailed, hanswered⟩ := attempts_of_consult ha hb
    rcases record_of_logged hrecord with ⟨failure, hx, rfl⟩ | ⟨answer, hx, rfl⟩
    · change failure.attempts = _
      rw [hfailed failure hx]
      rcases keepsCount_exit_iff.mpr (hkeeps resolved backend ha hb) with hcounted | hone
      · rw [if_pos hcounted]
      · -- One call has been started, and one is what is assumed.
        split
        · rfl
        · exact Subtype.ext hone.symm
    · exact hanswered answer hx
  · refine keepsCount_exit_iff.mp ?_
    by_cases hcounted : (callWithRetries backend
        (generateCall call.request resolved)).exit.counted = true
    · exact Or.inl hcounted
    -- The ending has lost the number, so it is traced as a failure with one attempt.
    have hlost : ∃ failure, consult rt call (ledger.sessionTotal s call.request.sessionId)
        = .error (.failed failure) := by
      have hconsult : consult rt call (ledger.sessionTotal s call.request.sessionId)
          = respond rt call resolved := by
        change admitCall rt call _ >>= respond rt call = _
        rw [ha]
        rfl
      rw [hconsult]
      simp only [respond, callBackend, hb]
      cases hexit : (callWithRetries backend (generateCall call.request resolved)).exit with
      | timedOut => exact ⟨_, rfl⟩
      | other error => exact ⟨_, rfl⟩
      | returned | failed | interrupted =>
          rw [hexit] at hcounted
          exact absurd rfl hcounted
    obtain ⟨failure, hx⟩ := hlost
    have hrecord := hcounts resolved backend ha hb (failureRecord call failure)
      (by rw [logged_of_failed hsink hx]; exact List.mem_singleton_self _)
    have hone : (failureRecord call failure).attempts = ⟨1, by decide⟩ := by
      change failure.attempts = _
      rw [(attempts_of_consult ha hb).1 failure hx, if_neg hcounted]
    rw [hone] at hrecord
    exact Or.inr (congrArg Subtype.val hrecord).symm

end Records

section Stalling

/-- The first call ends in an error that is retried, the second does not end. -/
def stallingCall : Invocation :=
  { (smallCall "{}" 1000 2000).invocation with
    backend := .ok ⟨fun _ n => if n = 1 then .backend (.transient "503") else .pending,
      fun _ => false⟩ }

/-- Two calls are started, and the record of the timeout says one. -/
theorem lost_count :
    ¬ CountsAttempts smallRuntime openSink inMemoryCostLedger stallingCall {} ∧
      (callModel smallRuntime openSink.logged inMemoryCostLedger.logged stallingCall
        ({}, [])).2.2.map (fun record => (record.outcome, record.attempts.val))
          = [(.timeout, 1)] ∧
      ∀ backend, stallingCall.backend = .ok backend →
        ∀ g, (callWithRetries backend g).started.val = 2 := by
  have htwo : ∀ backend, stallingCall.backend = .ok backend →
      ∀ g, (callWithRetries backend g).started.val = 2 := by
    intro backend hb g
    cases hb
    rfl
  have hlog : (callModel smallRuntime openSink.logged inMemoryCostLedger.logged stallingCall
      ({}, [])).2.2.map (fun record => (record.outcome, record.attempts.val))
        = [(.timeout, 1)] := by
    decide +kernel
  refine ⟨fun h => ?_, hlog, htwo⟩
  cases ha : admitCall smallRuntime stallingCall 0 with
  | error stop =>
      have hadmitted : (admitCall smallRuntime stallingCall 0).isOk = true := by decide +kernel
      rw [ha] at hadmitted
      cases hadmitted
  | ok resolved =>
      cases hrecords : (callModel smallRuntime openSink.logged inMemoryCostLedger.logged
          stallingCall ({}, [])).2.2 with
      | nil =>
          rw [hrecords] at hlog
          cases hlog
      | cons record rest =>
          have hcount := h resolved _ ha rfl record (by rw [hrecords]; exact List.mem_cons_self)
          rw [hrecords, List.map_cons, List.cons.injEq, Prod.mk.injEq] at hlog
          have hval := congrArg Subtype.val hcount
          rw [htwo _ rfl, hlog.1.2] at hval
          omega

/-- An answer to the first call is recorded with one attempt. -/
theorem counts_attempts_iff_small :
    CountsAttempts smallRuntime openSink inMemoryCostLedger (smallCall "{}" 1000 2000).invocation
      {} ∧
    KeepsCount smallRuntime (smallCall "{}" 1000 2000).invocation 0 := by
  have hkeeps : KeepsCount smallRuntime (smallCall "{}" 1000 2000).invocation 0 := by
    intro resolved backend _ hb n _ _
    cases hb
    exact ⟨rfl, fun hretried => by cases hretried⟩
  have hboth := counts_attempts_iff smallRuntime openSink inMemoryCostLedger
    (smallCall "{}" 1000 2000).invocation {}
  have hcounts := hboth.1 hkeeps
  exact ⟨hcounts, hboth.2 openSink_accepts hcounts⟩

end Stalling

end TechScreen.Llm
