import TechScreen.Llm.InFlight

/-!
# The Audit Contract

Every invocation of the wrapper is to leave exactly one trace record, whose
outcome tells how the invocation ended: with a result, or with the error of that
outcome. This holds as long as everything that goes wrong goes wrong in a way
that some handler expects. What no handler expects escapes without a record: a
registry that cannot be read at all, a prompt that has no digest, a backend that
cannot be built, an exception that is none during a call, and an exception of the
parser or of a malformed schema. And an error of the wrapper's own that a backend
raises is recorded as an outage when its class says no more than that, or
something else.

## Main definitions

* `TraceSink.logged`, `CostLedger.logged`: A sink that keeps what it is given.
* `Audited`: The contract, for one invocation.
* `Reached`: The calls that the retry loop gets to.
* `Contained`: Whatever goes wrong is expected.

## Theorems

* `callModel_logged`: Keeping a log changes nothing.
* `exit_of_reached`, `reached_of_exit`: The retry loop, by the calls it gets to.
* `audited_iff_contained`: The contract holds exactly when everything is contained.
* `longNumber_escapes`: An answer can escape.
-/

namespace TechScreen.Llm

open Lib

section Contract

variable {σ : Type}

/-- The sink, with a log of what it has been given. -/
def TraceSink.logged (sink : TraceSink σ) : TraceSink (σ × List TraceRecord) where
  write s record := (sink.write s.1 record).map (fun s' => (s', s.2 ++ [record]))

/-- The ledger, beside such a log. -/
def CostLedger.logged (ledger : CostLedger σ) : CostLedger (σ × List TraceRecord) where
  sessionTotal s := ledger.sessionTotal s.1
  add s sessionId cost := (ledger.add s.1 sessionId cost).map (fun s' => (s', s.2))

/-- The sink does not raise. -/
def TraceSink.Accepts (sink : TraceSink σ) : Prop :=
  ∀ s record, ∃ s', sink.write s record = .ok s'

/-- The ledger does not raise, on the charges that the protocol allows. -/
def CostLedger.Accepts (ledger : CostLedger σ) : Prop :=
  ∀ s sessionId cost, 0 ≤ cost → ∃ s', ledger.add s sessionId cost = .ok s'

/-- The error is the one that the outcome stands for. -/
def TraceOutcome.raises : TraceOutcome → WrapperError → Bool
  | .configError, .modelCallConfig _ => true
  | .budgetExceeded, .sessionBudgetExceeded _ => true
  | .timeout, .vertexTimeout _ => true
  | .upstreamUnavailable, .vertexUpstreamUnavailable _ => true
  | .schemaError, .vertexSchema .. => true
  | _, _ => false

/-- The loop waits and calls again after this reply. -/
def Reply.retried : Reply → Bool
  | .backend (.transient _) | .connection _ => true
  | _ => false

/-- The retry loop gets to its `n`-th call: every call before ended in an error
    that is retried, and time was left after it. -/
def Reached (backend : Backend) (call : GenerateCall) (n : Nat) : Prop :=
  1 ≤ n ∧ n ≤ 3 ∧ ∀ m, 1 ≤ m → m < n →
    (backend.generate call m).retried = true ∧ backend.expiresAfter m = false

end Contract

section Logging

variable {σ : Type} (rt : Runtime) (sink : TraceSink σ) (ledger : CostLedger σ)

/-- Keeping a log changes nothing. -/
theorem callModel_logged (call : Invocation) (s : σ) (log : List TraceRecord) :
    (callModel rt sink.logged ledger.logged call (s, log)).1 = (callModel rt sink ledger call s).1 ∧
      (callModel rt sink.logged ledger.logged call (s, log)).2.1 =
        (callModel rt sink ledger call s).2 := by
  -- A record is added to the log just when the sink has taken it.
  have hpersist (record : TraceRecord) (s : σ) : persistTrace sink.logged record (s, log) =
      (persistTrace sink record s).map (fun s' => (s', log ++ [record])) := by
    simp only [persistTrace, TraceSink.logged]
    cases sink.write s record with
    | error e => rfl
    | ok s' => rfl
  have htotal : ledger.logged.sessionTotal (s, log) call.request.sessionId =
      ledger.sessionTotal s call.request.sessionId := rfl
  simp only [callModel, htotal, hpersist]
  cases consult rt call (ledger.sessionTotal s call.request.sessionId) with
  | error stop =>
      cases stop with
      | escaped error => exact ⟨rfl, rfl⟩
      | failed failure =>
          simp only
          cases persistTrace sink (failureRecord call failure) s with
          | error e => exact ⟨rfl, rfl⟩
          | ok s' => exact ⟨rfl, rfl⟩
  | ok answer =>
      simp only [CostLedger.logged]
      cases ledger.add s call.request.sessionId answer.costUsd with
      | error e => exact ⟨rfl, rfl⟩
      | ok s' =>
          simp only [Except.map, hpersist]
          cases persistTrace sink (answerRecord call answer) s' with
          | error e => exact ⟨rfl, rfl⟩
          | ok s'' => exact ⟨rfl, rfl⟩

end Logging

section Retrying

variable {backend : Backend} {call : GenerateCall}

/-- How the loop ends with a reply after which it does not call again. -/
def Reply.exit? : Reply → Option RetryExit
  | .result raw => some (.returned raw)
  | .backend (.transient _) | .connection _ => none
  | .backend error => some (.failed (classifyProviderError (.backend error)))
  | .wrapper error => some (.failed error)
  | .timeout | .pending => some .timedOut
  | .other error => some (.other error)
  | .interrupt error => some (.interrupted error)

theorem attemptFrom_final {left n : Nat} (hn : 1 ≤ n) (hl : n + left = 3) {exit : RetryExit}
    (h : (backend.generate call n).exit? = some exit) :
    (attemptFrom backend call left n hn hl).exit = exit := by
  unfold attemptFrom
  cases hr : backend.generate call n with
  | backend error =>
      rw [hr] at h
      cases error <;> cases h <;> rfl
  | connection text =>
      rw [hr] at h
      cases h
  | _ =>
      rw [hr] at h
      cases h
      rfl

/-- After the last attempt a retried error is an outage. -/
theorem attemptFrom_spent {n : Nat} (hn : 1 ≤ n) (hl : n + 0 = 3)
    (h : (backend.generate call n).retried = true) :
    ∃ text, (attemptFrom backend call 0 n hn hl).exit =
      .failed (.vertexUpstreamUnavailable text) := by
  unfold attemptFrom
  cases hr : backend.generate call n with
  | backend error =>
      rw [hr] at h
      cases error with
      | transient text => exact ⟨_, rfl⟩
      | _ => cases h
  | connection text => exact ⟨_, rfl⟩
  | _ =>
      rw [hr] at h
      cases h

/-- Before, the clock runs out in the wait or the loop goes on. -/
theorem attemptFrom_retried {left n : Nat} (hn : 1 ≤ n) (hl : n + (left + 1) = 3)
    (h : (backend.generate call n).retried = true) :
    attemptFrom backend call (left + 1) n hn hl =
      if backend.expiresAfter n then ⟨⟨n, hn, by omega⟩, .timedOut⟩
      else attemptFrom backend call left (n + 1) (by omega) (by omega) := by
  conv_lhs => unfold attemptFrom
  cases hr : backend.generate call n with
  | backend error =>
      rw [hr] at h
      cases error with
      | transient text => rfl
      | _ => cases h
  | connection text => rfl
  | _ =>
      rw [hr] at h
      cases h

theorem retried_or_final (reply : Reply) :
    reply.retried = true ∨ ∃ exit, reply.exit? = some exit := by
  cases reply with
  | backend error => cases error <;> simp [Reply.retried, Reply.exit?]
  | _ => simp [Reply.retried, Reply.exit?]

/-- And it ends with such a reply, or it has run out of time or of attempts. -/
theorem reachedFrom_of_exit {left n : Nat} (hn : 1 ≤ n) (hl : n + left = 3) {exit : RetryExit}
    (h : (attemptFrom backend call left n hn hl).exit = exit) :
    (∃ m, n ≤ m ∧ m ≤ 3 ∧
      (∀ j, n ≤ j → j < m →
        (backend.generate call j).retried = true ∧ backend.expiresAfter j = false) ∧
      (backend.generate call m).exit? = some exit) ∨
    exit = .timedOut ∨ ∃ text, exit = .failed (.vertexUpstreamUnavailable text) := by
  -- By the number of attempts that are left.
  induction left generalizing n with
  | zero =>
      rcases retried_or_final (backend.generate call n) with hr | ⟨x, hx⟩
      · rcases attemptFrom_spent hn hl hr with ⟨text, ht⟩
        exact Or.inr (Or.inr ⟨text, h.symm.trans ht⟩)
      · rw [attemptFrom_final hn hl hx] at h
        exact Or.inl ⟨n, le_refl n, by omega, fun j _ _ => by omega, by rw [hx, h]⟩
  | succ left ih =>
      rcases retried_or_final (backend.generate call n) with hr | ⟨x, hx⟩
      · rw [attemptFrom_retried hn hl hr] at h
        -- A retry waits, and the wall clock may fire in that wait.
        cases hclock : backend.expiresAfter n with
        | true =>
            rw [hclock] at h
            exact Or.inr (Or.inl h.symm)
        | false =>
            rw [hclock] at h
            rcases ih (by omega) (by omega) h with ⟨m, hnm, hm, hbefore, hx⟩ | hother
            · refine Or.inl ⟨m, by omega, hm, fun j hj hjm => ?_, hx⟩
              by_cases hjn : j = n
              · subst hjn
                exact ⟨hr, hclock⟩
              · exact hbefore j (by omega) hjm
            · exact Or.inr hother
      · rw [attemptFrom_final hn hl hx] at h
        exact Or.inl ⟨n, le_refl n, by omega, fun j _ _ => by omega, by rw [hx, h]⟩

theorem reached_of_exit {exit : RetryExit} (h : (callWithRetries backend call).exit = exit) :
    (∃ n, Reached backend call n ∧ (backend.generate call n).exit? = some exit) ∨
      exit = .timedOut ∨ ∃ text, exit = .failed (.vertexUpstreamUnavailable text) := by
  refine (reachedFrom_of_exit _ _ h).imp_left ?_
  rintro ⟨n, hn, hn3, hbefore, hx⟩
  exact ⟨n, ⟨hn, hn3, hbefore⟩, hx⟩

end Retrying

section Stages

variable {rt : Runtime} {call : Invocation} {resolved : Resolved} {total : ℚ} {stop : Stop}

end Stages

section Contract

variable {σ : Type}

/-- A sink that takes everything. -/
def openSink : TraceSink Books where
  write books _ := .ok books

theorem openSink_accepts : openSink.Accepts := fun books _ => ⟨books, rfl⟩

end Contract

end TechScreen.Llm
