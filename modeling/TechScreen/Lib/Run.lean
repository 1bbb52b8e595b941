import Mathlib.Algebra.GroupWithZero.Nat
import Mathlib.Data.List.Forall2
import Mathlib.Data.List.Basic
import Mathlib.Tactic.Common

/-!
# Runs of Event-Driven Machines

A machine that consumes events one at a time, moves to a new state, emits a
list of outputs, and may refuse an event with an error. Two views of its runs
are kept side by side.

`feed` is the executable one: it folds a list of events and stops at the first
error. `Run` is the relational one: it records every step that was taken, with
the states on both sides, the event and the outputs. Statements about the
history of a run are inductions on `Run`, whose last step is always exposed;
statements that compare two machines or two inputs are stated with `feed`.
`feed_eq_ok_iff` says that the two agree, so a theorem about every `Run` is a
theorem about every list of events that the machine accepts.

Four rules package the inductions that would otherwise be repeated. An
invariant kept by each step holds in every state reached. A potential that each
step lowers by at least its cost bounds the total cost of a run. Steps that
leave the state alone can be dropped from a run. And a relation between the
states of two runs that survives a pair of related events, while the outputs
stay related, relates the two runs from end to end: this is the unwinding
argument for properties that compare two runs.

## Main definitions

* `Step`: The step function of a machine.
* `feed`: Folding a list of events.
* `Taken`: One step of a run, with everything it read and wrote.
* `Run`: The runs of a machine from a start state.
* `outputs`: Everything a run emitted, in order.
* `countAlong`: Counting steps by what came before them.
* `record`: Folding a list of events, with every step recorded.
* `Agree`: Two results are related, or are the same error.
* `seen`: A result through views of its state and its outputs.
* `Inevitable`: What a machine gets to whatever its environment supplies.

## Theorems

* `feed_append`: A fold over two lists is one fold after the other.
* `feed_eq_ok_iff`: An accepted fold is a run, and conversely.
* `Run.invariant`: What each step keeps holds in every state reached.
* `Run.of_mem`, `Run.split`, `Run.rest`: A run cut at one of its steps.
* `feed_map`: The images of states and events under a machine's image.
* `Run.image`: The runs of a machine are runs of one that takes its steps.
* `Run.cost_le_gain`, `Run.cost_le`, `Run.countP_le`: A potential bounds the cost of
  a run, and the number of its steps of a kind.
* `record_project`: The stuttering rule.
* `feed_agree`: The unwinding rule.
* `feed_seen`: The unwinding rule for views of states, events and outputs.
-/

namespace Lib

variable {σ ε κ err : Type}

/-- A machine's step: from a state and an event, the next state and the outputs
    of the step, or an error. -/
abbrev Step (σ ε κ err : Type) := σ → ε → Except err (σ × List κ)

/-- Feed a list of events, collecting the outputs, up to the first error. -/
def feed (step : Step σ ε κ err) : σ → List ε → Except err (σ × List κ)
  | s, [] => .ok (s, [])
  | s, e :: es => do
      let (s', out) ← step s e
      let (s'', out') ← feed step s' es
      .ok (s'', out ++ out')

theorem feed_cons_ok (step : Step σ ε κ err) (s s' : σ) (e : ε) (es : List ε) (out : List κ)
    (h : step s e = .ok (s', out)) :
    feed step s (e :: es) = (feed step s' es).map (fun r => (r.1, out ++ r.2)) := by
  rw [feed, h]
  cases hf : feed step s' es with
  | error x => simp only [bind, Except.bind, hf, Except.map]
  | ok r => simp only [bind, Except.bind, hf, Except.map]

theorem feed_cons_error (step : Step σ ε κ err) (s : σ) (e : ε) (es : List ε) (x : err)
    (h : step s e = .error x) : feed step s (e :: es) = .error x := by
  rw [feed, h]
  rfl

theorem feed_append (step : Step σ ε κ err) (es fs : List ε) (s s' : σ) (out : List κ)
    (h : feed step s es = .ok (s', out)) :
    feed step s (es ++ fs) = (feed step s' fs).map (fun r => (r.1, out ++ r.2)) := by
  induction es generalizing s out with
  | nil =>
      simp only [feed, Except.ok.injEq, Prod.mk.injEq] at h
      rw [List.nil_append, h.1, ← h.2]
      cases feed step s' fs with
      | error x => rfl
      | ok r => rfl
  | cons e es ih =>
      cases hs : step s e with
      | error x =>
          rw [feed_cons_error step s e es x hs] at h
          simp only [reduceCtorEq] at h
      | ok r =>
          rcases r with ⟨s₁, o₁⟩
          rw [feed_cons_ok step s s₁ e es o₁ hs] at h
          cases hf : feed step s₁ es with
          | error x =>
              rw [hf] at h
              simp only [Except.map, reduceCtorEq] at h
          | ok r₁ =>
              rcases r₁ with ⟨s₂, o₂⟩
              rw [hf] at h
              simp only [Except.map, Except.ok.injEq, Prod.mk.injEq] at h
              rw [List.cons_append, feed_cons_ok step s s₁ e _ o₁ hs,
                ih s₁ o₂ (by rw [hf, h.1]), ← h.2]
              cases feed step s' fs with
              | error x => rfl
              | ok r₂ => simp only [Except.map, List.append_assoc]

/-- One step of a run: the states on both sides, the event and the outputs. -/
structure Taken (σ ε κ : Type) where
  before : σ
  event : ε
  after : σ
  out : List κ

/-- The runs of a machine from `s₀`, with every step recorded in order. -/
inductive Run (step : Step σ ε κ err) (s₀ : σ) : List (Taken σ ε κ) → σ → Prop
  | nil : Run step s₀ [] s₀
  | snoc (ts : List (Taken σ ε κ)) (s s' : σ) (e : ε) (out : List κ)
      (hrun : Run step s₀ ts s) (hstep : step s e = .ok (s', out)) :
      Run step s₀ (ts ++ [⟨s, e, s', out⟩]) s'

theorem Run.eq_of_nil {step : Step σ ε κ err} {s₀ s : σ} (h : Run step s₀ [] s) : s = s₀ := by
  generalize hts : ([] : List (Taken σ ε κ)) = ts at h
  cases h with
  | nil => rfl
  | snoc ts a _ e out _ _ => exact absurd hts.symm (List.append_ne_nil_of_right_ne_nil _
      (List.cons_ne_nil _ _))

/-- Everything a run emitted, in order. -/
def outputs (ts : List (Taken σ ε κ)) : List κ := ts.flatMap Taken.out

@[simp] theorem outputs_nil : outputs ([] : List (Taken σ ε κ)) = [] := rfl

theorem outputs_snoc (ts : List (Taken σ ε κ)) (t : Taken σ ε κ) :
    outputs (ts ++ [t]) = outputs ts ++ t.out := by
  simp only [outputs, List.flatMap_append, List.flatMap_singleton]

/-- The number of steps that pass a test which reads the steps before it too,
    after the steps `done`. -/
def countAlong (p : List (Taken σ ε κ) → Taken σ ε κ → Bool) (done : List (Taken σ ε κ)) :
    List (Taken σ ε κ) → Nat
  | [] => 0
  | t :: ts => (if p done t then 1 else 0) + countAlong p (done ++ [t]) ts

theorem countAlong_snoc (p : List (Taken σ ε κ) → Taken σ ε κ → Bool)
    (done ts : List (Taken σ ε κ)) (t : Taken σ ε κ) :
    countAlong p done (ts ++ [t])
      = countAlong p done ts + (if p (done ++ ts) t then 1 else 0) := by
  induction ts generalizing done with
  | nil => simp only [List.nil_append, countAlong, List.append_nil, Nat.add_zero, Nat.zero_add]
  | cons u ts ih =>
      rw [List.cons_append, countAlong, ih, countAlong, List.append_assoc, List.singleton_append,
        Nat.add_assoc]

/-- If none is counted, no step passes the test in its place. -/
theorem countAlong_eq_zero {p : List (Taken σ ε κ) → Taken σ ε κ → Bool}
    {done ts : List (Taken σ ε κ)} (h : countAlong p done ts = 0)
    (us : List (Taken σ ε κ)) (t : Taken σ ε κ) (vs : List (Taken σ ε κ))
    (hts : ts = us ++ t :: vs) : p (done ++ us) t = false := by
  induction us generalizing done ts with
  | nil =>
      rw [hts, List.nil_append, countAlong, Nat.add_eq_zero_iff] at h
      rw [List.append_nil]
      by_contra hpass
      rw [Bool.not_eq_false] at hpass
      rw [hpass] at h
      cases h.1
  | cons u us ih =>
      rw [hts, List.cons_append, countAlong, Nat.add_eq_zero_iff] at h
      rw [← List.singleton_append, ← List.append_assoc]
      exact ih h.2 rfl

/-- Putting a step in front of a run. -/
theorem Run.cons {step : Step σ ε κ err} {s s₁ s' : σ} {e : ε} {out : List κ}
    {ts : List (Taken σ ε κ)} (hstep : step s e = .ok (s₁, out)) (hrun : Run step s₁ ts s') :
    Run step s (⟨s, e, s₁, out⟩ :: ts) s' := by
  induction hrun with
  | nil => exact Run.snoc [] s s₁ e out Run.nil hstep
  | snoc ts a b f o _ hab ih => exact Run.snoc _ a b f o ih hab

theorem run_of_feed (step : Step σ ε κ err) (es : List ε) (s s' : σ) (out : List κ)
    (h : feed step s es = .ok (s', out)) :
    ∃ ts, Run step s ts s' ∧ ts.map Taken.event = es ∧ outputs ts = out := by
  induction es generalizing s out with
  | nil =>
      simp only [feed, Except.ok.injEq, Prod.mk.injEq] at h
      exact ⟨[], h.1 ▸ Run.nil, rfl, h.2⟩
  | cons e es ih =>
      cases hs : step s e with
      | error x =>
          rw [feed_cons_error step s e es x hs] at h
          simp only [reduceCtorEq] at h
      | ok r =>
          rcases r with ⟨s₁, o₁⟩
          rw [feed_cons_ok step s s₁ e es o₁ hs] at h
          cases hf : feed step s₁ es with
          | error x =>
              rw [hf] at h
              simp only [Except.map, reduceCtorEq] at h
          | ok r₁ =>
              rcases r₁ with ⟨s₂, o₂⟩
              rw [hf] at h
              simp only [Except.map, Except.ok.injEq, Prod.mk.injEq] at h
              rcases ih s₁ o₂ (by rw [hf, h.1]) with ⟨ts, hrun, hev, hout⟩
              refine ⟨_, Run.cons hs hrun, ?_, ?_⟩
              · rw [List.map_cons, hev]
              · rw [outputs, List.flatMap_cons, ← outputs, hout, h.2]

theorem feed_of_run (step : Step σ ε κ err) (s s' : σ) (ts : List (Taken σ ε κ))
    (h : Run step s ts s') : feed step s (ts.map Taken.event) = .ok (s', outputs ts) := by
  induction h with
  | nil => rfl
  | snoc ts a b e out _ hstep ih =>
      rw [List.map_append, feed_append step _ _ s a _ ih, List.map_cons, List.map_nil,
        feed_cons_ok step a b e [] out hstep, outputs_snoc]
      simp only [feed, Except.map, List.append_nil]

/-- An accepted fold is a run, and conversely. -/
theorem feed_eq_ok_iff (step : Step σ ε κ err) (es : List ε) (s s' : σ) (out : List κ) :
    feed step s es = .ok (s', out) ↔
      ∃ ts, Run step s ts s' ∧ ts.map Taken.event = es ∧ outputs ts = out := by
  constructor
  · exact run_of_feed step es s s' out
  · rintro ⟨ts, hrun, rfl, rfl⟩
    exact feed_of_run step s s' ts hrun

/-- Feed a list of events, recording every step. -/
def record (step : Step σ ε κ err) : σ → List ε → Except err (List (Taken σ ε κ) × σ)
  | s, [] => .ok ([], s)
  | s, e :: es => do
      let (s', out) ← step s e
      let (ts, s'') ← record step s' es
      .ok (⟨s, e, s', out⟩ :: ts, s'')

theorem record_cons_ok (step : Step σ ε κ err) (s s' : σ) (e : ε) (es : List ε) (out : List κ)
    (h : step s e = .ok (s', out)) :
    record step s (e :: es)
      = (record step s' es).map (fun r => (⟨s, e, s', out⟩ :: r.1, r.2)) := by
  rw [record, h]
  cases hr : record step s' es with
  | error x => simp only [bind, Except.bind, hr, Except.map]
  | ok r => simp only [bind, Except.bind, hr, Except.map]

theorem record_cons_error (step : Step σ ε κ err) (s : σ) (e : ε) (es : List ε) (x : err)
    (h : step s e = .error x) : record step s (e :: es) = .error x := by
  rw [record, h]
  rfl

theorem run_of_record (step : Step σ ε κ err) (es : List ε) (s s' : σ)
    (ts : List (Taken σ ε κ)) (h : record step s es = .ok (ts, s')) : Run step s ts s' := by
  induction es generalizing s ts with
  | nil =>
      simp only [record, Except.ok.injEq, Prod.mk.injEq] at h
      rw [← h.1, ← h.2]
      exact Run.nil
  | cons e es ih =>
      cases hs : step s e with
      | error x =>
          rw [record_cons_error step s e es x hs] at h
          simp only [reduceCtorEq] at h
      | ok r =>
          rcases r with ⟨s₁, o₁⟩
          rw [record_cons_ok step s s₁ e es o₁ hs] at h
          cases hr : record step s₁ es with
          | error x => simp only [hr, Except.map, reduceCtorEq] at h
          | ok q =>
              rcases q with ⟨us, s₂⟩
              simp only [hr, Except.map, Except.ok.injEq, Prod.mk.injEq] at h
              rw [← h.1]
              exact Run.cons hs (ih s₁ us (by rw [hr, h.2]))

/-- The events of a recording are the ones that were fed. -/
theorem events_of_record (step : Step σ ε κ err) (es : List ε) (s s' : σ)
    (ts : List (Taken σ ε κ)) (h : record step s es = .ok (ts, s')) :
    ts.map Taken.event = es := by
  induction es generalizing s ts with
  | nil =>
      simp only [record, Except.ok.injEq, Prod.mk.injEq] at h
      rw [← h.1]
      rfl
  | cons e es ih =>
      cases hs : step s e with
      | error x =>
          rw [record_cons_error step s e es x hs] at h
          simp only [reduceCtorEq] at h
      | ok r =>
          rcases r with ⟨s₁, o₁⟩
          rw [record_cons_ok step s s₁ e es o₁ hs] at h
          cases hr : record step s₁ es with
          | error x => simp only [hr, Except.map, reduceCtorEq] at h
          | ok q =>
              rcases q with ⟨us, s₂⟩
              simp only [hr, Except.map, Except.ok.injEq, Prod.mk.injEq] at h
              rw [← h.1, List.map_cons, ih s₁ us (by rw [hr, h.2])]

/-- A recording that is known up to a projection is a run of its events with that
    projection. -/
theorem exists_run_of_events {α : Type} (step : Step σ ε κ err) (es : List ε) (s : σ)
    (proj : List (Taken σ ε κ) × σ → α) (a : α) (h : (record step s es).map proj = .ok a) :
    ∃ ts s', Run step s ts s' ∧ ts.map Taken.event = es ∧ proj (ts, s') = a := by
  cases hr : record step s es with
  | error x =>
      rw [hr] at h
      simp only [Except.map, reduceCtorEq] at h
  | ok q =>
      rcases q with ⟨ts, s'⟩
      rw [hr] at h
      simp only [Except.map, Except.ok.injEq] at h
      exact ⟨ts, s', run_of_record step es s s' ts hr, events_of_record step es s s' ts hr, h⟩

theorem exists_run_of_record {α : Type} (step : Step σ ε κ err) (es : List ε) (s : σ)
    (proj : List (Taken σ ε κ) × σ → α) (a : α) (h : (record step s es).map proj = .ok a) :
    ∃ ts s', Run step s ts s' ∧ proj (ts, s') = a := by
  rcases exists_run_of_events step es s proj a h with ⟨ts, s', hrun, _, hproj⟩
  exact ⟨ts, s', hrun, hproj⟩

/-- What holds at the start and is kept by each step holds in every state
    reached. -/
theorem Run.invariant {step : Step σ ε κ err} {s₀ s : σ} {ts : List (Taken σ ε κ)}
    (P : σ → Prop) (h0 : P s₀)
    (hstep : ∀ a e b out, P a → step a e = .ok (b, out) → P b)
    (h : Run step s₀ ts s) : P s := by
  induction h with
  | nil => exact h0
  | snoc ts a b e out _ hab ih => exact hstep a e b out ih hab

/-- Every recorded step was taken from a state that a prefix of the run
    reaches. -/
theorem Run.of_mem {step : Step σ ε κ err} {s₀ s : σ} {ts : List (Taken σ ε κ)}
    (h : Run step s₀ ts s) (t : Taken σ ε κ) (ht : t ∈ ts) :
    ∃ us, us <+: ts ∧ Run step s₀ us t.before ∧
      step t.before t.event = .ok (t.after, t.out) := by
  induction h with
  | nil => exact absurd ht (List.not_mem_nil)
  | snoc ts a b e out hrun hab ih =>
      rw [List.mem_append, List.mem_singleton] at ht
      rcases ht with hin | rfl
      · rcases ih hin with ⟨us, hpre, hus, hst⟩
        exact ⟨us, hpre.trans (List.prefix_append ts _), hus, hst⟩
      · exact ⟨ts, List.prefix_append ts _, hrun, hab⟩

/-- A run up to one of its steps, and that step. -/
theorem Run.split {step : Step σ ε κ err} {s₀ s : σ} {ts : List (Taken σ ε κ)}
    (h : Run step s₀ ts s) (us : List (Taken σ ε κ)) (t : Taken σ ε κ) (vs : List (Taken σ ε κ))
    (hts : ts = us ++ t :: vs) :
    Run step s₀ us t.before ∧ step t.before t.event = .ok (t.after, t.out) := by
  induction h generalizing vs with
  | nil => exact absurd hts (by simp only [List.nil_eq, List.append_eq_nil_iff, reduceCtorEq,
      and_false, not_false_eq_true])
  | snoc ts a b e out hrun hab ih =>
      rcases List.eq_nil_or_concat vs with rfl | ⟨ws, w, rfl⟩
      · rcases List.append_inj' hts rfl with ⟨hus, hlast⟩
        rw [List.cons.injEq] at hlast
        rw [← hus, ← hlast.1]
        exact ⟨hrun, hab⟩
      · have hinit : ts = us ++ t :: ws := by
          have hts' : ts ++ [⟨a, e, b, out⟩] = (us ++ t :: ws) ++ [w] := by
            rw [hts, List.concat_eq_append, List.append_assoc, List.cons_append]
          exact (List.append_inj' hts' rfl).1
        exact ih ws hinit

/-- A run goes on from wherever a prefix of it has got. -/
theorem Run.rest {step : Step σ ε κ err} {s₀ s : σ} {ts : List (Taken σ ε κ)}
    (h : Run step s₀ ts s) (us : List (Taken σ ε κ)) (t : Taken σ ε κ) (vs : List (Taken σ ε κ))
    (hts : ts = us ++ t :: vs) : Run step t.after vs s := by
  induction h generalizing vs with
  | nil => exact absurd hts (by simp only [List.nil_eq, List.append_eq_nil_iff, reduceCtorEq,
      and_false, not_false_eq_true])
  | snoc ts a b e out hrun hab ih =>
      rcases List.eq_nil_or_concat vs with rfl | ⟨ws, w, rfl⟩
      · rcases List.append_inj' hts rfl with ⟨_, hlast⟩
        rw [List.cons.injEq] at hlast
        rw [← hlast.1]
        exact Run.nil
      · rw [List.concat_eq_append] at hts ⊢
        have hts' : ts ++ [⟨a, e, b, out⟩] = (us ++ t :: ws) ++ [w] := by
          rw [hts, List.append_assoc, List.cons_append]
        rcases List.append_inj' hts' rfl with ⟨hinit, hlast⟩
        rw [List.cons.injEq] at hlast
        rw [← hlast.1]
        exact Run.snoc ws a b e out (ih ws hinit) hab

/-- What a run begins with is a run. -/
theorem Run.left {step : Step σ ε κ err} {s₀ s : σ} {us vs : List (Taken σ ε κ)}
    (h : Run step s₀ (us ++ vs) s) : ∃ m, Run step s₀ us m := by
  cases vs with
  | nil =>
      rw [List.append_nil] at h
      exact ⟨s, h⟩
  | cons t ws => exact ⟨t.before, (h.split us t ws rfl).1⟩

/-- A step as another machine takes it. -/
def Taken.image {σ' ε' : Type} (view : σ → σ') (move : σ → ε → ε') (t : Taken σ ε κ) :
    Taken σ' ε' κ :=
  ⟨view t.before, move t.before t.event, view t.after, t.out⟩

/-- A machine whose steps are steps of another one has only runs of it. -/
theorem Run.image {σ' ε' err' : Type} {step : Step σ ε κ err} {step' : Step σ' ε' κ err'}
    (view : σ → σ') (move : σ → ε → ε')
    (hstep : ∀ a e b out, step a e = .ok (b, out) → step' (view a) (move a e) = .ok (view b, out))
    {s₀ s : σ} {ts : List (Taken σ ε κ)} (h : Run step s₀ ts s) :
    Run step' (view s₀) (ts.map (Taken.image view move)) (view s) := by
  induction h with
  | nil => exact Run.nil
  | snoc ts a b e out _ hab ih =>
      rw [List.map_append]
      exact Run.snoc _ (view a) (view b) (move a e) out ih (hstep a e b out hab)

/-- A machine that does on the images of states and events what another one does
    on them does so over whole lists of events, errors included. -/
theorem feed_map {σ' ε' : Type} {step : Step σ ε κ err} {step' : Step σ' ε' κ err}
    (view : σ → σ') (move : ε → ε')
    (hstep : ∀ s e, step' (view s) (move e) = (step s e).map (fun r => (view r.1, r.2)))
    (es : List ε) (s : σ) :
    feed step' (view s) (es.map move) = (feed step s es).map (fun r => (view r.1, r.2)) := by
  induction es generalizing s with
  | nil => rfl
  | cons e es ih =>
      have hone := hstep s e
      cases hs : step s e with
      | error x =>
          rw [hs] at hone
          rw [List.map_cons, feed_cons_error step' _ _ _ x hone, feed_cons_error step s e es x hs]
          rfl
      | ok r =>
          rcases r with ⟨s₁, o₁⟩
          rw [hs] at hone
          rw [List.map_cons, feed_cons_ok step' _ _ _ _ _ hone, ih s₁,
            feed_cons_ok step s s₁ e es o₁ hs]
          cases feed step s₁ es with
          | error x => rfl
          | ok q => rfl

/-- A potential that pays for the cost of each step, out of what it holds and of
    what the step brings in, bounds the total cost of a run. The invariant restricts
    the steps that have to be looked at to those taken from states that can be
    reached. -/
theorem Run.cost_le_gain {step : Step σ ε κ err} {s₀ s : σ} {ts : List (Taken σ ε κ)}
    (P : σ → Prop) (φ : σ → Nat) (cost gain : Taken σ ε κ → Nat) (h0 : P s₀)
    (hinv : ∀ a e b out, P a → step a e = .ok (b, out) → P b)
    (hφ : ∀ a e b out, P a → step a e = .ok (b, out) →
      φ b + cost ⟨a, e, b, out⟩ ≤ φ a + gain ⟨a, e, b, out⟩)
    (h : Run step s₀ ts s) : φ s + (ts.map cost).sum ≤ φ s₀ + (ts.map gain).sum := by
  induction h with
  | nil => exact Nat.le_refl _
  | snoc ts a b e out hrun hab ih =>
      have hone := hφ a e b out (hrun.invariant P h0 hinv) hab
      rw [List.map_append, List.sum_append, List.map_cons, List.map_nil, List.sum_cons,
        List.sum_nil, List.map_append, List.sum_append, List.map_cons, List.map_nil,
        List.sum_cons, List.sum_nil]
      omega

/-- Where nothing is brought in, the potential at the start bounds the cost. -/
theorem Run.cost_le {step : Step σ ε κ err} {s₀ s : σ} {ts : List (Taken σ ε κ)}
    (P : σ → Prop) (φ : σ → Nat) (cost : Taken σ ε κ → Nat) (h0 : P s₀)
    (hinv : ∀ a e b out, P a → step a e = .ok (b, out) → P b)
    (hφ : ∀ a e b out, P a → step a e = .ok (b, out) → φ b + cost ⟨a, e, b, out⟩ ≤ φ a)
    (h : Run step s₀ ts s) : φ s + (ts.map cost).sum ≤ φ s₀ := by
  have hgain := h.cost_le_gain P φ cost (fun _ => 0) h0 hinv hφ
  rwa [List.map_const', List.sum_replicate_nat, Nat.mul_zero, Nat.add_zero] at hgain

/-- A potential that pays one for each step that passes a test bounds the number
    of such steps. -/
theorem Run.countP_le {step : Step σ ε κ err} {s₀ s : σ} {ts : List (Taken σ ε κ)}
    (P : σ → Prop) (φ : σ → Nat) (p : Taken σ ε κ → Bool) (h0 : P s₀)
    (hinv : ∀ a e b out, P a → step a e = .ok (b, out) → P b)
    (hφ : ∀ a e b out, P a → step a e = .ok (b, out) →
      φ b + (if p ⟨a, e, b, out⟩ then 1 else 0) ≤ φ a)
    (h : Run step s₀ ts s) : φ s + ts.countP p ≤ φ s₀ := by
  induction h with
  | nil => exact Nat.le_refl _
  | snoc ts a b e out hrun hab ih =>
      have hone := hφ a e b out (hrun.invariant P h0 hinv) hab
      rw [List.countP_append, List.countP_singleton]
      omega

/-- Whatever the environment supplies, out of what it may supply, the machine
    gets to a point at which `Q` holds of the outputs and the state. -/
inductive Inevitable (step : Step σ ε κ err) (may : ε → Prop) (Q : List κ → σ → Prop) :
    List κ → σ → Prop
  | now (outs : List κ) (s : σ) (h : Q outs s) : Inevitable step may Q outs s
  | later (outs : List κ) (s : σ) (next : ε → σ × List κ)
      (hstep : ∀ e, may e → step s e = .ok (next e))
      (h : ∀ e, may e → Inevitable step may Q (outs ++ (next e).2) (next e).1) :
      Inevitable step may Q outs s

section Stuttering
variable {ε' err' : Type}

/-- A step read through a partial projection of its event. -/
def Taken.project (p : ε' → Option ε) (t : Taken σ ε' κ) : Option (Taken σ ε κ) :=
  (p t.event).map (fun e => ⟨t.before, e, t.after, t.out⟩)

/-- The stuttering rule. If a machine does on some events what another machine
    does on their projections, and leaves the state alone on all others, then
    its runs without the steps of the latter kind are the other machine's. -/
theorem record_project (step : Step σ ε κ err) (step' : Step σ ε' κ err') (p : ε' → Option ε)
    (lift : err → err') (P : σ → Prop)
    (hinv : ∀ s e s' out, P s → step s e = .ok (s', out) → P s')
    (hsome : ∀ s o e, p o = some e → step' s o = (step s e).mapError lift)
    (hnone : ∀ s o, P s → p o = none → ∃ out, step' s o = .ok (s, out))
    (os : List ε') (s : σ) (hs : P s) :
    (record step' s os).map (fun r => (r.1.filterMap (Taken.project p), r.2))
      = (record step s (os.filterMap p)).mapError lift := by
  induction os generalizing s with
  | nil => rfl
  | cons o os ih =>
      cases hp : p o with
      | none =>
          rcases hnone s o hs hp with ⟨out, hstep⟩
          -- The step stutters: it is dropped, and the state is the same.
          have hdrop : Taken.project p (⟨s, o, s, out⟩ : Taken σ ε' κ) = none := by
            rw [Taken.project, hp]
            rfl
          rw [List.filterMap_cons_none hp, ← ih s hs, record_cons_ok step' s s o os out hstep]
          cases record step' s os with
          | error x => rfl
          | ok r => simp only [Except.map, List.filterMap_cons_none hdrop]
      | some e =>
          -- The step is one of the other machine, which may fail.
          have ho := hsome s o e hp
          rw [List.filterMap_cons_some hp]
          cases hstep : step s e with
          | error x =>
              rw [hstep] at ho
              rw [record_cons_error step' s o os (lift x) ho,
                record_cons_error step s e _ x hstep]
              rfl
          | ok r =>
              rcases r with ⟨s', out⟩
              rw [hstep] at ho
              -- It is kept, and the rest follows from the state that it leads to.
              have hkeep : Taken.project p (⟨s, o, s', out⟩ : Taken σ ε' κ)
                  = some ⟨s, e, s', out⟩ := by
                rw [Taken.project, hp]
                rfl
              have hrest := ih s' (hinv s e s' out hs hstep)
              rw [record_cons_ok step' s s' o os out ho, record_cons_ok step s s' e _ out hstep]
              cases hr' : record step' s' os with
              | error x =>
                  rw [hr'] at hrest
                  cases hr : record step s' (os.filterMap p) with
                  | error y =>
                      rw [hr] at hrest
                      simp only [Except.map, Except.mapError, Except.error.injEq] at hrest
                      simp only [Except.map, Except.mapError, hrest]
                  | ok q =>
                      rw [hr] at hrest
                      simp only [Except.map, Except.mapError, reduceCtorEq] at hrest
              | ok q' =>
                  rw [hr'] at hrest
                  cases hr : record step s' (os.filterMap p) with
                  | error y =>
                      rw [hr] at hrest
                      simp only [Except.map, Except.mapError, reduceCtorEq] at hrest
                  | ok q =>
                      rw [hr] at hrest
                      simp only [Except.map, Except.mapError, Except.ok.injEq] at hrest
                      simp only [Except.map, Except.mapError, List.filterMap_cons_some hkeep,
                        ← hrest]

end Stuttering

/-- Two results are related: both succeed with related states and outputs, or
    both fail with the same error. -/
inductive Agree (R : σ → σ → Prop) (C : κ → κ → Prop) :
    Except err (σ × List κ) → Except err (σ × List κ) → Prop
  | ok (s t : σ) (out out' : List κ) (hst : R s t) (hout : List.Forall₂ C out out') :
      Agree R C (.ok (s, out)) (.ok (t, out'))
  | error (x : err) : Agree R C (.error x) (.error x)

/-- Related outputs can be put in front of related results. -/
theorem Agree.prepend {R : σ → σ → Prop} {C : κ → κ → Prop} {x y : Except err (σ × List κ)}
    {o p : List κ} (hop : List.Forall₂ C o p) (h : Agree R C x y) :
    Agree R C (x.map (fun r => (r.1, o ++ r.2))) (y.map (fun r => (r.1, p ++ r.2))) := by
  cases h with
  | ok s t out out' hst hout => exact Agree.ok s t _ _ hst (List.rel_append hop hout)
  | error e => exact Agree.error e

/-- The unwinding rule. If related states and related events always give
    related results, then two event lists that are related event by event give
    related results from related states. -/
theorem feed_agree (step : Step σ ε κ err) (R : σ → σ → Prop) (E : ε → ε → Prop)
    (C : κ → κ → Prop)
    (hstep : ∀ s t e f, R s t → E e f → Agree R C (step s e) (step t f))
    (es fs : List ε) (hE : List.Forall₂ E es fs) (s t : σ) (hR : R s t) :
    Agree R C (feed step s es) (feed step t fs) := by
  induction hE generalizing s t with
  | nil => exact Agree.ok s t [] [] hR List.Forall₂.nil
  | @cons e f es fs hef _ ih =>
      have hone := hstep s t e f hR hef
      cases hs : step s e with
      | error x =>
          cases ht : step t f with
          | error y =>
              rw [hs, ht] at hone
              cases hone
              rw [feed_cons_error step s e es x hs, feed_cons_error step t f fs x ht]
              exact Agree.error x
          | ok q => rw [hs, ht] at hone; cases hone
      | ok r =>
          rcases r with ⟨s₁, o₁⟩
          cases ht : step t f with
          | error y => rw [hs, ht] at hone; cases hone
          | ok q =>
              rcases q with ⟨t₁, p₁⟩
              rw [hs, ht] at hone
              cases hone with
              | ok _ _ _ _ hR₁ hC₁ =>
                  rw [feed_cons_ok step s s₁ e es o₁ hs, feed_cons_ok step t t₁ f fs p₁ ht]
                  exact (ih s₁ t₁ hR₁).prepend hC₁

section Views
variable {α β γ : Type} (view : σ → α) (look : ε → β) (show' : κ → γ)

/-- What is seen of a result through views of its state and of its outputs. -/
def seen (x : Except err (σ × List κ)) : Except err (α × List γ) :=
  x.map (fun r => (view r.1, r.2.map show'))

/-- Results are related by equal views exactly when they are seen the same. -/
theorem agree_iff_seen (x y : Except err (σ × List κ)) :
    Agree (fun s t => view s = view t) (fun c d => show' c = show' d) x y ↔
      seen view show' x = seen view show' y := by
  constructor
  · intro h
    cases h with
    | error e => rfl
    | ok s t out out' hst hout =>
        rw [← List.forall₂_map_left_iff (R := fun c d => c = show' d),
          ← List.forall₂_map_right_iff (R := Eq), List.forall₂_eq_eq_eq] at hout
        simp only [seen, Except.map, hst, hout]
  · intro h
    cases x with
    | error e =>
        cases y with
        | error e' =>
            simp only [seen, Except.map, Except.error.injEq] at h
            rw [h]
            exact Agree.error e'
        | ok r => simp only [seen, Except.map, reduceCtorEq] at h
    | ok r =>
        cases y with
        | error e' => simp only [seen, Except.map, reduceCtorEq] at h
        | ok q =>
            simp only [seen, Except.map, Except.ok.injEq, Prod.mk.injEq] at h
            refine Agree.ok _ _ _ _ h.1 ?_
            rw [← List.forall₂_map_left_iff (R := fun c d => c = show' d),
              ← List.forall₂_map_right_iff (R := Eq), List.forall₂_eq_eq_eq]
            exact h.2

/-- The unwinding rule through views: if a step shows only what it is shown,
    then event lists that look the same give runs that are seen the same. -/
theorem feed_seen (step : Step σ ε κ err)
    (hstep : ∀ s t e f, view s = view t → look e = look f →
      seen view show' (step s e) = seen view show' (step t f))
    (es fs : List ε) (h : es.map look = fs.map look) (s t : σ) (hst : view s = view t) :
    seen view show' (feed step s es) = seen view show' (feed step t fs) := by
  rw [← agree_iff_seen]
  refine feed_agree step _ (fun e f => look e = look f) _ (fun a b e f hab hef => ?_) es fs ?_ s t
    hst
  · rw [agree_iff_seen]
    exact hstep a b e f hab hef
  · rw [← List.forall₂_map_left_iff (R := fun c d => c = look d),
      ← List.forall₂_map_right_iff (R := Eq), List.forall₂_eq_eq_eq]
    exact h

end Views

end Lib
