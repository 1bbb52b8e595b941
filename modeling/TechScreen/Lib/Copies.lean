import TechScreen.Lib.Run

/-!
# Copies of a Shared Cell

Clients of a shared cell that look at it, work on a copy and overwrite the cell
with what they have. A client's copy is current as long as nobody has changed
the cell since the client's own last look at it, where overwriting the cell is
a look as well. A run is undisturbed when every client that overwrites the cell
holds a current copy of it: nobody's change is lost.

Whether a client's copy is current is a fact about the history of a run, not
about its last state. `Run.copies_invariant_where` makes it an argument of the
invariant, so that an induction over a run may use it.

## Main definitions

* `Keeps`: A step that leaves the cell as it was.
* `Current`: The clients that hold a current copy after a run.
* `Undisturbed`: Every overwrite is made from a current copy.
* `Turns`: A check for runs in which clients take turns.

## Theorems

* `current_snoc`: What one step does to the copies.
* `Run.copies_invariant_where`: Invariants over the state and the current copies.
* `undisturbed_of_turns`: Taking turns is enough.
-/

namespace Lib

variable {σ ε κ err ι V : Type}

section Copies
variable (cell : σ → V) (looks commits : ι → Taken σ ε κ → Prop) (start : ι → Prop)

/-- The step leaves the cell as it was. -/
def Keeps (t : Taken σ ε κ) : Prop := cell t.after = cell t.before

/-- The clients that hold a current copy: they had one at the start, or have
    looked at the cell, and no step has changed the cell since. -/
def Current (ts : List (Taken σ ε κ)) (i : ι) : Prop :=
  (start i ∧ ∀ t ∈ ts, Keeps cell t) ∨
    ∃ us t vs, ts = us ++ t :: vs ∧ looks i t ∧ ∀ v ∈ vs, Keeps cell v

/-- Every client that overwrites the cell holds a current copy of it. -/
def Undisturbed (ts : List (Taken σ ε κ)) : Prop :=
  ∀ us t vs, ts = us ++ t :: vs → ∀ i, commits i t → Current cell looks start us i

theorem current_nil (i : ι) : Current cell looks start ([] : List (Taken σ ε κ)) i ↔ start i := by
  constructor
  · rintro (⟨hi, _⟩ | ⟨us, t, vs, hts, _⟩)
    · exact hi
    · simp only [List.nil_eq, List.append_eq_nil_iff, reduceCtorEq, and_false] at hts
  · exact fun hi => Or.inl ⟨hi, fun t ht => absurd ht List.not_mem_nil⟩

/-- A look makes the client's copy current, and a change of the cell makes every
    other copy stale. -/
theorem current_snoc (ts : List (Taken σ ε κ)) (t : Taken σ ε κ) (i : ι) :
    Current cell looks start (ts ++ [t]) i ↔
      looks i t ∨ (Current cell looks start ts i ∧ Keeps cell t) := by
  constructor
  · rintro (⟨hi, hkeep⟩ | ⟨us, u, vs, hts, hlook, hkeep⟩)
    · exact Or.inr ⟨Or.inl ⟨hi, fun v hv => hkeep v (List.mem_append_left _ hv)⟩,
        hkeep t (List.mem_append_right _ (List.mem_singleton_self t))⟩
    · rcases List.eq_nil_or_concat vs with rfl | ⟨ws, w, rfl⟩
      · have hlast := (List.append_inj' hts rfl).2
        rw [List.cons.injEq] at hlast
        rw [hlast.1]
        exact Or.inl hlook
      · rw [List.concat_eq_append, ← List.cons_append, ← List.append_assoc] at hts
        rcases List.append_inj' hts rfl with ⟨hinit, hlast⟩
        rw [List.cons.injEq] at hlast
        rw [List.concat_eq_append] at hkeep
        refine Or.inr ⟨Or.inr ⟨us, u, ws, hinit, hlook, fun v hv => ?_⟩, ?_⟩
        · exact hkeep v (List.mem_append_left _ hv)
        · rw [hlast.1]
          exact hkeep w (List.mem_append_right _ (List.mem_singleton_self w))
  · rintro (hlook | ⟨⟨hi, hkeep⟩ | ⟨us, u, vs, rfl, hlook, hkeep⟩, hlast⟩)
    · exact Or.inr ⟨ts, t, [], rfl, hlook, fun v hv => absurd hv List.not_mem_nil⟩
    · refine Or.inl ⟨hi, fun v hv => ?_⟩
      rcases List.mem_append.mp hv with hv | hv
      · exact hkeep v hv
      · rw [List.mem_singleton.mp hv]
        exact hlast
    · refine Or.inr ⟨us, u, vs ++ [t], by rw [List.append_assoc, List.cons_append], hlook,
        fun v hv => ?_⟩
      rcases List.mem_append.mp hv with hv | hv
      · exact hkeep v hv
      · rw [List.mem_singleton.mp hv]
        exact hlast

theorem undisturbed_snoc (ts : List (Taken σ ε κ)) (t : Taken σ ε κ) :
    Undisturbed cell looks commits start (ts ++ [t]) ↔
      Undisturbed cell looks commits start ts ∧
        ∀ i, commits i t → Current cell looks start ts i := by
  constructor
  · intro h
    refine ⟨fun us u vs hts i hi => ?_, fun i hi => h ts t [] rfl i hi⟩
    exact h us u (vs ++ [t]) (by rw [hts, List.append_assoc, List.cons_append]) i hi
  · rintro ⟨hinit, hlast⟩ us u vs hts i hi
    rcases List.eq_nil_or_concat vs with rfl | ⟨ws, w, rfl⟩
    · rcases List.append_inj' hts rfl with ⟨hus, hu⟩
      rw [List.cons.injEq] at hu
      rw [← hu.1] at hi
      rw [← hus]
      exact hlast i hi
    · rw [List.concat_eq_append, ← List.cons_append, ← List.append_assoc] at hts
      exact hinit us u ws (List.append_inj' hts rfl).1 i hi

/-- An invariant of the outputs so far, the state and the clients with current
    copies. The step may assume that whoever overwrites the cell has one, and what
    else is known of every step. -/
theorem Run.copies_invariant_where {step : Step σ ε κ err} {s₀ s : σ} {ts : List (Taken σ ε κ)}
    (good : Taken σ ε κ → Prop) (P : List κ → σ → (ι → Prop) → Prop) (h0 : P [] s₀ start)
    (hstep : ∀ outs C a e b out, P outs a C → step a e = .ok (b, out) → good ⟨a, e, b, out⟩ →
      (∀ i, commits i ⟨a, e, b, out⟩ → C i) →
      P (outs ++ out) b (fun i => looks i ⟨a, e, b, out⟩ ∨ (C i ∧ cell b = cell a)))
    (h : Run step s₀ ts s) (hts : Undisturbed cell looks commits start ts)
    (hgood : ∀ t ∈ ts, good t) : P (outputs ts) s (Current cell looks start ts) := by
  induction h with
  | nil =>
      have hC : Current cell looks start ([] : List (Taken σ ε κ)) = start :=
        funext fun i => propext (current_nil cell looks start i)
      rw [hC]
      exact h0
  | snoc ts a b e out _ hab ih =>
      rcases (undisturbed_snoc cell looks commits start ts _).mp hts with ⟨hinit, hlast⟩
      have hC : Current cell looks start (ts ++ [⟨a, e, b, out⟩]) = _ :=
        funext fun i => propext (current_snoc cell looks start ts _ i)
      rw [outputs_snoc, hC]
      exact hstep _ _ a e b out (ih hinit (fun t ht => hgood t (List.mem_append_left _ ht))) hab
        (hgood _ (List.mem_append_right _ (List.mem_singleton_self _))) hlast

/-- The rule where nothing else is known of the steps. -/
theorem Run.copies_invariant {step : Step σ ε κ err} {s₀ s : σ} {ts : List (Taken σ ε κ)}
    (P : List κ → σ → (ι → Prop) → Prop) (h0 : P [] s₀ start)
    (hstep : ∀ outs C a e b out, P outs a C → step a e = .ok (b, out) →
      (∀ i, commits i ⟨a, e, b, out⟩ → C i) →
      P (outs ++ out) b (fun i => looks i ⟨a, e, b, out⟩ ∨ (C i ∧ cell b = cell a)))
    (h : Run step s₀ ts s) (hts : Undisturbed cell looks commits start ts) :
    P (outputs ts) s (Current cell looks start ts) :=
  Run.copies_invariant_where cell looks commits start (fun _ => True) P h0
    (fun outs C a e b out hP hab _ => hstep outs C a e b out hP hab) h hts (fun _ _ => trivial)

/-- What a check sees of a step: the client that takes it, whether the client
    looks at the cell, and whether it overwrites it. -/
structure Turn (ι : Type) where
  client : ι
  looks : Bool
  commits : Bool

/-- Clients take turns: whoever overwrites the cell is the last one that has
    looked at it. -/
def Turns [DecidableEq ι] : Option ι → List (Turn ι) → Bool
  | _, [] => true
  | holder, t :: ts =>
      (!t.commits || holder = some t.client) &&
        Turns (if t.looks || t.commits then some t.client else holder) ts

/-- In a run in which clients take turns nobody's change is lost. -/
theorem undisturbed_of_turns [DecidableEq ι] (turn : Taken σ ε κ → Turn ι)
    (hlooks : ∀ t, (turn t).looks = true ∨ (turn t).commits = true → looks (turn t).client t)
    (hcommits : ∀ i t, commits i t → (turn t).commits = true ∧ (turn t).client = i)
    (us ts : List (Taken σ ε κ)) (hkeeps : ∀ t ∈ ts, (turn t).commits = false → Keeps cell t)
    (holder : Option ι) (hholder : ∀ i, holder = some i → Current cell looks start us i)
    (h : Turns holder (ts.map turn) = true) :
    ∀ ts' t vs, ts = ts' ++ t :: vs → ∀ i, commits i t →
      Current cell looks start (us ++ ts') i := by
  induction ts generalizing us holder with
  | nil =>
      intro ts' t vs hts
      simp only [List.nil_eq, List.append_eq_nil_iff, reduceCtorEq, and_false] at hts
  | cons u ts ih =>
      simp only [List.map_cons, Turns, Bool.and_eq_true, Bool.or_eq_true, Bool.not_eq_true',
        decide_eq_true_eq] at h
      intro ts' t vs hts i hi
      cases ts' with
      | nil =>
          rw [List.nil_append, List.cons.injEq] at hts
          rw [← hts.1] at hi
          rcases hcommits i u hi with ⟨hcommit, hclient⟩
          rw [List.append_nil]
          rcases h.1 with hno | hsome
          · rw [hno] at hcommit
            exact absurd hcommit Bool.false_ne_true
          · exact hholder i (by rw [hsome, hclient])
      | cons u' ts' =>
          rw [List.cons_append, List.cons.injEq] at hts
          rw [← hts.1, ← List.singleton_append, ← List.append_assoc]
          refine ih (us ++ [u]) (fun v hv => hkeeps v (List.mem_cons_of_mem u hv)) _
            (fun j hj => ?_) h.2 ts' t vs hts.2 i hi
          rw [current_snoc]
          by_cases hlook : (turn u).looks = true ∨ (turn u).commits = true
          · rw [if_pos hlook, Option.some.injEq] at hj
            rw [← hj]
            exact Or.inl (hlooks u hlook)
          · rw [if_neg hlook] at hj
            rw [not_or, Bool.not_eq_true, Bool.not_eq_true] at hlook
            exact Or.inr ⟨hholder j hj, hkeeps u List.mem_cons_self hlook.2⟩

end Copies

end Lib
