import Mathlib.Data.List.Induction
import TechScreen.Lib.Run

/-!
# Lockstep

Two folds over one list, related after every prefix of it. The relation is kept
by some steps and broken by others; when a condition on one side says exactly
which, the folds stay related along the whole list exactly when every step of
it meets the condition.

Two runs of one machine, step against step. What related states and paired
steps keep is kept along the whole of both runs, and whatever it says about a
pair of steps holds for every pair.

## Main definitions

* `RelatedAlong`: Two folds are related after every prefix of a list.

## Theorems

* `relatedAlong_iff`: Every step keeps the relation.
* `Run.lockstep`: Two runs stay related, step against step.
-/

namespace Lib

variable {σ τ ε : Type}

/-- The two folds are related after every prefix of the list. -/
def RelatedAlong (R : σ → τ → Prop) (f : σ → ε → σ) (g : τ → ε → τ) (s : σ) (t : τ)
    (es : List ε) : Prop :=
  ∀ us vs, es = us ++ vs → R (us.foldl f s) (us.foldl g t)

/-- Folds stay related exactly when every step meets a condition that decides
    whether it keeps the relation. -/
theorem relatedAlong_iff {R : σ → τ → Prop} {f : σ → ε → σ} {g : τ → ε → τ}
    {ok : σ → ε → Prop} (hstep : ∀ s t e, R s t → (R (f s e) (g t e) ↔ ok s e))
    {s : σ} {t : τ} (h : R s t) (es : List ε) :
    RelatedAlong R f g s t es ↔ ∀ us e vs, es = us ++ e :: vs → ok (us.foldl f s) e := by
  constructor
  · intro hR us e vs hes
    have hb := hR us (e :: vs) hes
    have ha := hR (us ++ [e]) vs (by rw [hes, List.append_assoc, List.singleton_append])
    rw [List.foldl_append, List.foldl_append] at ha
    exact (hstep _ _ e hb).mp ha
  · intro hok us
    -- A prefix grows at its end.
    induction us using List.reverseRecOn with
    | nil => exact fun _ _ => h
    | append_singleton us e ih =>
        intro vs hes
        have hsplit : es = us ++ e :: vs := by
          rw [hes, List.append_assoc, List.singleton_append]
        rw [List.foldl_append, List.foldl_append]
        exact (hstep _ _ e (ih (e :: vs) hsplit)).mpr (hok us e vs hsplit)

section Runs
variable {κ err : Type}

/-- A list that is paired with a longer one by a last element ends in one, too. -/
theorem forall₂_snoc_left {α β : Type} {P : α → β → Prop} {l : List α} {a : α} {m : List β}
    (h : List.Forall₂ P (l ++ [a]) m) :
    ∃ m' b, m = m' ++ [b] ∧ List.Forall₂ P l m' ∧ P a b := by
  induction l generalizing m with
  | nil =>
      cases h with
      | cons hab hnil =>
          cases hnil
          exact ⟨[], _, rfl, List.Forall₂.nil, hab⟩
  | cons x l ih =>
      cases h with
      | cons hx hrest =>
          rcases ih hrest with ⟨m', b, rfl, hl, hab⟩
          exact ⟨_ :: m', b, rfl, List.Forall₂.cons hx hl, hab⟩

/-- What holds of the members of two paired lists holds of the pairs. -/
theorem forall₂_and_mem {α β : Type} {P : α → β → Prop} {A : α → Prop} {B : β → Prop}
    {l : List α} {m : List β} (h : List.Forall₂ P l m) (hl : ∀ a ∈ l, A a) (hm : ∀ b ∈ m, B b) :
    List.Forall₂ (fun a b => P a b ∧ A a ∧ B b) l m := by
  induction h with
  | nil => exact List.Forall₂.nil
  | @cons a b l m hab _ ih =>
      have hhead := And.intro (hl a List.mem_cons_self) (hm b List.mem_cons_self)
      refine List.Forall₂.cons ⟨hab, hhead⟩ (ih ?_ ?_)
      · exact fun x hx => hl x (List.mem_cons_of_mem a hx)
      · exact fun y hy => hm y (List.mem_cons_of_mem b hy)

/-- Two runs in lockstep. What related states and a pair of steps from them
    keep relates the runs to the end, and holds of every pair of steps. -/
theorem Run.lockstep {step : Step σ ε κ err} {R : σ → σ → Prop}
    {P Q : Taken σ ε κ → Taken σ ε κ → Prop}
    (hstep : ∀ t u, R t.before u.before → P t u →
      step t.before t.event = .ok (t.after, t.out) →
      step u.before u.event = .ok (u.after, u.out) → R t.after u.after ∧ Q t u)
    {s₀ t₀ s t : σ} {ts us : List (Taken σ ε κ)} (h0 : R s₀ t₀) (hs : Run step s₀ ts s)
    (ht : Run step t₀ us t) (hP : List.Forall₂ P ts us) :
    R s t ∧ List.Forall₂ Q ts us := by
  induction hs generalizing us t with
  | nil =>
      cases hP
      rw [ht.eq_of_nil]
      exact ⟨h0, List.Forall₂.nil⟩
  | snoc ts a b e out _ hab ih =>
      rcases forall₂_snoc_left hP with ⟨us', u, rfl, hP', hlast⟩
      have hu := ht.split us' u [] rfl
      -- The other run ends where its last step ends.
      have hend : t = u.after := (ht.rest us' u [] rfl).eq_of_nil
      rcases ih hu.1 hP' with ⟨hR, hQ⟩
      rcases hstep ⟨a, e, b, out⟩ u hR hlast hab hu.2 with ⟨hR', hQ'⟩
      rw [hend]
      exact ⟨hR', List.rel_append hQ (List.Forall₂.cons hQ' List.Forall₂.nil)⟩

end Runs

end Lib
