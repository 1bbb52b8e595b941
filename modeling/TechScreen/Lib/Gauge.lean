import Mathlib.Algebra.Order.Monoid.Defs
import Mathlib.Algebra.Order.Monoid.Unbundled.Pow
import Mathlib.Algebra.Order.Group.Nat
import Mathlib.Tactic.Common

/-!
# Spending Under a Lagging Check

A budget that is checked when a job starts and charged when it ends. Between the
two, other jobs start against the same amount, so the amount spent can pass the
budget. What bounds the excess is the number of jobs that have passed the check
and are not charged yet: if no job is charged more than `c` and at most `k` are
in that state, then the amount together with `c` for each of them stays below
the budget and `k` times `c`.

## Main definitions

* `Gauge`: The amount spent, and the jobs admitted and not yet charged.
* `Gauge.Step`: Nothing happens, a job is admitted, or a job is charged.
* `Gauge.Within`: The bound.

## Theorems

* `Gauge.Step.within`: Every step keeps the bound.
* `Gauge.Within.spent_lt`: The bound on the amount spent.
* `Gauge.Step.shut`: When the budget is spent and nobody is admitted, nothing moves.
-/

namespace Lib

/-- An amount spent, and how many jobs have passed the check and are still to be
    charged. -/
structure Gauge (α : Type) where
  spent : α
  pending : Nat

namespace Gauge

variable {α : Type} [AddCommMonoid α] [LinearOrder α] [IsOrderedCancelAddMonoid α]

/-- What a step does to the gauge: a job is admitted while the budget is not
    spent, and charged at most `c` in the end. -/
inductive Step (budget c : α) : Gauge α → Gauge α → Prop
  | idle (g : Gauge α) : Step budget c g g
  | enter (spent : α) (n : Nat) (h : spent < budget) :
      Step budget c ⟨spent, n⟩ ⟨spent, n + 1⟩
  | settle (spent x : α) (n : Nat) (h : 0 ≤ x) (hx : x ≤ c) :
      Step budget c ⟨spent, n + 1⟩ ⟨spent + x, n⟩

/-- The amount spent, with the most that the admitted jobs can still cost, is
    below the budget and the most that `k` jobs can cost. -/
def Within (budget c : α) (k : Nat) (g : Gauge α) : Prop :=
  g.spent + g.pending • c < budget + k • c

variable {budget c : α} {k : Nat} {g g' : Gauge α}

/-- At the start nobody is admitted. -/
theorem within_start (hc : 0 ≤ c) {spent : α} (h : spent < budget) :
    Within budget c k ⟨spent, 0⟩ := by
  unfold Within
  rw [zero_nsmul, add_zero]
  exact lt_of_lt_of_le h (le_add_of_nonneg_right (nsmul_nonneg hc k))

theorem Step.within (h : Step budget c g g') (hc : 0 ≤ c) (hk : g'.pending ≤ k)
    (hg : Within budget c k g) : Within budget c k g' := by
  cases h with
  | idle => exact hg
  | enter spent n hlt =>
      -- The new job has seen an amount below the budget, whatever the others owe.
      exact add_lt_add_of_lt_of_le hlt (nsmul_le_nsmul_left hc hk)
  | settle spent x n h0 hx =>
      -- The job pays out of what was set aside for it.
      have hpaid : spent + x + n • c ≤ spent + (n + 1) • c := by
        rw [add_assoc, succ_nsmul']
        gcongr
      exact lt_of_le_of_lt hpaid hg

/-- The bound on the amount spent. -/
theorem Within.spent_lt (hc : 0 ≤ c) (h : Within budget c k g) :
    g.spent < budget + k • c :=
  lt_of_le_of_lt (le_add_of_nonneg_right (nsmul_nonneg hc g.pending)) h

omit [IsOrderedCancelAddMonoid α] in
/-- When the budget is spent and nobody is admitted, nothing moves. -/
theorem Step.shut (h : Step budget c g g') (hb : budget ≤ g.spent) (hp : g.pending = 0) :
    g' = g := by
  cases h with
  | idle => rfl
  | enter spent n hlt => exact absurd hlt (not_lt.mpr hb)
  | settle spent x n h0 hx => exact absurd hp (Nat.succ_ne_zero n)

end Gauge

end Lib
