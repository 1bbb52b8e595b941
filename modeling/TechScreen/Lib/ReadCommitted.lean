import Mathlib.Data.List.Basic

/-!
# Changes at Read Committed

What a transaction does to a table when the isolation level is READ COMMITTED.
A statement sees the rows that are committed when it starts. A row that another
open transaction has deleted is locked: a `DELETE` that meets one waits, and
when the lock is gone it goes on with the rows that it saw at its start, less
those that are no longer there. Rows that were committed while it waited are not
among them. An `INSERT` waits while another transaction holds the same key, and
fails on a key that is taken.

## Main definitions

* `Change`: The rows that an open transaction has deleted and inserted.
* `Change.apply`: The table after a commit.
* `startDelete`, `resumeDelete`: A `DELETE`, and one that has waited.
* `insertOutcome`: What an `INSERT` does.

## Theorems

* `startDelete_free`: A `DELETE` that meets no lock deletes what is committed.
* `filter_apply_own`, `filter_apply_other`: The table after a replacement.
-/

namespace Lib.ReadCommitted

variable {ρ κ : Type} [DecidableEq ρ] [DecidableEq κ]

/-- What an open transaction has done to a table. -/
structure Change (ρ : Type) where
  deleted : List ρ
  inserted : List ρ := []
  deriving DecidableEq

/-- The table after a commit, for a transaction that may have left it alone. -/
def Change.apply (change : Option (Change ρ)) (rows : List ρ) : List ρ :=
  match change with
  | none => rows
  | some c => rows.filter (fun r => !c.deleted.contains r) ++ c.inserted

/-- The other transaction has deleted the row and is still open. -/
def locked (other : Option (Change ρ)) (r : ρ) : Bool :=
  other.any (fun c => c.deleted.contains r)

/-- A `DELETE` of the rows that the test accepts: the rows that it saw if it has to
    wait, and otherwise what it has done. -/
def startDelete (rows : List ρ) (test : ρ → Bool) (other : Option (Change ρ)) :
    List ρ ⊕ Change ρ :=
  let snapshot := rows.filter test
  if snapshot.any (locked other) then .inl snapshot else .inr { deleted := snapshot }

/-- A `DELETE` that has waited, once no row that it saw is locked. -/
def resumeDelete (rows snapshot : List ρ) (other : Option (Change ρ)) : Option (Change ρ) :=
  if snapshot.any (locked other) then none
  else some { deleted := snapshot.filter (fun r => rows.contains r) }

inductive InsertOutcome where
  | waits
  | violates
  | succeeds
  deriving DecidableEq

/-- What an `INSERT` does with a key that is unique. A row that the transaction
    itself has deleted is in nobody's way. -/
def insertOutcome (key : ρ → κ) (rows : List ρ) (own other : Option (Change ρ))
    (new : List ρ) : InsertOutcome :=
  let taken := rows.filter (fun r => !locked own r && (new.map key).contains (key r))
  if taken.any (fun r => !locked other r) then .violates
  else if taken ≠ [] ||
      other.any (fun c => c.inserted.any (fun r => (new.map key).contains (key r))) then .waits
  else .succeeds

/-- A `DELETE` that meets no lock deletes what is committed. -/
theorem startDelete_free (rows : List ρ) (test : ρ → Bool) :
    startDelete rows test none = .inr { deleted := rows.filter test } := by
  unfold startDelete
  refine if_neg (fun h => ?_)
  obtain ⟨r, -, hr⟩ := List.any_eq_true.mp h
  cases hr

section Replacing
variable {rows : List ρ} {test : ρ → Bool} {change : Change ρ}

/-- After a replacement of the rows that the test accepts, they are the new ones. -/
theorem filter_apply_own (hdel : change.deleted = rows.filter test)
    (hins : ∀ r ∈ change.inserted, test r = true) :
    (Change.apply (some change) rows).filter test = change.inserted := by
  have hold : (rows.filter (fun r => !change.deleted.contains r)).filter test = [] := by
    rw [List.filter_filter, List.filter_eq_nil_iff]
    intro r hr hboth
    rw [Bool.and_eq_true, Bool.not_eq_true', List.contains_eq_mem, decide_eq_false_iff_not, hdel]
      at hboth
    exact hboth.2 (List.mem_filter.mpr ⟨hr, hboth.1⟩)
  unfold Change.apply
  rw [List.filter_append, hold, List.nil_append]
  exact List.filter_eq_self.mpr hins

/-- The other rows are as they were. -/
theorem filter_apply_other {others : ρ → Bool} (hdel : change.deleted = rows.filter test)
    (hins : ∀ r ∈ change.inserted, test r = true)
    (hothers : ∀ r, others r = true → test r = false) :
    (Change.apply (some change) rows).filter others = rows.filter others := by
  have hnew : change.inserted.filter others = [] := by
    rw [List.filter_eq_nil_iff]
    intro r hr ho
    exact Bool.false_ne_true ((hothers r ho).symm.trans (hins r hr))
  unfold Change.apply
  rw [List.filter_append, hnew, List.append_nil, List.filter_filter]
  refine List.filter_congr (fun r _ => ?_)
  by_cases ho : others r = true
  · -- A row that the test refuses was not deleted.
    have hkeep : change.deleted.contains r = false := by
      rw [List.contains_eq_mem, decide_eq_false_iff_not, hdel]
      intro hmem
      have := (List.mem_filter.mp hmem).2
      rw [hothers r ho] at this
      cases this
    rw [hkeep, ho]
    rfl
  · rw [Bool.not_eq_true] at ho
    rw [ho, Bool.false_and]

end Replacing

end Lib.ReadCommitted
