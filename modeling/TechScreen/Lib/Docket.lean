import Mathlib.Data.List.Nodup
import Mathlib.Tactic.Common

/-!
# A Docket of Open Jobs

Jobs are entered under a key and settled by that key, each in its own time and
in any order. A docket keeps everything that was entered, the keys that were
settled, and what is open. It is kept piecemeal: an entry is put at the end of
what is open, and a settlement takes every job of its key out again.

As long as no key is entered twice, the three agree: what is open is what was
entered and not settled, in the order of the entries. A key that is entered
again after it was settled breaks this, since the books cannot tell its two jobs
apart.

## Main definitions

* `Docket`: What was entered, what was settled and what is open.
* `Docket.Step`: Nothing happens, a job is entered, or an open one is settled.
* `Docket.Balanced`: What is open is what was entered and not settled.

## Theorems

* `Docket.Step.balanced`: Every step keeps the balance while keys are fresh.
* `Docket.Balanced.mem_keys_iff`: The keys of what is open.
* `Docket.value_unique`: A key has one job.
-/

namespace Lib

/-- Jobs by their keys: all that were entered, the keys that were settled, and
    the jobs that are open. -/
@[ext]
structure Docket (α β : Type) where
  entered : List (α × β)
  settled : List α
  pending : List (α × β)

namespace Docket

variable {α β : Type} [DecidableEq α]

def keys (jobs : List (α × β)) : List α := jobs.map Prod.fst

def enter (d : Docket α β) (k : α) (v : β) : Docket α β :=
  { d with entered := d.entered ++ [(k, v)], pending := d.pending ++ [(k, v)] }

def settle (d : Docket α β) (k : α) : Docket α β :=
  { d with settled := d.settled ++ [k], pending := d.pending.filter (fun p => p.1 ≠ k) }

/-- Nothing happens, a job is entered, or an open one is settled. -/
inductive Step (d : Docket α β) : Docket α β → Prop
  | idle : Step d d
  | enters (k : α) (v : β) : Step d (d.enter k v)
  | settles (k : α) (hopen : k ∈ keys d.pending) : Step d (d.settle k)

/-- What is open is what was entered and not settled. Nothing is settled twice,
    or without an entry. -/
structure Balanced (d : Docket α β) : Prop where
  pending_eq : d.pending = d.entered.filter (fun p => p.1 ∉ d.settled)
  settled_nodup : d.settled.Nodup
  settled_entered : ∀ k ∈ d.settled, k ∈ keys d.entered

variable {d d' : Docket α β}

theorem balanced_empty : Balanced (⟨[], [], []⟩ : Docket α β) where
  pending_eq := rfl
  settled_nodup := List.nodup_nil
  settled_entered := fun _ hk => absurd hk List.not_mem_nil

/-- The keys of what is open are those entered and not settled. -/
theorem Balanced.mem_keys_iff (h : d.Balanced) (k : α) :
    k ∈ keys d.pending ↔ k ∈ keys d.entered ∧ k ∉ d.settled := by
  rw [h.pending_eq]
  simp only [keys, List.mem_map, List.mem_filter, decide_eq_true_eq]
  constructor
  · rintro ⟨p, ⟨hp, hopen⟩, rfl⟩
    exact ⟨⟨p, hp, rfl⟩, hopen⟩
  · rintro ⟨⟨p, hp, rfl⟩, hopen⟩
    exact ⟨p, ⟨hp, hopen⟩, rfl⟩

/-- A fresh key opens a job that nobody has settled. -/
theorem Balanced.enter (h : d.Balanced) {k : α} (v : β) (hk : k ∉ keys d.entered) :
    (d.enter k v).Balanced where
  pending_eq := by
    have hfresh : k ∉ d.settled := fun hc => hk (h.settled_entered k hc)
    have hlast : [(k, v)].filter (fun p => p.1 ∉ d.settled) = [(k, v)] :=
      List.filter_eq_self.mpr (fun p hp => by
        rw [List.mem_singleton.mp hp]
        exact decide_eq_true hfresh)
    change d.pending ++ [(k, v)] = (d.entered ++ [(k, v)]).filter (fun p => p.1 ∉ d.settled)
    rw [List.filter_append, hlast, ← h.pending_eq]
  settled_nodup := h.settled_nodup
  settled_entered := fun j hj => by
    simp only [Docket.enter, keys, List.map_append, List.mem_append]
    exact Or.inl (h.settled_entered j hj)

/-- An open job is settled for the first time. -/
theorem Balanced.settle (h : d.Balanced) {k : α} (hk : k ∈ keys d.pending) :
    (d.settle k).Balanced where
  pending_eq := by
    change d.pending.filter (fun p => p.1 ≠ k) = d.entered.filter (fun p => p.1 ∉ d.settled ++ [k])
    rw [h.pending_eq, List.filter_filter]
    refine List.filter_congr (fun p _ => ?_)
    rw [← Bool.decide_and, decide_eq_decide, List.mem_append, List.mem_singleton, not_or,
      and_comm]
  settled_nodup := by
    have hopen := ((h.mem_keys_iff k).mp hk).2
    simp only [Docket.settle]
    rw [List.nodup_append]
    refine ⟨h.settled_nodup, List.nodup_singleton k, fun a ha b hb => ?_⟩
    rw [List.mem_singleton.mp hb]
    exact fun hab => hopen (hab ▸ ha)
  settled_entered := by
    intro j hj
    simp only [Docket.settle, List.mem_append, List.mem_singleton] at hj
    rcases hj with hj | rfl
    · exact h.settled_entered j hj
    · exact ((h.mem_keys_iff j).mp hk).1

/-- Every step keeps the balance while no key is entered twice. -/
theorem Step.balanced (h : Step d d') (hd : d.Balanced) (hfresh : (keys d'.entered).Nodup) :
    d'.Balanced := by
  cases h with
  | idle => exact hd
  | enters k v =>
      refine hd.enter v ?_
      simp only [Docket.enter, keys, List.map_append, List.nodup_append, List.map_cons,
        List.map_nil] at hfresh
      exact fun hk => hfresh.2.2 k hk k (List.mem_singleton_self k) rfl
  | settles k hk => exact hd.settle hk

omit [DecidableEq α] in
/-- A key has one job. -/
theorem value_unique (hfresh : (keys d.entered).Nodup) {k : α} {v w : β}
    (hv : (k, v) ∈ d.entered) (hw : (k, w) ∈ d.entered) : v = w := by
  have hpair := List.inj_on_of_nodup_map hfresh hv hw rfl
  exact (Prod.mk.injEq k v k w ▸ hpair).2

end Docket

end Lib
