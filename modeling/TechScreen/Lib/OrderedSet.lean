import Mathlib.Data.List.Nodup
import Mathlib.Tactic.Common

/-!
# Insertion-Ordered Sets

The set of a scripting language: its members in the order in which they came, no
member twice. Adding a member that is there changes nothing, adding another one
puts it last, and deleting members leaves the others where they stood.

## Main definitions

* `OrderedSet`: A list without duplicates.
* `OrderedSet.add`, `OrderedSet.delete`: One member more or less.
* `OrderedSet.ofList`: The members of a list.
* `OrderedSet.without`: The members that a test lets through, deleted one by one.

## Theorems

* `OrderedSet.mem_add`, `OrderedSet.mem_delete`, `OrderedSet.mem_ofList`,
  `OrderedSet.mem_without`: The members after each operation.
-/

namespace Lib

variable {α : Type} [DecidableEq α]

structure OrderedSet (α : Type) where
  entries : List α
  nodup : entries.Nodup
  deriving DecidableEq

namespace OrderedSet

instance : Membership α (OrderedSet α) := ⟨fun s a => a ∈ s.entries⟩

instance (s : OrderedSet α) (a : α) : Decidable (a ∈ s) :=
  inferInstanceAs (Decidable (a ∈ s.entries))

def empty : OrderedSet α := ⟨[], List.nodup_nil⟩

def size (s : OrderedSet α) : Nat := s.entries.length

/-- Add a member, at the end if it is not there yet. -/
def add (s : OrderedSet α) (a : α) : OrderedSet α :=
  if h : a ∈ s.entries then s
  else ⟨s.entries ++ [a], List.nodup_append.mpr ⟨s.nodup, List.nodup_singleton a,
    fun _ hb _ hc hbc => h (List.mem_singleton.mp hc ▸ hbc ▸ hb)⟩⟩

def delete (s : OrderedSet α) (a : α) : OrderedSet α := ⟨s.entries.erase a, s.nodup.erase a⟩

/-- The members of a list, each at its first place. -/
def ofList (l : List α) : OrderedSet α := l.foldl add empty

/-- Delete, one by one, the members that pass a test. -/
def without (s : OrderedSet α) (p : α → Bool) : OrderedSet α :=
  s.entries.foldl (fun next a => if p a then next.delete a else next) s

omit [DecidableEq α] in
theorem mem_iff (s : OrderedSet α) (a : α) : a ∈ s ↔ a ∈ s.entries := Iff.rfl

theorem mem_add (s : OrderedSet α) (a b : α) : b ∈ s.add a ↔ b = a ∨ b ∈ s := by
  unfold add
  split
  · next h =>
      refine ⟨Or.inr, fun hb => ?_⟩
      rcases hb with rfl | hb
      · exact h
      · exact hb
  · rw [mem_iff, List.mem_append, List.mem_singleton, Or.comm, mem_iff]

theorem mem_delete (s : OrderedSet α) (a b : α) : b ∈ s.delete a ↔ b ≠ a ∧ b ∈ s :=
  s.nodup.mem_erase_iff

theorem mem_foldl_add (l : List α) (s : OrderedSet α) (b : α) :
    b ∈ l.foldl add s ↔ b ∈ s ∨ b ∈ l := by
  induction l generalizing s with
  | nil => simp
  | cons a l ih =>
      rw [List.foldl_cons, ih, mem_add, List.mem_cons]
      tauto

theorem mem_ofList (l : List α) (b : α) : b ∈ ofList l ↔ b ∈ l := by
  rw [ofList, mem_foldl_add]
  exact or_iff_right List.not_mem_nil

theorem mem_foldl_delete (p : α → Bool) (l : List α) (s : OrderedSet α) (b : α) :
    b ∈ l.foldl (fun next a => if p a then next.delete a else next) s
      ↔ b ∈ s ∧ ¬ (b ∈ l ∧ p b = true) := by
  induction l generalizing s with
  | nil => simp
  | cons a l ih =>
      rw [List.foldl_cons, ih, List.mem_cons]
      by_cases hp : p a = true
      · rw [if_pos hp, mem_delete]
        by_cases hb : b = a
        · subst hb
          simp [hp]
        · simp [hb]
      · rw [if_neg hp]
        by_cases hb : b = a
        · subst hb
          simp [hp]
        · simp [hb]

theorem mem_without (s : OrderedSet α) (p : α → Bool) (b : α) :
    b ∈ s.without p ↔ b ∈ s ∧ p b = false := by
  rw [without, mem_foldl_delete]
  by_cases hp : p b = true
  · simp [hp, mem_iff]
  · simp [hp]

end OrderedSet

end Lib
