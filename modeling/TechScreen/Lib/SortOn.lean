import Mathlib.Data.List.Sort
import Mathlib.Data.Multiset.MapFold

/-!
# Sorting by a Key

A list sorted by the keys of its items. The sort is stable, so that in general the
result depends on the order of the list. It does not where the keys are unique: the
sorted list is then a normal form of the list up to permutation.

The items are often known up to some reading of them only, which tells two items
apart less than equality does. As long as the reading shows the key, the sorted
list as it is read is a normal form of the list as it is read.

## Main definitions

* `sortOn`: The list sorted by a key.

## Theorems

* `sortOn_eq_of_perm`: With unique keys the order of the list does not matter.
* `map_sortOn`: Reading the items of a sorted list.
* `map_sortOn_eq_iff`: Two sorted lists read the same if the lists do up to order.
* `perm_map_of_imp`: A reading that tells less apart.
* `sortOn_sortOn`: Sorting twice.
-/

namespace Lib

variable {α β κ : Type} [LinearOrder κ]

/-- The list sorted by a key; items of one key keep their order. -/
def sortOn (key : α → κ) (l : List α) : List α := l.insertionSort (fun a b => key a ≤ key b)

theorem sortOn_perm (key : α → κ) (l : List α) : (sortOn key l).Perm l :=
  List.perm_insertionSort _ l

theorem pairwise_sortOn (key : α → κ) (l : List α) :
    (sortOn key l).Pairwise (fun a b => key a ≤ key b) := by
  have : IsTrans α (fun a b => key a ≤ key b) := ⟨fun _ _ _ => le_trans⟩
  have : Std.Total (fun a b : α => key a ≤ key b) := ⟨fun a b => le_total (key a) (key b)⟩
  exact List.pairwise_insertionSort _ l

theorem sortOn_sortOn (key : α → κ) (l : List α) : sortOn key (sortOn key l) = sortOn key l :=
  (pairwise_sortOn key l).insertionSort_eq

/-- With unique keys the order of the list does not matter. -/
theorem sortOn_eq_of_perm {key : α → κ} {l l' : List α} (h : l.Perm l')
    (hnodup : (l.map key).Nodup) : sortOn key l = sortOn key l' := by
  refine List.Perm.eq_of_pairwise ?_ (pairwise_sortOn key l) (pairwise_sortOn key l')
    (((sortOn_perm key l).trans h).trans (sortOn_perm key l').symm)
  intro a b ha hb hab hba
  have ha : a ∈ l := (sortOn_perm key l).mem_iff.mp ha
  have hb : b ∈ l := h.mem_iff.mpr ((sortOn_perm key l').mem_iff.mp hb)
  exact List.inj_on_of_nodup_map hnodup ha hb (le_antisymm hab hba)

variable {key : α → κ} {read : α → β} {shown : β → κ}

/-- A reading that shows the keys reads the sorted list as the sorted reading. -/
theorem map_sortOn {l : List α} (h : ∀ a ∈ l, key a = shown (read a)) :
    (sortOn key l).map read = sortOn shown (l.map read) := by
  refine List.map_insertionSort _ _ read l (fun a ha b hb => ?_)
  rw [h a ha, h b hb]

/-- Two sorted lists read the same if the lists do up to order. -/
theorem map_sortOn_eq_iff {l l' : List α} (h : ∀ a ∈ l, key a = shown (read a))
    (h' : ∀ a ∈ l', key a = shown (read a)) (hnodup : (l.map key).Nodup) :
    (sortOn key l).map read = (sortOn key l').map read ↔ (l.map read).Perm (l'.map read) := by
  have hshown : ((l.map read).map shown).Nodup := by
    have hkeys : l.map key = l.map (shown ∘ read) := List.map_congr_left (fun a ha => h a ha)
    rwa [List.map_map, ← hkeys]
  constructor
  · intro hsame
    have hread : ((sortOn key l).map read).Perm ((sortOn key l').map read) := by rw [hsame]
    exact (((sortOn_perm key l).symm.map read).trans hread).trans ((sortOn_perm key l').map read)
  · intro hperm
    rw [map_sortOn h, map_sortOn h']
    exact sortOn_eq_of_perm hperm hshown

/-- A reading that tells nothing apart which another does not. -/
theorem perm_map_of_imp {γ : Type} {f : α → β} {g : α → γ} {l l' : List α}
    (h : ∀ a ∈ l, ∀ b ∈ l', f a = f b → g a = g b) (hperm : (l.map f).Perm (l'.map f)) :
    (l.map g).Perm (l'.map g) := by
  have hrel : Multiset.Rel (fun a b => f a = f b) (l : Multiset α) (l' : Multiset α) := by
    rw [← Multiset.rel_map, Multiset.rel_eq, Multiset.map_coe, Multiset.map_coe,
      Multiset.coe_eq_coe]
    exact hperm
  have hread := hrel.mono (fun a ha b hb => h a ha b hb)
  rwa [← Multiset.rel_map, Multiset.rel_eq, Multiset.map_coe, Multiset.map_coe,
    Multiset.coe_eq_coe] at hread

end Lib
