import Mathlib.Algebra.GroupWithZero.Nat
import Mathlib.Algebra.Order.BigOperators.Group.List
import Mathlib.Algebra.Order.Group.Nat
import Mathlib.Data.List.Sort
import Mathlib.Data.String.Basic
import TechScreen.Lib.JsonText

/-!
# The Length of a JSON Text

How long the text of a tree is, as a sum over the tree, and the sorting of the keys,
which leaves it as it is.

## Main definitions

* `quotedSize`: How long a string is written.
* `Tree.size`: How long a tree is written.
* `Tree.sortKeys`: The tree with its members in the order of their keys.

## Theorems

* `length_render`: A tree is written that long.
* `size_sortKeys`: Sorting the keys leaves the length.
-/

namespace Lib.JsonText

section Sizes

/-- How long a string is written, with its quotes. -/
def quotedSize (s : List Char) : Nat := 2 + (s.map (fun c => (escape c).length)).sum

mutual

/-- How long a tree is written. -/
def Tree.size : Tree → Nat
  | .null => 4
  | .bool b => if b then 4 else 5
  | .number literal => literal.val.length
  | .nonfinite f => f.word.length
  | .str s => quotedSize s
  | .arr items => 2 + (sizeItems items - 2)
  | .obj members => 2 + (sizeMembers members - 2)

/-- The items, each with a comma and a blank. -/
def sizeItems : List Tree → Nat
  | [] => 0
  | item :: items => (item.size + 2) + sizeItems items

def sizeMembers : List (List Char × Tree) → Nat
  | [] => 0
  | (key, value) :: members => (quotedSize key + 2 + value.size + 2) + sizeMembers members

end

theorem length_quote (s : List Char) : (quote s).length = quotedSize s := by
  rw [quote, quotedSize, List.length_append, List.length_cons, List.length_flatMap,
    List.length_singleton]
  omega

theorem length_commas (texts : List (List Char)) :
    (commas texts).length = (texts.map (fun text => text.length + 2)).sum - 2 := by
  induction texts with
  | nil => rfl
  | cons text texts ih =>
      cases texts with
      | nil =>
          rw [commas, List.intercalate_singleton, List.map_singleton, List.sum_singleton]
          omega
      | cons next texts =>
          rw [commas] at ih ⊢
          rw [List.intercalate_cons_cons, List.length_append, List.length_append, ih]
          simp only [List.map_cons, List.sum_cons, List.length_cons, List.length_nil]
          omega

mutual

/-- A tree is written that long. -/
theorem length_render : ∀ tree : Tree, tree.render.length = tree.size
  | .null => rfl
  | .bool true => rfl
  | .bool false => rfl
  | .number _ => rfl
  | .nonfinite _ => rfl
  | .str s => length_quote s
  | .arr items => by
      rw [Tree.render, Tree.size, List.length_append, List.length_cons, length_commas,
        length_renderItems, List.length_singleton]
      omega
  | .obj members => by
      rw [Tree.render, Tree.size, List.length_append, List.length_cons, length_commas,
        length_renderMembers, List.length_singleton]
      omega

theorem length_renderItems : ∀ items : List Tree,
    ((renderItems items).map (fun text => text.length + 2)).sum = sizeItems items
  | [] => rfl
  | item :: items => by
      rw [renderItems, sizeItems, List.map_cons, List.sum_cons, length_render,
        length_renderItems]

theorem length_renderMembers : ∀ members : List (List Char × Tree),
    ((renderMembers members).map (fun text => text.length + 2)).sum = sizeMembers members
  | [] => rfl
  | (key, value) :: members => by
      rw [renderMembers, sizeMembers, List.map_cons, List.sum_cons, length_renderMembers,
        List.length_append, List.length_cons, List.length_cons, length_quote, length_render]
      omega

end

theorem sizeItems_eq (items : List Tree) :
    sizeItems items = (items.map (fun item => item.size + 2)).sum := by
  induction items with
  | nil => rfl
  | cons item items ih => rw [sizeItems, List.map_cons, List.sum_cons, ih]

theorem sizeMembers_eq (members : List (List Char × Tree)) :
    sizeMembers members =
      (members.map (fun m => quotedSize m.1 + 2 + m.2.size + 2)).sum := by
  induction members with
  | nil => rfl
  | cons m members ih => rw [sizeMembers, List.map_cons, List.sum_cons, ih]

/-- What a string is written with is no shorter than the string. -/
theorem length_le_quotedSize (s : List Char) : s.length ≤ quotedSize s := by
  have hescape (c : Char) : 1 ≤ (escape c).length := by
    unfold escape
    split_ifs <;> exact Nat.succ_le_succ (Nat.zero_le _)
  rw [quotedSize]
  induction s with
  | nil => exact Nat.zero_le _
  | cons c s ih =>
      have hone := hescape c
      rw [List.map_cons, List.sum_cons, List.length_cons]
      omega

/-- An array is no shorter than one of its items. -/
theorem size_le_arr {items : List Tree} {item : Tree} (h : item ∈ items) :
    item.size ≤ (Tree.arr items).size := by
  have hmem : item.size + 2 ∈ items.map (fun item => item.size + 2) :=
    List.mem_map.mpr ⟨item, h, rfl⟩
  have hle := List.single_le_sum (fun _ _ => Nat.zero_le _) _ hmem
  rw [Tree.size, sizeItems_eq]
  omega

/-- An object is no shorter than one of its values. -/
theorem size_le_obj {members : List (List Char × Tree)} {m : List Char × Tree}
    (h : m ∈ members) : m.2.size ≤ (Tree.obj members).size := by
  have hmem : quotedSize m.1 + 2 + m.2.size + 2 ∈
      members.map (fun m => quotedSize m.1 + 2 + m.2.size + 2) := List.mem_map.mpr ⟨m, h, rfl⟩
  have hle := List.single_le_sum (fun _ _ => Nat.zero_le _) _ hmem
  rw [Tree.size, sizeMembers_eq]
  omega

end Sizes

section Sorting

mutual

/-- The tree with its members in the order of their keys. -/
def Tree.sortKeys : Tree → Tree
  | .arr items => .arr (sortItems items)
  | .obj members => .obj ((sortMembers members).insertionSort (fun a b => a.1 ≤ b.1))
  | .null => .null
  | .bool b => .bool b
  | .number literal => .number literal
  | .nonfinite f => .nonfinite f
  | .str s => .str s

def sortItems : List Tree → List Tree
  | [] => []
  | item :: items => item.sortKeys :: sortItems items

def sortMembers : List (List Char × Tree) → List (List Char × Tree)
  | [] => []
  | (key, value) :: members => (key, value.sortKeys) :: sortMembers members

end

theorem sizeMembers_perm {members members' : List (List Char × Tree)}
    (h : members.Perm members') : sizeMembers members = sizeMembers members' := by
  rw [sizeMembers_eq, sizeMembers_eq]
  exact (h.map _).sum_eq

mutual

/-- Sorting the keys leaves the length. -/
theorem size_sortKeys : ∀ tree : Tree, tree.sortKeys.size = tree.size
  | .null => rfl
  | .bool _ => rfl
  | .number _ => rfl
  | .nonfinite _ => rfl
  | .str _ => rfl
  | .arr items => by rw [Tree.sortKeys, Tree.size, Tree.size, sizeItems_sortItems]
  | .obj members => by
      rw [Tree.sortKeys, Tree.size, Tree.size, sizeMembers_perm (List.perm_insertionSort _ _),
        sizeMembers_sortMembers]

theorem sizeItems_sortItems : ∀ items : List Tree, sizeItems (sortItems items) = sizeItems items
  | [] => rfl
  | item :: items => by rw [sortItems, sizeItems, sizeItems, size_sortKeys, sizeItems_sortItems]

theorem sizeMembers_sortMembers : ∀ members : List (List Char × Tree),
    sizeMembers (sortMembers members) = sizeMembers members
  | [] => rfl
  | (key, value) :: members => by
      rw [sortMembers, sizeMembers, sizeMembers, size_sortKeys, sizeMembers_sortMembers]

end

end Sorting

end Lib.JsonText
