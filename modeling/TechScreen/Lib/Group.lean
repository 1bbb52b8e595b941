import TechScreen.Lib.Dict

/-!
# Grouping Rows

Rows collected under a key, in the order they come: what a dictionary of lists
does when every row is appended to the list of its key. Looking a key up gives
the rows that have it, and nothing for a key that no row has.

## Main definitions

* `group`: The dictionary of lists.

## Theorems

* `getD_group`: The list of a key is the filtered table.
-/

namespace Lib

variable {ρ κ α : Type} [DecidableEq κ]

/-- Append every row to the list of its key. -/
def group (key : ρ → κ) (val : ρ → α) (rows : List ρ) : Dict κ (List α) :=
  rows.foldl (fun d r => d.set (key r) ((d.get? (key r)).getD [] ++ [val r])) .empty

theorem getD_foldl_group (key : ρ → κ) (val : ρ → α) (rows : List ρ) (d : Dict κ (List α))
    (k : κ) :
    ((rows.foldl (fun d r => d.set (key r) ((d.get? (key r)).getD [] ++ [val r])) d).get? k).getD
        [] = (d.get? k).getD [] ++ (rows.filter (fun r => key r = k)).map val := by
  induction rows generalizing d with
  | nil => rw [List.foldl_nil, List.filter_nil, List.map_nil, List.append_nil]
  | cons r rest ih =>
      rw [List.foldl_cons, ih, Dict.get?_set]
      by_cases hk : k = key r
      · subst hk
        rw [if_pos rfl, List.filter_cons_of_pos (by rw [decide_eq_true_eq]), List.map_cons,
          Option.getD_some, List.append_assoc, List.singleton_append]
      · have hne : ¬ key r = k := fun h => hk h.symm
        rw [if_neg hk, List.filter_cons_of_neg (by rwa [decide_eq_true_eq])]

/-- The list of a key is what the rows with that key give, in order. -/
theorem getD_group (key : ρ → κ) (val : ρ → α) (rows : List ρ) (k : κ) :
    ((group key val rows).get? k).getD [] = (rows.filter (fun r => key r = k)).map val :=
  getD_foldl_group key val rows .empty k

end Lib
