import Mathlib.Data.List.MinMax

/-!
# The Latest Maximum

A register that keeps, of everything it has seen, an item of the greatest key,
and of several such items the one it saw last. What it holds is a function of
the whole history, `champion`, and of a history only two things matter to it:
the greatest key, and the items that attain it in their order. The greatest key
does not depend on the order of the history at all. The item does, but only
through the items that attain the greatest key, so that one such item settles it.

## Main definitions

* `challenge`: What the register holds after one more item.
* `champion`: What it holds after a history.

## Theorems

* `champion_eq_some_iff`: The last of the items that attain the greatest key.
* `champion_key_perm`: The greatest key does not depend on the order.
* `champion_perm`: Neither does the item, if few enough attain that key.
-/

namespace Lib

variable {α β : Type} [LinearOrder β] (key : α → β)

/-- One more item: it is kept unless the item held has a greater key. -/
def challenge : Option α → α → Option α
  | none, x => some x
  | some c, x => if key c ≤ key x then some x else some c

/-- The last item of the list among those with the greatest key. -/
def champion (l : List α) : Option α := l.reverse.argmax key

theorem champion_nil : champion key [] = none := rfl

theorem champion_concat (l : List α) (x : α) :
    champion key (l ++ [x]) = challenge key (champion key l) x := by
  unfold champion
  rw [List.reverse_append, List.reverse_singleton, List.singleton_append, List.argmax_cons]
  cases l.reverse.argmax key with
  | none => rfl
  | some c =>
      simp only [challenge]
      by_cases h : key c ≤ key x
      · rw [if_pos h, if_neg (not_lt.mpr h)]
      · rw [if_neg h, if_pos (not_le.mp h)]

theorem champion_eq_none_iff (l : List α) : champion key l = none ↔ l = [] := by
  rw [champion, List.argmax_eq_none, List.reverse_eq_nil_iff]

theorem champion_mem {l : List α} {x : α} (h : champion key l = some x) : x ∈ l :=
  List.mem_reverse.mp (List.argmax_mem h)

theorem le_champion {l : List α} {x y : α} (h : champion key l = some x) (hy : y ∈ l) :
    key y ≤ key x :=
  List.le_of_mem_argmax (List.mem_reverse.mpr hy) h

/-- The champion is the last of the items that attain its key. -/
theorem getLast?_filter_of_champion {l : List α} {x : α} (h : champion key l = some x) :
    (l.filter (fun y => key y = key x)).getLast? = some x := by
  induction l using List.reverseRecOn generalizing x with
  | nil => cases h
  | append_singleton l a ih =>
      rw [champion_concat] at h
      cases hc : champion key l with
      | none =>
          rw [hc] at h
          obtain rfl : a = x := Option.some.inj h
          rw [(champion_eq_none_iff key l).mp hc]
          simp
      | some c =>
          rw [hc, challenge] at h
          by_cases hle : key c ≤ key a
          · rw [if_pos hle] at h
            obtain rfl : a = x := Option.some.inj h
            simp
          · rw [if_neg hle] at h
            obtain rfl : c = x := Option.some.inj h
            -- The item that lost is not among those that attain the key.
            have hne : key a ≠ key c := fun heq => hle heq.ge
            rw [List.filter_append, List.filter_singleton, decide_eq_false hne,
              Bool.cond_false, List.append_nil]
            exact ih hc

theorem champion_eq_some_iff (l : List α) (x : α) :
    champion key l = some x ↔
      (∀ y ∈ l, key y ≤ key x) ∧ (l.filter (fun y => key y = key x)).getLast? = some x := by
  constructor
  · intro h
    exact ⟨fun y hy => le_champion key h hy, getLast?_filter_of_champion key h⟩
  · rintro ⟨hle, hlast⟩
    have hmem : x ∈ l := List.mem_of_mem_filter (List.mem_of_getLast? hlast)
    cases hc : champion key l with
    | none =>
        rw [(champion_eq_none_iff key l).mp hc] at hmem
        cases hmem
    | some c =>
        -- Both keys are the greatest, so both items are the last of the same list.
        have heq : key c = key x := le_antisymm (hle c (champion_mem key hc))
          (le_champion key hc hmem)
        have hc' := getLast?_filter_of_champion key hc
        rw [heq, hlast] at hc'
        rw [Option.some.inj hc']

theorem champion_key_perm {l l' : List α} (h : l.Perm l') :
    (champion key l).map key = (champion key l').map key := by
  cases hc : champion key l with
  | none =>
      have hnil := (champion_eq_none_iff key l).mp hc
      rw [hnil] at h
      rw [← List.Perm.nil_eq h, champion_nil]
  | some c =>
      cases hc' : champion key l' with
      | none =>
          rw [(champion_eq_none_iff key l').mp hc'] at h
          rw [List.Perm.eq_nil h, champion_nil] at hc
          cases hc
      | some c' =>
          have hle := le_champion key hc' (h.mem_iff.mp (champion_mem key hc))
          have hge := le_champion key hc (h.mem_iff.mpr (champion_mem key hc'))
          rw [Option.map_some, Option.map_some, le_antisymm hle hge]

/-- A list of at most one item has no other order. -/
theorem eq_of_perm_of_short {l l' : List α} (hperm : l.Perm l') (h : l.length ≤ 1) : l = l' := by
  match l with
  | [] => exact List.Perm.nil_eq hperm
  | [x] => exact List.singleton_perm.mp hperm
  | _ :: _ :: _ => exact absurd h (by simp)

/-- Two histories that differ in the order of a suffix, of which at most one item
    attains the greatest key, have one champion. -/
theorem champion_perm (h l l' : List α) (hperm : l.Perm l')
    (hone : ∀ c, champion key (h ++ l) = some c → l.countP (fun y => key y = key c) ≤ 1) :
    champion key (h ++ l) = champion key (h ++ l') := by
  have hkey := champion_key_perm key (List.Perm.append_left h hperm)
  cases hc : champion key (h ++ l) with
  | none =>
      rw [hc, Option.map_none] at hkey
      exact (Option.map_eq_none_iff.mp hkey.symm).symm
  | some c =>
      have hlast := (champion_eq_some_iff key _ c).mp hc
      refine ((champion_eq_some_iff key _ c).mpr ⟨?_, ?_⟩).symm
      · intro y hy
        exact hlast.1 y ((List.Perm.append_left h hperm).mem_iff.mpr hy)
      · -- Of the suffix only the items that attain the key count, and they are
        -- the same list, having at most one item.
        have hfew := hone c hc
        have heq : l.filter (fun y => key y = key c) = l'.filter (fun y => key y = key c) := by
          rw [List.countP_eq_length_filter] at hfew
          exact eq_of_perm_of_short (hperm.filter _) hfew
        rw [List.filter_append, ← heq, ← List.filter_append]
        exact hlast.2

end Lib
