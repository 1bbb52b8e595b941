import Mathlib.Data.List.Nodup

/-!
# Insertion-Ordered Dictionaries

The dictionary of a scripting language: an association list that keeps the
order in which its keys were first written. Writing to a key that is already
there changes its value in place, writing to a new key appends it, and
deleting a key leaves the others where they stood.

The distinctness of the keys is a field, so no caller has to carry it. That is
what makes `Dict.ofList_entries` true as stated: reading a dictionary back out
of its own list of entries rebuilds it exactly, order included, because no
later entry can overwrite an earlier one.

## Main definitions

* `insertIn`: Writing a key in an association list.
* `Dict`: An association list with distinct keys.
* `Dict.get?`: The value at a key.
* `Dict.set`: Writing a key.
* `Dict.erase`: Deleting a key.
* `Dict.ofList`: Writing a list of entries, later ones winning.
* `Dict.mapValues`: Changing every value.

## Theorems

* `Dict.get?_set_self`: A written key holds the written value.
* `Dict.get?_set_of_ne`: Writing a key leaves the others alone.
* `Dict.mapValues_set`: Changing all values commutes with writing a key.
* `Dict.get?_foldl_set`: The last entry written for a key is the one it holds.
* `Dict.ofList_entries`: The entries of a dictionary rebuild it.
-/

namespace Lib

variable {α β γ : Type} [DecidableEq α]

/-- Write `v` at key `k`: in place where the key is present, else at the end. -/
def insertIn (k : α) (v : β) : List (α × β) → List (α × β)
  | [] => [(k, v)]
  | (a, b) :: rest => if a = k then (k, v) :: rest else (a, b) :: insertIn k v rest

theorem lookup_insertIn_self (k : α) (v : β) (l : List (α × β)) :
    (insertIn k v l).lookup k = some v := by
  induction l with
  | nil => simp only [insertIn, List.lookup_cons_self]
  | cons p rest ih =>
      rcases p with ⟨a, b⟩
      by_cases ha : a = k
      · simp only [insertIn, if_pos ha, List.lookup_cons_self]
      · have hka : (k == a) = false := beq_eq_false_iff_ne.mpr (fun hc => ha hc.symm)
        simp only [insertIn, if_neg ha, List.lookup_cons, hka, ih]

theorem lookup_insertIn_of_ne (k j : α) (v : β) (l : List (α × β)) (hj : j ≠ k) :
    (insertIn k v l).lookup j = l.lookup j := by
  have hjk : (j == k) = false := beq_eq_false_iff_ne.mpr hj
  induction l with
  | nil => simp only [insertIn, List.lookup_cons, hjk, List.lookup_nil]
  | cons p rest ih =>
      rcases p with ⟨a, b⟩
      by_cases ha : a = k
      · rw [insertIn, if_pos ha, List.lookup_cons, List.lookup_cons, hjk, ha, hjk]
      · rw [insertIn, if_neg ha, List.lookup_cons, List.lookup_cons, ih]

theorem mem_keys_insertIn (k j : α) (v : β) (l : List (α × β)) :
    j ∈ (insertIn k v l).map Prod.fst ↔ j = k ∨ j ∈ l.map Prod.fst := by
  induction l with
  | nil => simp only [insertIn, List.map_cons, List.map_nil, List.mem_singleton,
      List.not_mem_nil, or_false]
  | cons p rest ih =>
      rcases p with ⟨a, b⟩
      by_cases ha : a = k
      · rw [insertIn, if_pos ha, List.map_cons, List.map_cons, List.mem_cons, List.mem_cons, ha,
          ← or_assoc, or_self]
      · rw [insertIn, if_neg ha, List.map_cons, List.map_cons, List.mem_cons, List.mem_cons, ih,
          or_left_comm]

/-- What is in a list after a key was written was written now or was there. -/
theorem mem_insertIn {k : α} {v : β} {l : List (α × β)} {p : α × β} (h : p ∈ insertIn k v l) :
    p = (k, v) ∨ p ∈ l := by
  induction l with
  | nil => exact Or.inl (List.mem_singleton.mp h)
  | cons q rest ih =>
      rcases q with ⟨a, b⟩
      by_cases ha : a = k
      · rw [insertIn, if_pos ha] at h
        exact (List.mem_cons.mp h).imp_right (List.mem_cons_of_mem _)
      · rw [insertIn, if_neg ha] at h
        rcases List.mem_cons.mp h with h | h
        · exact Or.inr (h ▸ List.mem_cons_self)
        · exact (ih h).imp_right (List.mem_cons_of_mem _)

theorem nodup_insertIn (k : α) (v : β) (l : List (α × β)) (hl : (l.map Prod.fst).Nodup) :
    ((insertIn k v l).map Prod.fst).Nodup := by
  induction l with
  | nil => simp only [insertIn, List.map_cons, List.map_nil, List.nodup_singleton]
  | cons p rest ih =>
      rcases p with ⟨a, b⟩
      rw [List.map_cons, List.nodup_cons] at hl
      by_cases ha : a = k
      · rw [insertIn, if_pos ha, List.map_cons, List.nodup_cons]
        exact ⟨ha ▸ hl.1, hl.2⟩
      · rw [insertIn, if_neg ha, List.map_cons, List.nodup_cons, mem_keys_insertIn]
        refine ⟨fun hc => ?_, ih hl.2⟩
        rcases hc with hk | hr
        · exact ha hk
        · exact hl.1 hr

/-- A key that is not there yet is appended. -/
theorem insertIn_of_notMem (k : α) (v : β) (l : List (α × β)) (hk : k ∉ l.map Prod.fst) :
    insertIn k v l = l ++ [(k, v)] := by
  induction l with
  | nil => rfl
  | cons p rest ih =>
      rcases p with ⟨a, b⟩
      simp only [List.map_cons, List.mem_cons, not_or] at hk
      rw [insertIn, if_neg (fun hc => hk.1 hc.symm), ih hk.2, List.cons_append]

/-- Writing what is there changes nothing. -/
theorem insertIn_of_lookup {k : α} {v : β} {l : List (α × β)} (h : l.lookup k = some v) :
    insertIn k v l = l := by
  induction l with
  | nil => cases h
  | cons p rest ih =>
      rcases p with ⟨a, b⟩
      rw [List.lookup_cons] at h
      by_cases ha : a = k
      · rw [beq_iff_eq.mpr ha.symm, Option.some.injEq] at h
        rw [insertIn, if_pos ha, ha, h]
      · rw [beq_eq_false_iff_ne.mpr (fun hc => ha hc.symm)] at h
        rw [insertIn, if_neg ha, ih h]

theorem keys_insertIn_of_mem {k : α} (v : β) {l : List (α × β)} (h : k ∈ l.map Prod.fst) :
    (insertIn k v l).map Prod.fst = l.map Prod.fst := by
  induction l with
  | nil => cases h
  | cons p rest ih =>
      rcases p with ⟨a, b⟩
      by_cases ha : a = k
      · rw [insertIn, if_pos ha, List.map_cons, List.map_cons, ha]
      · rw [List.map_cons, List.mem_cons] at h
        rw [insertIn, if_neg ha, List.map_cons, List.map_cons,
          ih (h.resolve_left (fun hk => ha hk.symm))]

theorem lookup_map_snd (f : β → γ) (k : α) (l : List (α × β)) :
    (l.map (fun p => (p.1, f p.2))).lookup k = (l.lookup k).map f := by
  induction l with
  | nil => rfl
  | cons p rest ih =>
      rcases p with ⟨a, b⟩
      rw [List.map_cons, List.lookup_cons, List.lookup_cons, ih]
      cases k == a with
      | true => rfl
      | false => rfl

/-- Changing the values of a list commutes with writing a key. -/
theorem map_insertIn (f : β → γ) (k : α) (v : β) (l : List (α × β)) :
    (insertIn k v l).map (fun p => (p.1, f p.2))
      = insertIn k (f v) (l.map (fun p => (p.1, f p.2))) := by
  induction l with
  | nil => rfl
  | cons p rest ih =>
      rcases p with ⟨a, b⟩
      by_cases ha : a = k
      · simp only [insertIn, List.map_cons, if_pos ha]
      · simp only [insertIn, List.map_cons, if_neg ha, ih]

/-- A dictionary that remembers the order in which its keys were written. -/
structure Dict (α β : Type) where
  entries : List (α × β)
  nodup : (entries.map Prod.fst).Nodup
  deriving DecidableEq

namespace Dict

omit [DecidableEq α] in
theorem ext_entries {d e : Dict α β} (h : d.entries = e.entries) : d = e := by
  cases d with
  | mk l hl =>
      cases e with
      | mk m hm =>
          simp only at h
          subst h
          rfl

/-- The dictionary with no keys. -/
def empty : Dict α β := ⟨[], List.nodup_nil⟩

/-- The value at a key, if the key is present. -/
def get? (d : Dict α β) (k : α) : Option β := d.entries.lookup k

/-- The keys in the order they were first written. -/
def keys (d : Dict α β) : List α := d.entries.map Prod.fst

/-- Write a key. -/
def set (d : Dict α β) (k : α) (v : β) : Dict α β :=
  ⟨insertIn k v d.entries, nodup_insertIn k v d.entries d.nodup⟩

/-- Delete a key. -/
def erase (d : Dict α β) (k : α) : Dict α β :=
  ⟨d.entries.filter (fun p => p.1 ≠ k), d.nodup.sublist (List.filter_sublist.map Prod.fst)⟩

/-- Write every entry of a list in turn, so that a later entry wins. -/
def ofList (l : List (α × β)) : Dict α β := l.foldl (fun d p => d.set p.1 p.2) empty

@[simp] theorem get?_empty (k : α) : (empty : Dict α β).get? k = none := rfl

@[simp] theorem get?_set_self (d : Dict α β) (k : α) (v : β) : (d.set k v).get? k = some v :=
  lookup_insertIn_self k v d.entries

theorem get?_set_of_ne (d : Dict α β) (k j : α) (v : β) (hj : j ≠ k) :
    (d.set k v).get? j = d.get? j :=
  lookup_insertIn_of_ne k j v d.entries hj

theorem get?_set (d : Dict α β) (k j : α) (v : β) :
    (d.set k v).get? j = if j = k then some v else d.get? j := by
  by_cases hj : j = k
  · rw [if_pos hj, hj, get?_set_self]
  · rw [if_neg hj, get?_set_of_ne d k j v hj]

/-- Writing what a key holds changes nothing. -/
theorem set_of_get? {d : Dict α β} {k : α} {v : β} (h : d.get? k = some v) : d.set k v = d :=
  ext_entries (insertIn_of_lookup h)

/-- Writing a key that is there leaves the keys as they are. -/
theorem keys_set_of_mem {d : Dict α β} {k : α} (v : β) (h : k ∈ d.keys) :
    (d.set k v).keys = d.keys :=
  keys_insertIn_of_mem v h

theorem mem_keys_of_get? {d : Dict α β} {k : α} {v : β} (h : d.get? k = some v) : k ∈ d.keys := by
  obtain ⟨us, vs, hentries, -⟩ := List.lookup_eq_some_iff.mp h
  rw [keys, hentries, List.map_append]
  exact List.mem_append_right _ List.mem_cons_self

theorem isSome_get?_of_mem_keys {d : Dict α β} {k : α} (h : k ∈ d.keys) :
    (d.get? k).isSome = true := by
  by_contra hnone
  rw [Bool.not_eq_true, Option.isSome_eq_false_iff, Option.isNone_iff_eq_none, get?,
    List.lookup_eq_none_iff] at hnone
  obtain ⟨p, hp, rfl⟩ := List.mem_map.mp h
  exact absurd (hnone p hp) (by simp)

/-- Keys may be deleted in any order. -/
theorem erase_comm (d : Dict α β) (j k : α) : (d.erase j).erase k = (d.erase k).erase j := by
  refine ext_entries ?_
  simp only [erase, List.filter_filter, Bool.and_comm]

theorem get?_erase_self (d : Dict α β) (k : α) : (d.erase k).get? k = none := by
  unfold get? erase
  rw [List.lookup_eq_none_iff]
  intro p hp
  have hne := of_decide_eq_true (List.mem_filter.mp hp).2
  exact bne_iff_ne.mpr (Ne.symm hne)

theorem get?_erase_of_ne (d : Dict α β) (k j : α) (hj : j ≠ k) :
    (d.erase k).get? j = d.get? j := by
  unfold get? erase
  dsimp only
  induction d.entries with
  | nil => rfl
  | cons p l ih =>
      by_cases hp : p.1 = k
      · have hne : (j == p.1) = false := beq_eq_false_iff_ne.mpr (fun hc => hj (hc.trans hp))
        rw [List.filter_cons_of_neg (by simp only [hp, ne_eq, not_true_eq_false, decide_false,
          Bool.false_eq_true, not_false_eq_true]), ih, List.lookup_cons, hne]
      · rw [List.filter_cons_of_pos (by simp only [hp, ne_eq, not_false_eq_true, decide_true]),
          List.lookup_cons, List.lookup_cons, ih]

theorem lookup_eq_some_iff_of_nodup {l : List (α × β)} (h : (l.map Prod.fst).Nodup) (k : α)
    (v : β) : l.lookup k = some v ↔ (k, v) ∈ l := by
  induction l with
  | nil => simp
  | cons p l ih =>
      rw [List.map_cons, List.nodup_cons] at h
      rw [List.lookup_cons, List.mem_cons]
      by_cases hk : k = p.1
      · subst hk
        have hnot : (p.1, v) ∉ l := fun hmem => h.1 (List.mem_map.mpr ⟨_, hmem, rfl⟩)
        simp only [beq_self_eq_true, Option.some.injEq, hnot, or_false, Prod.ext_iff, true_and]
        exact eq_comm
      · have hne : (k, v) ≠ p := fun he => hk (congrArg Prod.fst he)
        rw [beq_false_of_ne hk]
        simp only [hne, false_or]
        exact ih h.2

/-- What a dictionary holds are its entries. -/
theorem get?_eq_some_iff (d : Dict α β) (k : α) (v : β) :
    d.get? k = some v ↔ (k, v) ∈ d.entries :=
  lookup_eq_some_iff_of_nodup d.nodup k v

/-- Change every value, keeping the keys and their order. -/
def mapValues (f : β → γ) (d : Dict α β) : Dict α γ :=
  ⟨d.entries.map (fun p => (p.1, f p.2)), by
    rw [List.map_map]
    exact d.nodup⟩

theorem get?_mapValues (f : β → γ) (d : Dict α β) (k : α) :
    (d.mapValues f).get? k = (d.get? k).map f :=
  lookup_map_snd f k d.entries

theorem mapValues_set (f : β → γ) (d : Dict α β) (k : α) (v : β) :
    (d.set k v).mapValues f = (d.mapValues f).set k (f v) :=
  ext_entries (map_insertIn f k v d.entries)

omit [DecidableEq α] in
theorem mapValues_mapValues (f : β → β) (hf : ∀ v, f (f v) = f v) (d : Dict α β) :
    (d.mapValues f).mapValues f = d.mapValues f := by
  refine ext_entries ?_
  simp only [mapValues, List.map_map]
  refine List.map_congr_left (fun p _ => ?_)
  simp only [Function.comp_apply, hf]

/-- Rebuilding by writing entries one at a time never disturbs what is already
    there, as long as the keys keep being new. -/
theorem foldl_set_entries (l : List (α × β)) (d : Dict α β)
    (h : ((d.entries ++ l).map Prod.fst).Nodup) :
    (l.foldl (fun d p => d.set p.1 p.2) d).entries = d.entries ++ l := by
  induction l generalizing d with
  | nil => rw [List.foldl_nil, List.append_nil]
  | cons p rest ih =>
      have hp : p.1 ∉ d.entries.map Prod.fst := by
        intro hc
        rw [List.map_append, List.nodup_append] at h
        exact h.2.2 p.1 hc p.1 (by simp only [List.map_cons, List.mem_cons, true_or]) rfl
      have hset : (d.set p.1 p.2).entries = d.entries ++ [p] := insertIn_of_notMem p.1 p.2 _ hp
      rw [List.foldl_cons, ih, hset, List.append_assoc, List.singleton_append]
      rw [hset, List.append_assoc, List.singleton_append]
      exact h

/-- After a list of entries was written a key holds the last of them that is for
    it, or what it held before. -/
theorem get?_foldl_set (l : List (α × β)) (d : Dict α β) (k : α) :
    (l.foldl (fun d p => d.set p.1 p.2) d).get? k = (l.reverse.lookup k).or (d.get? k) := by
  induction l generalizing d with
  | nil => rfl
  | cons p rest ih =>
      rw [List.foldl_cons, ih, List.reverse_cons, List.lookup_append, Option.or_assoc]
      congr 1
      rw [get?_set, List.lookup_cons, List.lookup_nil]
      by_cases hk : k = p.1
      · rw [if_pos hk, beq_iff_eq.mpr hk]
        rfl
      · rw [if_neg hk, beq_eq_false_iff_ne.mpr hk]
        rfl

/-- The last entry for a key, in the list as it was written. -/
theorem lookup_reverse_eq_some_iff (l : List (α × β)) (k : α) (v : β) :
    l.reverse.lookup k = some v ↔
      ∃ us vs, l = us ++ (k, v) :: vs ∧ ∀ p ∈ vs, p.1 ≠ k := by
  rw [List.lookup_eq_some_iff]
  constructor
  · rintro ⟨vs, us, heq, hnone⟩
    refine ⟨us.reverse, vs.reverse, ?_, ?_⟩
    · rw [← List.reverse_reverse l, heq, List.reverse_append, List.reverse_cons,
        List.append_assoc, List.singleton_append]
    · intro p hp
      exact Ne.symm (bne_iff_ne.mp (hnone p (List.mem_reverse.mp hp)))
  · rintro ⟨us, vs, rfl, hnone⟩
    refine ⟨vs.reverse, us.reverse, ?_, ?_⟩
    · rw [List.reverse_append, List.reverse_cons, List.append_assoc, List.singleton_append]
    · intro p hp
      exact bne_iff_ne.mpr (Ne.symm (hnone p (List.mem_reverse.mp hp)))

/-- The entries of a dictionary come from the list that was written. -/
theorem mem_of_mem_ofList {l : List (α × β)} {p : α × β} (h : p ∈ (ofList l).entries) : p ∈ l := by
  have hfold (d : Dict α β) : p ∈ (l.foldl (fun d p => d.set p.1 p.2) d).entries →
      p ∈ d.entries ∨ p ∈ l := by
    clear h
    intro h
    induction l generalizing d with
    | nil => exact Or.inl h
    | cons q rest ih =>
        rcases ih (d.set q.1 q.2) h with hd | hr
        · exact (mem_insertIn hd).elim (fun hq => Or.inr (hq ▸ List.mem_cons_self)) Or.inl
        · exact Or.inr (List.mem_cons_of_mem _ hr)
  exact (hfold empty h).elim (fun hd => absurd hd List.not_mem_nil) id

/-- The entries of a dictionary rebuild it, order included. -/
theorem ofList_entries (d : Dict α β) : ofList d.entries = d :=
  ext_entries (foldl_set_entries d.entries empty d.nodup)

end Dict

end Lib
