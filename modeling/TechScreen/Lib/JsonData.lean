import Mathlib.Data.String.Basic
import TechScreen.Lib.Json
import TechScreen.Lib.SortOn

/-!
# JSON Values as Data

A value of a scripting language is a list of fields in the order in which they were
set, but it is compared with others without regard to that order. Two values are the
same data if they agree once the fields of every object in them are in the order of
their keys.

No object of such a language has a key twice. The fields are then determined by what
is found under each key, which is how two objects are compared here.

## Main definitions

* `Json.sortKeys`: The value with the fields of every object sorted.
* `Json.plain`: No object in the value has a key twice.
* `Json.hull`: What a value is apart from its own fields.
* `Json.set`: Setting a field of an object.

## Theorems

* `Json.get?_sortKeys`: Looking a key up.
* `Json.sortKeys_eq_iff`: The same data is the same under every key.
* `Json.sortKeys_sortKeys`: Sorting twice.
* `Json.sortKeys_set_iff`: What setting a field shows.
-/

namespace Lib

theorem lookup_of_perm {α β : Type} [DecidableEq α] {l l' : List (α × β)} (h : l.Perm l')
    (hnodup : (l.map Prod.fst).Nodup) (k : α) : l.lookup k = l'.lookup k := by
  have hnodup' : (l'.map Prod.fst).Nodup := (h.map Prod.fst).nodup_iff.mp hnodup
  ext v
  rw [Dict.lookup_eq_some_iff_of_nodup hnodup, Dict.lookup_eq_some_iff_of_nodup hnodup',
    h.mem_iff]

namespace Json

section Sorting

mutual

/-- The value with the fields of every object in the order of their keys. -/
def sortKeys : Json → Json
  | .arr items => .arr (sortKeysItems items)
  | .obj fields => .obj (sortOn Prod.fst (sortKeysFields fields))
  | .null => .null
  | .bool b => .bool b
  | .int n => .int n
  | .float q => .float q
  | .str s => .str s

def sortKeysItems : List Json → List Json
  | [] => []
  | item :: items => item.sortKeys :: sortKeysItems items

def sortKeysFields : List (String × Json) → List (String × Json)
  | [] => []
  | (key, value) :: fields => (key, value.sortKeys) :: sortKeysFields fields

end

theorem sortKeysItems_eq (items : List Json) : sortKeysItems items = items.map sortKeys := by
  induction items with
  | nil => rw [sortKeysItems, List.map_nil]
  | cons item items ih => rw [sortKeysItems, ih, List.map_cons]

theorem sortKeysFields_eq (fields : List (String × Json)) :
    sortKeysFields fields = fields.map (fun p => (p.1, p.2.sortKeys)) := by
  induction fields with
  | nil => rw [sortKeysFields, List.map_nil]
  | cons field fields ih => rw [sortKeysFields, ih, List.map_cons]

theorem keys_sortKeysFields (fields : List (String × Json)) :
    (sortKeysFields fields).map Prod.fst = fields.map Prod.fst := by
  rw [sortKeysFields_eq, List.map_map]
  rfl

/-- The fields of an object, sorted, and then the values in them, or the other way. -/
theorem sortKeysFields_sortOn (fields : List (String × Json)) :
    sortKeysFields (sortOn Prod.fst fields) = sortOn Prod.fst (sortKeysFields fields) := by
  rw [sortKeysFields_eq, sortKeysFields_eq]
  exact map_sortOn (fun _ _ => rfl)

mutual

theorem sortKeys_sortKeys : ∀ j : Json, j.sortKeys.sortKeys = j.sortKeys
  | .arr items => by rw [sortKeys, sortKeys, sortKeysItems_sortKeysItems]
  | .obj fields => by
      rw [sortKeys, sortKeys, sortKeysFields_sortOn, sortKeysFields_sortKeysFields, sortOn_sortOn]
  | .null => rfl
  | .bool _ => rfl
  | .int _ => rfl
  | .float _ => rfl
  | .str _ => rfl

theorem sortKeysItems_sortKeysItems : ∀ items : List Json,
    sortKeysItems (sortKeysItems items) = sortKeysItems items
  | [] => rfl
  | item :: items => by
      rw [sortKeysItems, sortKeysItems, sortKeys_sortKeys, sortKeysItems_sortKeysItems]

theorem sortKeysFields_sortKeysFields : ∀ fields : List (String × Json),
    sortKeysFields (sortKeysFields fields) = sortKeysFields fields
  | [] => rfl
  | (key, value) :: fields => by
      rw [sortKeysFields, sortKeysFields, sortKeys_sortKeys, sortKeysFields_sortKeysFields]

end

end Sorting

section Plain

mutual

/-- No object in the value has a key twice. -/
def plain : Json → Bool
  | .arr items => plainItems items
  | .obj fields => decide (fields.map Prod.fst).Nodup && plainFields fields
  | .null => true
  | .bool _ => true
  | .int _ => true
  | .float _ => true
  | .str _ => true

def plainItems : List Json → Bool
  | [] => true
  | item :: items => item.plain && plainItems items

def plainFields : List (String × Json) → Bool
  | [] => true
  | (_, value) :: fields => value.plain && plainFields fields

end

theorem plainItems_iff (items : List Json) :
    plainItems items = true ↔ ∀ item ∈ items, item.plain = true := by
  induction items with
  | nil => simp only [plainItems, List.not_mem_nil, false_implies, implies_true]
  | cons item items ih => rw [plainItems, Bool.and_eq_true, ih, List.forall_mem_cons]

theorem plainFields_iff (fields : List (String × Json)) :
    plainFields fields = true ↔ ∀ p ∈ fields, p.2.plain = true := by
  induction fields with
  | nil => simp only [plainFields, List.not_mem_nil, false_implies, implies_true]
  | cons field fields ih => rw [plainFields, Bool.and_eq_true, ih, List.forall_mem_cons]

theorem plain_arr {items : List Json} :
    (arr items).plain = true ↔ ∀ item ∈ items, item.plain = true := by
  rw [plain, plainItems_iff]

theorem plain_obj {fields : List (String × Json)} : (obj fields).plain = true ↔
    (fields.map Prod.fst).Nodup ∧ ∀ p ∈ fields, p.2.plain = true := by
  rw [plain, Bool.and_eq_true, decide_eq_true_eq, plainFields_iff]

/-- What is found in a plain value is plain. -/
theorem plain_of_get? {j value : Json} {key : String} (h : j.plain = true)
    (hget : j.get? key = some value) : value.plain = true := by
  cases j with
  | obj fields =>
      obtain ⟨hnodup, hvalues⟩ := plain_obj.mp h
      exact hvalues (key, value) ((Dict.lookup_eq_some_iff_of_nodup hnodup key value).mp hget)
  | null | bool | int | float | str | arr => cases hget

mutual

/-- Sorting puts no key twice. -/
theorem plain_sortKeys : ∀ j : Json, j.plain = true → j.sortKeys.plain = true
  | .arr items, h => by
      rw [plain] at h
      rw [sortKeys, plain]
      exact plainItems_sortKeysItems items h
  | .obj fields, h => by
      rw [plain, Bool.and_eq_true, decide_eq_true_eq] at h
      have hvalues := plainFields_sortKeysFields fields h.2
      have hperm := sortOn_perm Prod.fst (sortKeysFields fields)
      rw [sortKeys, plain_obj]
      constructor
      · rw [(hperm.map Prod.fst).nodup_iff, keys_sortKeysFields]
        exact h.1
      · intro p hp
        exact (plainFields_iff _).mp hvalues p (hperm.mem_iff.mp hp)
  | .null, _ => rfl
  | .bool _, _ => rfl
  | .int _, _ => rfl
  | .float _, _ => rfl
  | .str _, _ => rfl

theorem plainItems_sortKeysItems : ∀ items : List Json, plainItems items = true →
    plainItems (sortKeysItems items) = true
  | [], _ => rfl
  | item :: items, h => by
      rw [plainItems, Bool.and_eq_true] at h
      rw [sortKeysItems, plainItems, Bool.and_eq_true]
      exact ⟨plain_sortKeys item h.1, plainItems_sortKeysItems items h.2⟩

theorem plainFields_sortKeysFields : ∀ fields : List (String × Json), plainFields fields = true →
    plainFields (sortKeysFields fields) = true
  | [], _ => rfl
  | (key, value) :: fields, h => by
      rw [plainFields, Bool.and_eq_true] at h
      rw [sortKeysFields, plainFields, Bool.and_eq_true]
      exact ⟨plain_sortKeys value h.1, plainFields_sortKeysFields fields h.2⟩

end

end Plain

section Looking

/-- A value that has been sorted, without its own fields. -/
def opened : Json → Json
  | .obj _ => .obj []
  | j => j

/-- What a value is apart from its own fields. -/
def hull (j : Json) : Json := j.sortKeys.opened

theorem get?_sortKeys {j : Json} (h : j.plain = true) (key : String) :
    j.sortKeys.get? key = (j.get? key).map sortKeys := by
  cases j with
  | obj fields =>
      have hnodup : ((sortKeysFields fields).map Prod.fst).Nodup := by
        rw [keys_sortKeysFields]
        exact (plain_obj.mp h).1
      have hperm := (sortOn_perm Prod.fst (sortKeysFields fields)).symm
      have hlookup := (lookup_of_perm hperm hnodup key).symm
      rw [sortKeysFields_eq fields, lookup_map_snd] at hlookup
      rw [sortKeys, sortKeysFields_eq]
      exact hlookup
  | null | bool | int | float | str | arr => rfl

/-- Objects that hold the same data under every key have the same fields. -/
theorem sortOn_fields_eq {fields fields' : List (String × Json)}
    (h : (fields.map Prod.fst).Nodup) (h' : (fields'.map Prod.fst).Nodup)
    (hsame : ∀ key, (fields.lookup key).map sortKeys = (fields'.lookup key).map sortKeys) :
    sortOn Prod.fst (sortKeysFields fields) = sortOn Prod.fst (sortKeysFields fields') := by
  rw [← keys_sortKeysFields] at h h'
  refine sortOn_eq_of_perm ?_ h
  refine (List.perm_ext_iff_of_nodup (List.Nodup.of_map _ h) (List.Nodup.of_map _ h')).mpr ?_
  rintro ⟨key, value⟩
  rw [← Dict.lookup_eq_some_iff_of_nodup h, ← Dict.lookup_eq_some_iff_of_nodup h',
    sortKeysFields_eq, sortKeysFields_eq, lookup_map_snd, lookup_map_snd, hsame]

/-- The same data is the same under every key. -/
theorem sortKeys_eq_iff {j j' : Json} (h : j.plain = true) (h' : j'.plain = true) :
    j.sortKeys = j'.sortKeys ↔
      j.hull = j'.hull ∧ ∀ key, (j.get? key).map sortKeys = (j'.get? key).map sortKeys := by
  constructor
  · intro hsame
    refine ⟨congrArg opened hsame, fun key => ?_⟩
    rw [← get?_sortKeys h, ← get?_sortKeys h', hsame]
  · rintro ⟨hhull, hkeys⟩
    cases j with
    | obj fields =>
        cases j' with
        | obj fields' =>
            rw [sortKeys, sortKeys, sortOn_fields_eq (plain_obj.mp h).1 (plain_obj.mp h').1 hkeys]
        | null | bool | int | float | str | arr => cases hhull
    | null | bool | int | float | str | arr =>
        cases j' with
        | obj fields' => cases hhull
        | null | bool | int | float | str | arr => exact hhull

end Looking

section Setting

/-- `j[key] = value`. -/
def set (j : Json) (key : String) (value : Json) : Json :=
  match j with
  | .obj fields => .obj (insertIn key value fields)
  | j => j

theorem get?_set (key name : String) (value : Json) (fields : List (String × Json)) :
    ((obj fields).set key value).get? name =
      if name = key then some value else (obj fields).get? name := by
  by_cases hname : name = key
  · subst hname
    rw [if_pos rfl]
    exact lookup_insertIn_self name value fields
  · rw [if_neg hname]
    exact lookup_insertIn_of_ne key name value fields hname

theorem exists_fields {j : Json} (h : j.hull = .obj []) : ∃ fields, j = .obj fields := by
  cases j with
  | obj fields => exact ⟨fields, rfl⟩
  | null | bool | int | float | str | arr => cases h

theorem hull_set (j : Json) (key : String) (value : Json) : (j.set key value).hull = j.hull := by
  cases j with
  | obj fields => rfl
  | null | bool | int | float | str | arr => rfl

theorem plain_set {key : String} {value j : Json} (h : j.plain = true)
    (hvalue : value.plain = true) : (j.set key value).plain = true := by
  cases j with
  | obj fields =>
      obtain ⟨hnodup, hvalues⟩ := plain_obj.mp h
      refine plain_obj.mpr ⟨nodup_insertIn key value fields hnodup, fun p hp => ?_⟩
      rcases mem_insertIn hp with hnew | hold
      · rw [hnew]
        exact hvalue
      · exact hvalues p hold
  | null | bool | int | float | str | arr => exact h

/-- What was set is seen, and so is what was there under the other keys. -/
theorem sortKeys_set_iff {j j' value value' blank : Json} {key : String} (h : j.plain = true)
    (h' : j'.plain = true) (hvalue : value.plain = true) (hvalue' : value'.plain = true)
    (hblank : blank.plain = true) (hobj : j.hull = .obj []) (hobj' : j'.hull = .obj []) :
    (j.set key value).sortKeys = (j'.set key value').sortKeys ↔
      (j.set key blank).sortKeys = (j'.set key blank).sortKeys ∧
        value.sortKeys = value'.sortKeys := by
  obtain ⟨fields, rfl⟩ := exists_fields hobj
  obtain ⟨fields', rfl⟩ := exists_fields hobj'
  rw [sortKeys_eq_iff (plain_set h hvalue) (plain_set h' hvalue'),
    sortKeys_eq_iff (plain_set h hblank) (plain_set h' hblank), hull_set, hull_set, hull_set,
    hull_set]
  simp only [get?_set]
  constructor
  · rintro ⟨hhull, hkeys⟩
    have hkey := hkeys key
    rw [if_pos rfl, if_pos rfl, Option.map_some, Option.map_some, Option.some.injEq] at hkey
    refine ⟨⟨hhull, fun name => ?_⟩, hkey⟩
    have hname := hkeys name
    by_cases hsame : name = key
    · rw [if_pos hsame, if_pos hsame]
    · rwa [if_neg hsame, if_neg hsame] at hname ⊢
  · rintro ⟨⟨hhull, hkeys⟩, hkey⟩
    refine ⟨hhull, fun name => ?_⟩
    have hname := hkeys name
    by_cases hsame : name = key
    · rw [if_pos hsame, if_pos hsame, Option.map_some, Option.map_some, hkey]
    · rwa [if_neg hsame, if_neg hsame] at hname ⊢

/-- Of two values set under one key the last one stays. -/
theorem set_set (j : Json) (key : String) (value value' : Json) :
    (j.set key value).set key value' = j.set key value' := by
  cases j with
  | obj fields =>
      have hinsert : insertIn key value' (insertIn key value fields) =
          insertIn key value' fields := by
        induction fields with
        | nil => rw [insertIn, insertIn, insertIn, if_pos rfl]
        | cons field fields ih =>
            obtain ⟨name, old⟩ := field
            by_cases hname : name = key
            · rw [insertIn, if_pos hname, insertIn, if_pos rfl, insertIn, if_pos hname]
            · rw [insertIn, if_neg hname, insertIn, if_neg hname, ih, insertIn, if_neg hname]
      exact congrArg obj hinsert
  | null | bool | int | float | str | arr => rfl

end Setting

end Json

end Lib
