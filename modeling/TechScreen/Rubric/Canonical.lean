import Mathlib.Logic.Equiv.Basic
import TechScreen.Lib.Dumps
import TechScreen.Rubric.SheetRows

/-!
# The Canonical Text of a Document

A document is written with its nodes in the order of their ids and the levels of
each node in the order of their ranks, and the keys of every mapping sorted. What is
left of a document if one forgets these orders is its content: what it says outside
its nodes, and the nodes as a multiset, each of them as what it says outside its
levels and the levels as a multiset.

The text depends on the content only, it determines the content, and writing what was
read back from it gives the same text. The first of these needs unique ids and ranks,
since nodes with one id stay in the order in which they come.

## Main definitions

* `emitCanonicalYaml`: The text of a document.
* `Yaml`: What is relied on of the library that writes and reads the text.
* `Distinct`: A valid document with unique ids, and unique ranks in each node.
* `content`: What a document says, whatever the order of its lists.
* `Canonical`: The text of a document is canonical.

## Theorems

* `convertSheet_emits`: The importer writes nothing else.
* `sortKeys_withSortedLevels_iff`: A sorted node is determined by its content.
* `sortKeys_canonical_iff`: A sorted document is determined by its content.
* `content_canonical`: Sorting leaves the content.
* `emitCanonicalYaml_canonical`: The text of every document is canonical.
-/

namespace TechScreen.Rubric

open Lib

section Emitting
variable (text : TextKit)

/-- `_emit_canonical_yaml`. -/
def emitCanonicalYaml (doc : Json) : String := text.safeDump (canonical doc)

/-- What is written for a sheet is the text of a valid document. -/
theorem convertSheet_emits {sheet : Sheet} {bytes : Bytes}
    (h : convertSheet text sheet = .ok bytes) :
    ∃ doc, (Document.ofJson doc).isSome = true ∧
      bytes = encodeUtf8 (emitCanonicalYaml text doc) := by
  rw [convertSheet_eq] at h
  cases hdoc : documentOf text sheet with
  | error e =>
      rw [hdoc] at h
      cases h
  | ok doc =>
      rw [hdoc] at h
      obtain ⟨parsed, -, hvalid, rfl⟩ := documentOf_ok text hdoc
      exact ⟨_, hvalid, (Except.ok.inj h).symm⟩

/-- What is relied on of the library. The text does not depend on the order in which
    the keys of a mapping were set, and what was written is read back, though the keys
    may then be in another order. -/
structure Yaml (safeLoad : String → Except String Json) : Prop where
  sorted : ∀ j j' : Json, j.plain = true → j'.plain = true → j.sortKeys = j'.sortKeys →
    text.safeDump j = text.safeDump j'
  inverse : ∀ j : Json, j.plain = true →
    ∃ j', safeLoad (text.safeDump j) = .ok j' ∧ j'.plain = true ∧ j'.sortKeys = j.sortKeys

/-- A valid document with unique ids, and with unique ranks in each of its nodes. -/
structure Distinct (doc : Json) : Prop where
  plain : doc.plain = true
  valid : (Document.ofJson doc).isSome = true
  ids : ((nodesIn doc).map idKey).Nodup
  ranks : ∀ node ∈ nodesIn doc, ((levelsIn node).map levelKey).Nodup

/-- A list without its items. -/
def emptied : Json → Json
  | .arr _ => .arr []
  | j => j

/-- What a node says: outside its levels, and in them, in any order. -/
def nodeContent (node : Json) : Json × Multiset Json :=
  ((mapField "levels" emptied node).sortKeys,
    ((levelsIn node).map Json.sortKeys : List Json))

/-- What a document says: outside its nodes, and in them, in any order. -/
def content (doc : Json) : Json × Multiset (Json × Multiset Json) :=
  ((doc.set "nodes" (.arr [])).sortKeys,
    ((nodesIn doc).map nodeContent : List (Json × Multiset Json)))

/-- The text of a document is that of any document which says the same in another
    order, and of no other one, and what is read back from it is written as it is. -/
structure Canonical (safeLoad : String → Except String Json) (doc : Json) : Prop where
  permuted : ∀ doc' : Json, doc'.plain = true → content doc' = content doc →
    emitCanonicalYaml text doc' = emitCanonicalYaml text doc
  separates : ∀ doc' : Json, Distinct doc' →
    emitCanonicalYaml text doc' = emitCanonicalYaml text doc → content doc' = content doc
  reemitted : ∃ parsed, safeLoad (emitCanonicalYaml text doc) = .ok parsed ∧
    emitCanonicalYaml text parsed = emitCanonicalYaml text doc

end Emitting

section Fields

theorem plain_mapField {key : String} {f : Json → Json} {j : Json} (h : j.plain = true)
    (hf : ∀ value : Json, value.plain = true → (f value).plain = true) :
    (mapField key f j).plain = true := by
  cases j with
  | obj fields =>
      obtain ⟨hnodup, hvalues⟩ := Json.plain_obj.mp h
      refine Json.plain_obj.mpr ⟨?_, ?_⟩
      · have hkeys : (fields.map (fun p => if p.1 = key then (p.1, f p.2) else p)).map Prod.fst =
            fields.map Prod.fst := by
          rw [List.map_map]
          refine List.map_congr_left (fun p _ => ?_)
          rw [Function.comp_apply]
          split
          · rfl
          · rfl
        rwa [hkeys]
      · intro p hp
        obtain ⟨field, hfield, rfl⟩ := List.mem_map.mp hp
        by_cases hkey : field.1 = key
        · rw [if_pos hkey]
          exact hf field.2 (hvalues field hfield)
        · rw [if_neg hkey]
          exact hvalues field hfield
  | null | bool | int | float | str | arr => exact h

theorem hull_mapField (key : String) (f : Json → Json) (j : Json) :
    (mapField key f j).hull = j.hull := by
  cases j with
  | obj fields => rfl
  | null | bool | int | float | str | arr => rfl

theorem mapField_mapField (key : String) (f g : Json → Json) (j : Json) :
    mapField key f (mapField key g j) = mapField key (f ∘ g) j := by
  cases j with
  | obj fields =>
      rw [mapField, mapField, mapField, List.map_map]
      refine congrArg Json.obj (List.map_congr_left (fun p _ => ?_))
      by_cases hkey : p.1 = key
      · simp only [Function.comp_apply, if_pos hkey]
      · simp only [Function.comp_apply, if_neg hkey]
  | null | bool | int | float | str | arr => rfl

theorem plain_emptied {j : Json} (h : j.plain = true) : (emptied j).plain = true := by
  cases j with
  | arr items => rfl
  | null | bool | int | float | str | obj => exact h

theorem plain_sortItems {α : Type} [LinearOrder α] (key : Json → α) {j : Json}
    (h : j.plain = true) : (sortItems key j).plain = true := by
  cases j with
  | arr items =>
      refine Json.plain_arr.mpr (fun item hitem => ?_)
      exact Json.plain_arr.mp h item ((sortOn_perm key items).mem_iff.mp hitem)
  | null | bool | int | float | str | obj => exact h

theorem plain_mem_itemsOf {j item : Json} {key : String} (h : j.plain = true)
    (hitem : item ∈ itemsOf (j.get? key)) : item.plain = true := by
  cases hget : j.get? key with
  | none =>
      rw [hget] at hitem
      exact absurd hitem List.not_mem_nil
  | some value =>
      rw [hget] at hitem
      have hvalue := Json.plain_of_get? h hget
      cases value with
      | arr items => exact Json.plain_arr.mp hvalue item hitem
      | null | bool | int | float | str | obj => exact absurd hitem List.not_mem_nil

/-- The rank of a level can be read off it in any order of its keys. -/
theorem levelKey_sortKeys {lvl : Json} (h : lvl.plain = true) :
    levelKey lvl = levelKey lvl.sortKeys := by
  unfold levelKey
  rw [Json.get?_sortKeys h]
  cases lvl.get? "level" with
  | none => rfl
  | some value => cases value <;> rfl

theorem idKey_sortKeys {node : Json} (h : node.plain = true) :
    idKey node = idKey node.sortKeys := by
  unfold idKey
  rw [Json.get?_sortKeys h]
  cases node.get? "id" with
  | none => rfl
  | some value => cases value <;> rfl

end Fields

section Nodes

/-- The items that a list has, sorted, against the items in any order. -/
theorem sortItems_same_iff {j j' : Json} (h : j.plain = true) (h' : j'.plain = true)
    (hranks : ((itemsOf (some j)).map levelKey).Nodup) :
    (sortItems levelKey j).sortKeys = (sortItems levelKey j').sortKeys ↔
      (emptied j).sortKeys = (emptied j').sortKeys ∧
        ((itemsOf (some j)).map Json.sortKeys).Perm ((itemsOf (some j')).map Json.sortKeys) := by
  cases j with
  | arr items =>
      cases j' with
      | arr items' =>
          rw [sortItems, sortItems, Json.sortKeys, Json.sortKeys, Json.arr.injEq,
            Json.sortKeysItems_eq, Json.sortKeysItems_eq]
          have hiff := map_sortOn_eq_iff (fun a ha => levelKey_sortKeys (Json.plain_arr.mp h a ha))
            (fun a ha => levelKey_sortKeys (Json.plain_arr.mp h' a ha)) hranks
          rw [hiff]
          exact (and_iff_right rfl).symm
      | null | bool | int | float | str | obj =>
          simp only [sortItems, emptied, Json.sortKeys, reduceCtorEq, false_and]
  | null | bool | int | float | str | obj =>
      cases j' with
      | arr items' => simp only [sortItems, emptied, Json.sortKeys, reduceCtorEq, false_and]
      | null | bool | int | float | str | obj =>
          exact (and_iff_left (List.Perm.refl _)).symm

/-- The same for a list that may be missing. -/
theorem map_sortItems_same_iff {o o' : Option Json} (h : ∀ j ∈ o, j.plain = true)
    (h' : ∀ j ∈ o', j.plain = true) (hranks : ((itemsOf o).map levelKey).Nodup) :
    (o.map (sortItems levelKey)).map Json.sortKeys =
        (o'.map (sortItems levelKey)).map Json.sortKeys ↔
      (o.map emptied).map Json.sortKeys = (o'.map emptied).map Json.sortKeys ∧
        ((itemsOf o).map Json.sortKeys).Perm ((itemsOf o').map Json.sortKeys) := by
  cases o with
  | none =>
      cases o' with
      | none => exact (and_iff_left (List.Perm.refl _)).symm
      | some j' => simp only [Option.map_none, Option.map_some, reduceCtorEq, false_and]
  | some j =>
      cases o' with
      | none => simp only [Option.map_none, Option.map_some, reduceCtorEq, false_and]
      | some j' =>
          simp only [Option.map_some, Option.some.injEq]
          exact sortItems_same_iff (h j rfl) (h' j' rfl) hranks

theorem plain_withSortedLevels {node : Json} (h : node.plain = true) :
    (withSortedLevels node).plain = true :=
  plain_mapField h (fun _ => plain_sortItems levelKey)

theorem plain_outside {node : Json} (h : node.plain = true) :
    (mapField "levels" emptied node).plain = true :=
  plain_mapField h (fun _ => plain_emptied)

/-- A node with sorted levels is determined by what it says. -/
theorem sortKeys_withSortedLevels_iff {node node' : Json} (h : node.plain = true)
    (h' : node'.plain = true) (hranks : ((levelsIn node).map levelKey).Nodup) :
    (withSortedLevels node).sortKeys = (withSortedLevels node').sortKeys ↔
      nodeContent node = nodeContent node' := by
  have hplain (key : String) (value : Json) (hget : value ∈ node'.get? key) :
      value.plain = true := Json.plain_of_get? h' hget
  have hlevels := map_sortItems_same_iff (fun _ hget => Json.plain_of_get? h hget)
    (hplain "levels") hranks
  unfold nodeContent
  rw [Prod.mk.injEq, Multiset.coe_eq_coe, Json.sortKeys_eq_iff (plain_outside h) (plain_outside h'),
    Json.sortKeys_eq_iff (plain_withSortedLevels h) (plain_withSortedLevels h'),
    withSortedLevels, withSortedLevels, hull_mapField, hull_mapField, hull_mapField, hull_mapField]
  -- Only the levels are told apart by the two; under every other key nothing is done.
  constructor
  · rintro ⟨hhull, hkeys⟩
    have hkey := hkeys "levels"
    rw [get?_mapField, get?_mapField, if_pos rfl, if_pos rfl, hlevels] at hkey
    refine ⟨⟨hhull, fun key => ?_⟩, hkey.2⟩
    have hother := hkeys key
    rw [get?_mapField, get?_mapField] at hother ⊢
    by_cases hlevel : key = "levels"
    · subst hlevel
      rw [if_pos rfl, if_pos rfl]
      exact hkey.1
    · rwa [if_neg hlevel, if_neg hlevel] at hother ⊢
  · rintro ⟨⟨hhull, hkeys⟩, hperm⟩
    refine ⟨hhull, fun key => ?_⟩
    have hother := hkeys key
    rw [get?_mapField, get?_mapField] at hother ⊢
    by_cases hlevel : key = "levels"
    · subst hlevel
      rw [if_pos rfl, if_pos rfl] at hother ⊢
      exact hlevels.mpr ⟨hother, hperm⟩
    · rwa [if_neg hlevel, if_neg hlevel] at hother ⊢

theorem sortKeys_emptied (j : Json) : (emptied j).sortKeys = emptied j.sortKeys := by
  cases j <;> rfl

theorem itemsOf_sortKeys (o : Option Json) :
    itemsOf (o.map Json.sortKeys) = (itemsOf o).map Json.sortKeys := by
  cases o with
  | none => rfl
  | some j =>
      cases j with
      | arr items => exact Json.sortKeysItems_eq items
      | null | bool | int | float | str | obj => rfl

/-- The items under a key, read off either of two values that are the same data. -/
theorem map_itemsOf_of_same {j j' : Json} (h : j.plain = true) (h' : j'.plain = true)
    (hsame : j.sortKeys = j'.sortKeys) (key : String) :
    (itemsOf (j.get? key)).map Json.sortKeys = (itemsOf (j'.get? key)).map Json.sortKeys := by
  rw [← itemsOf_sortKeys, ← itemsOf_sortKeys, ((Json.sortKeys_eq_iff h h').mp hsame).2 key]

/-- What a node says does not depend on the order of its keys. -/
theorem nodeContent_of_same {node node' : Json} (h : node.plain = true) (h' : node'.plain = true)
    (hsame : node.sortKeys = node'.sortKeys) : nodeContent node = nodeContent node' := by
  obtain ⟨hhull, hkeys⟩ := (Json.sortKeys_eq_iff h h').mp hsame
  unfold nodeContent
  rw [levelsIn, levelsIn, map_itemsOf_of_same h h' hsame]
  refine congrArg (fun outside => (outside, _)) ?_
  refine (Json.sortKeys_eq_iff (plain_outside h) (plain_outside h')).mpr ⟨?_, fun key => ?_⟩
  · rw [hull_mapField, hull_mapField, hhull]
  · rw [get?_mapField, get?_mapField]
    by_cases hlevel : key = "levels"
    · subst hlevel
      have hmap (o : Option Json) :
          (o.map emptied).map Json.sortKeys = (o.map Json.sortKeys).map emptied := by
        cases o with
        | none => rfl
        | some j => exact congrArg some (sortKeys_emptied j)
      rw [if_pos rfl, if_pos rfl, hmap, hmap, hkeys]
    · rw [if_neg hlevel, if_neg hlevel, hkeys]

/-- Sorting the levels of a node leaves what it says. -/
theorem nodeContent_withSortedLevels (node : Json) :
    nodeContent (withSortedLevels node) = nodeContent node := by
  have houtside : mapField "levels" emptied (withSortedLevels node) =
      mapField "levels" emptied node := by
    rw [withSortedLevels, mapField_mapField]
    refine congrArg (fun f => mapField "levels" f node) (funext fun j => ?_)
    cases j <;> rfl
  unfold nodeContent
  rw [houtside, Prod.mk.injEq, Multiset.coe_eq_coe]
  exact ⟨rfl, (levelsIn_withSortedLevels node).map Json.sortKeys⟩

end Nodes

section Documents

theorem hull_of_valid {doc : Json} (h : (Document.ofJson doc).isSome = true) :
    doc.hull = .obj [] := by
  cases doc with
  | obj fields => rfl
  | null | bool | int | float | str | arr => exact absurd h Bool.false_ne_true

theorem plain_of_mem_nodesIn {doc node : Json} (h : doc.plain = true) (hnode : node ∈ nodesIn doc) :
    node.plain = true :=
  plain_mem_itemsOf h hnode

theorem plain_sortedNodes {doc : Json} (h : doc.plain = true) :
    (Json.arr ((sortOn idKey (nodesIn doc)).map withSortedLevels)).plain = true := by
  refine Json.plain_arr.mpr (fun item hitem => ?_)
  obtain ⟨node, hnode, rfl⟩ := List.mem_map.mp hitem
  exact plain_withSortedLevels (plain_of_mem_nodesIn h ((sortOn_perm idKey _).mem_iff.mp hnode))

theorem plain_canonical {doc : Json} (h : doc.plain = true) : (canonical doc).plain = true :=
  Json.plain_set h (plain_sortedNodes h)

/-- The id of a node can be read off it in any order of its levels and its keys. -/
theorem idKey_sorted {node : Json} (h : node.plain = true) :
    idKey node = idKey (withSortedLevels node).sortKeys := by
  rw [← idKey_sortKeys (plain_withSortedLevels h)]
  unfold idKey
  rw [get?_withSortedLevels (by decide)]

/-- A document in its order is determined by what it says. -/
theorem sortKeys_canonical_iff {doc doc' : Json} (h : doc.plain = true) (h' : doc'.plain = true)
    (hobj : doc.hull = .obj []) (hobj' : doc'.hull = .obj [])
    (hids : ((nodesIn doc).map idKey).Nodup)
    (hranks : ∀ node ∈ nodesIn doc, ((levelsIn node).map levelKey).Nodup) :
    (canonical doc).sortKeys = (canonical doc').sortKeys ↔ content doc = content doc' := by
  have hnodes : (Json.arr ((sortOn idKey (nodesIn doc)).map withSortedLevels)).sortKeys =
        (Json.arr ((sortOn idKey (nodesIn doc')).map withSortedLevels)).sortKeys ↔
      ((nodesIn doc).map nodeContent).Perm ((nodesIn doc').map nodeContent) := by
    have hkey (d : Json) (hd : d.plain = true) (node : Json) (hnode : node ∈ nodesIn d) :
        idKey node = idKey ((Json.sortKeys ∘ withSortedLevels) node) :=
      idKey_sorted (plain_of_mem_nodesIn hd hnode)
    have hsorted := map_sortOn_eq_iff (hkey doc h) (hkey doc' h') hids
    have hread (node : Json) (hnode : node ∈ nodesIn doc) (node' : Json)
        (hnode' : node' ∈ nodesIn doc') := sortKeys_withSortedLevels_iff
      (plain_of_mem_nodesIn h hnode) (plain_of_mem_nodesIn h' hnode') (hranks node hnode)
    rw [Json.sortKeys, Json.sortKeys, Json.arr.injEq, Json.sortKeysItems_eq,
      Json.sortKeysItems_eq, List.map_map, List.map_map, hsorted]
    constructor
    · exact perm_map_of_imp (fun a ha b hb => (hread a ha b hb).mp)
    · exact perm_map_of_imp (fun a ha b hb => (hread a ha b hb).mpr)
  unfold canonical content
  rw [Prod.mk.injEq, Multiset.coe_eq_coe, ← hnodes]
  exact Json.sortKeys_set_iff h h' (plain_sortedNodes h) (plain_sortedNodes h') rfl hobj hobj'

/-- What a document says does not depend on the order of its keys. -/
theorem content_of_same {doc doc' : Json} (h : doc.plain = true) (h' : doc'.plain = true)
    (hobj : doc.hull = .obj []) (hsame : doc.sortKeys = doc'.sortKeys) :
    content doc = content doc' := by
  have hkeys := (Json.sortKeys_eq_iff h h').mp hsame
  obtain ⟨fields, rfl⟩ := Json.exists_fields hobj
  obtain ⟨fields', rfl⟩ := Json.exists_fields (hkeys.1.symm.trans hobj)
  unfold content
  rw [Prod.mk.injEq, Multiset.coe_eq_coe]
  constructor
  · refine (Json.sortKeys_eq_iff (Json.plain_set h rfl) (Json.plain_set h' rfl)).mpr ⟨?_, ?_⟩
    · rw [Json.hull_set, Json.hull_set, hkeys.1]
    · intro key
      rw [Json.get?_set, Json.get?_set]
      by_cases hnodes : key = "nodes"
      · rw [if_pos hnodes, if_pos hnodes]
      · rw [if_neg hnodes, if_neg hnodes, hkeys.2 key]
  · refine perm_map_of_imp (f := Json.sortKeys) (fun a ha b hb => ?_) ?_
    · exact nodeContent_of_same (plain_of_mem_nodesIn h ha) (plain_of_mem_nodesIn h' hb)
    · rw [nodesIn, nodesIn, map_itemsOf_of_same h h' hsame]

/-- Sorting leaves what a document says. -/
theorem content_canonical (doc : Json) : content (canonical doc) = content doc := by
  have hperm := (nodesIn_canonical doc).map nodeContent
  rw [List.map_map, show nodeContent ∘ withSortedLevels = nodeContent from
    funext nodeContent_withSortedLevels] at hperm
  unfold content
  rw [Prod.mk.injEq, Multiset.coe_eq_coe]
  refine ⟨?_, hperm⟩
  rw [canonical, Json.set_set]

end Documents

section Texts
variable {text : TextKit} {safeLoad : String → Except String Json}

/-- The text of every document is canonical. -/
theorem emitCanonicalYaml_canonical (hyaml : Yaml text safeLoad) {doc : Json}
    (hdoc : Distinct doc) : Canonical text safeLoad doc := by
  have hobj := hull_of_valid hdoc.valid
  have hplain := plain_canonical hdoc.plain
  -- Documents that say the same are written alike.
  have hsame (doc' : Json) (hplain' : doc'.plain = true) (hcontent : content doc' = content doc) :
      emitCanonicalYaml text doc' = emitCanonicalYaml text doc := by
    have hobj' : doc'.hull = .obj [] := by
      have hhull := congrArg Json.opened (congrArg Prod.fst hcontent)
      exact ((Json.hull_set doc' _ _).symm.trans (hhull.trans (Json.hull_set doc _ _))).trans hobj
    refine hyaml.sorted _ _ (plain_canonical hplain') hplain ?_
    exact ((sortKeys_canonical_iff hdoc.plain hplain' hobj hobj' hdoc.ids hdoc.ranks).mpr
      hcontent.symm).symm
  refine ⟨hsame, ?_, ?_⟩
  · intro doc' hdoc' htext
    obtain ⟨parsed, hload, -, hparsed⟩ := hyaml.inverse _ hplain
    obtain ⟨parsed', hload', -, hparsed'⟩ := hyaml.inverse _ (plain_canonical hdoc'.plain)
    rw [emitCanonicalYaml, emitCanonicalYaml] at htext
    rw [htext, hload, Except.ok.injEq] at hload'
    subst hload'
    exact ((sortKeys_canonical_iff hdoc.plain hdoc'.plain hobj (hull_of_valid hdoc'.valid)
      hdoc.ids hdoc.ranks).mp (hparsed.symm.trans hparsed')).symm
  · obtain ⟨parsed, hload, hplain', hparsed⟩ := hyaml.inverse _ hplain
    refine ⟨parsed, hload, hsame parsed hplain' ?_⟩
    have hhull : parsed.hull = .obj [] := by
      rw [Json.hull, hparsed]
      exact (Json.hull_set doc _ _).trans hobj
    exact (content_of_same hplain' hplain hhull hparsed).trans (content_canonical doc)

end Texts

section SmallText

open JsonText

def numberTree (n : Int) : Tree := .number ⟨numeral n, Dumps.isNumber_numeral n⟩

def numberIn : Tree → Int
  | .number literal => (readNumeral literal.val).getD 0
  | _ => 0

mutual

/-- A value as a tree, in which a fraction is told from a list by its first item. -/
def treeOf : Json → Tree
  | .null => .null
  | .bool b => .bool b
  | .int n => numberTree n
  | .float q => .arr [.bool true, numberTree q.num, numberTree q.den]
  | .str s => .str s.toList
  | .arr items => .arr (.null :: treesOf items)
  | .obj fields => .obj (membersOf fields)

def treesOf : List Json → List Tree
  | [] => []
  | item :: items => treeOf item :: treesOf items

def membersOf : List (String × Json) → List (List Char × Tree)
  | [] => []
  | (key, value) :: fields => (key.toList, treeOf value) :: membersOf fields

end

mutual

def valueOf : Tree → Json
  | .null => .null
  | .bool b => .bool b
  | .number literal => .int (numberIn (.number literal))
  | .nonfinite _ => .null
  | .str s => .str (String.ofList s)
  | .arr [.bool _, num, den] => .float (mkRat (numberIn num) (numberIn den).toNat)
  | .arr [] => .null
  | .arr (_ :: items) => .arr (valuesOf items)
  | .obj members => .obj (fieldsOf members)

def valuesOf : List Tree → List Json
  | [] => []
  | item :: items => valueOf item :: valuesOf items

def fieldsOf : List (List Char × Tree) → List (String × Json)
  | [] => []
  | (key, value) :: members => (String.ofList key, valueOf value) :: fieldsOf members

end

theorem numberIn_numberTree (n : Int) : numberIn (numberTree n) = n := by
  have hread := readNumeral_numeral n
  exact congrArg (fun o => Option.getD o 0) hread

mutual

theorem valueOf_treeOf : ∀ j : Json, valueOf (treeOf j) = j
  | .null => rfl
  | .bool _ => rfl
  | .int n => congrArg Json.int (numberIn_numberTree n)
  | .float q => by
      rw [treeOf, valueOf, numberIn_numberTree, numberIn_numberTree, Int.toNat_natCast,
        Rat.mkRat_self]
  | .str s => congrArg Json.str (String.ofList_toList)
  | .arr items => by
      rw [treeOf, valueOf, valuesOf_treesOf]
      intro _ _ _ hnull
      cases hnull
  | .obj fields => by rw [treeOf, valueOf, fieldsOf_membersOf]

theorem valuesOf_treesOf : ∀ items : List Json, valuesOf (treesOf items) = items
  | [] => rfl
  | item :: items => by rw [treesOf, valuesOf, valueOf_treeOf, valuesOf_treesOf]

theorem fieldsOf_membersOf : ∀ fields : List (String × Json), fieldsOf (membersOf fields) = fields
  | [] => rfl
  | (key, value) :: fields => by
      rw [membersOf, fieldsOf, valueOf_treeOf, fieldsOf_membersOf, String.ofList_toList]

end

/-- A text of a value, with the keys of its objects sorted. -/
def flowText (j : Json) : String := String.ofList (treeOf j.sortKeys).render

def levelJson (level : Int) (label descriptor : String) : Json :=
  .obj [("level", .int level), ("label_uk", .str label), ("descriptor_en", .str descriptor)]

/-- Two nodes in the order of their labels, the second with its levels turned round. -/
def shuffledDoc : Json :=
  .obj [("version", .int 1), ("nodes", .arr [
    .obj [("id", .str "go.io"), ("label_en", .str "IO"), ("label_uk", .str "IO"),
      ("levels", .arr [levelJson 2 "Middle" "Writes", levelJson 1 "Junior" "Reads"])],
    .obj [("id", .str "block.go"), ("label_en", .str "Z"), ("label_uk", .str "Z")]])]

/-- What the importer writes for it. -/
def shuffledText : String :=
  "nodes:\n- id: block.go\n  label_en: Z\n  label_uk: Z\n- id: go.io\n  label_en: IO\n" ++
    "  label_uk: IO\n  levels:\n  - descriptor_en: Reads\n    label_uk: Junior\n" ++
    "    level: 1\n  - descriptor_en: Writes\n    label_uk: Middle\n    level: 2\nversion: 1\n"

/-- The text that belongs to the document, and some text for every other one. -/
def exchange : Equiv.Perm String := Equiv.swap (flowText (canonical shuffledDoc)) shuffledText

def exchangeKit : TextKit := { asciiKit with safeDump := fun j => exchange (flowText j) }

def exchangeLoad (s : String) : Except String Json :=
  match scan false (exchange s).toList with
  | some tree => .ok (valueOf tree)
  | none => .error "unreadable"

theorem exchange_yaml : Yaml exchangeKit exchangeLoad where
  sorted j j' _ _ hsame := by
    have htext : flowText j = flowText j' := by rw [flowText, flowText, hsame]
    exact congrArg exchange htext
  inverse j hplain := by
    have hback : exchange (exchange (flowText j)) = flowText j := Equiv.swap_apply_self _ _ _
    have hscan : scan false (treeOf j.sortKeys).render = some (treeOf j.sortKeys) :=
      scan_render false _
    have hload : exchangeLoad (exchange (flowText j)) = .ok j.sortKeys := by
      unfold exchangeLoad
      rw [hback]
      unfold flowText
      rw [String.toList_ofList]
      simp only [hscan, valueOf_treeOf]
    exact ⟨j.sortKeys, hload, Json.plain_sortKeys j hplain, Json.sortKeys_sortKeys j⟩

theorem shuffledDoc_distinct : Distinct shuffledDoc where
  plain := by decide +kernel
  valid := by decide +kernel
  ids := by decide +kernel
  ranks := by decide +kernel

/-- The two nodes are written in the order of their ids, and so they are read back. -/
theorem shuffledDoc_canonical :
    emitCanonicalYaml exchangeKit shuffledDoc = shuffledText ∧
      Canonical exchangeKit exchangeLoad shuffledDoc :=
  ⟨Equiv.swap_apply_left _ _, emitCanonicalYaml_canonical exchange_yaml shuffledDoc_distinct⟩

end SmallText

end TechScreen.Rubric
