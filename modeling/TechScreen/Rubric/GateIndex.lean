import TechScreen.Rubric.Documents
import TechScreen.Rubric.Gate

/-!
# The Index of a Valid Payload

The gate reads documents before any schema has seen them. Of documents that satisfy
the schema it reads just what they say: each node under its id, retired by itself or
with its file, and its levels by rank. All nodes are put into one index, in the
order of the files, so of two nodes with one id the last counts; and so does the
last of two levels with one rank.

## Main definitions

* `gateNode`: What the gate reads of a node.
* `payloadEntries`: All nodes of a payload, in the order they are read.

## Theorems

* `indexDoc_of_valid`: What the gate reads of a document.
* `indexNodes_of_valid`, `get?_index`: The index of a valid payload.
-/

namespace TechScreen.Rubric

open Lib

section Reading

/-- A whole file is retired. -/
def fileRetired (j : Json) : Bool := isRetired (j.get? "retired")

/-- A level by its rank. -/
def levelEntry (level : Level) : Int × String := (level.level, level.descriptorEn)

/-- What the gate reads of a node. -/
def gateNode (stackRetired : Bool) (n : Node) : Gate.Node :=
  ⟨stackRetired || n.retired, Dict.ofList (n.levels.map levelEntry)⟩

/-- The nodes of a document that satisfies the schema. -/
def docEntries (j : Json) : List (String × Gate.Node) :=
  match Document.ofJson j with
  | some doc => doc.nodes.map (fun n => (n.id, gateNode (fileRetired j) n))
  | none => []

/-- All nodes of a payload, in the order they are read. -/
def payloadEntries (p : Gate.Payload) : List (String × Gate.Node) :=
  p.entries.flatMap (fun e => docEntries e.2)

end Reading

section Indexing
variable (conv : Gate.Conversions)

/-- Only an object has keys that can be closed. -/
theorem obj_of_closed {keys : List String} {j : Json} (h : j.closed keys = true) :
    ∃ fields, j = .obj fields := by
  cases j with
  | obj fields => exact ⟨fields, rfl⟩
  | _ => cases h

/-- What the schema takes for an integer the gate converts to it. -/
theorem toInt_of_integer {v : Json} {n : Int} (h : asInteger v = some n) :
    Gate.toInt conv v = .ok n := by
  cases v with
  | int k =>
      cases h
      rfl
  | float q =>
      have hwhole : (if q.den = 1 then some q.num else none) = some n := h
      split at hwhole
      · next hden =>
          cases hwhole
          rw [Gate.toInt, hden]
          exact congrArg Except.ok (Int.tdiv_one q.num)
      · cases hwhole
  | _ => cases h

theorem indexLevel_of_valid {j : Json} {level : Level} (h : Level.ofJson j = some level) :
    Gate.indexLevel conv j = .ok (levelEntry level) := by
  unfold Level.ofJson at h
  split at h
  · next hclosed =>
      obtain ⟨fields, rfl⟩ := obj_of_closed (Bool.and_eq_true_iff.mp
        (Bool.and_eq_true_iff.mp hclosed).1).1
      split at h
      · next rank desc hrank hdesc =>
          split at h
          · next hbounds =>
              cases h
              obtain ⟨v, hv, hint⟩ := Option.bind_eq_some_iff.mp hrank
              have hlevel : fields.lookup "level" = some v := hv
              have hdesc' : fields.lookup "descriptor_en" = some (.str desc) := hdesc
              have hrank' : ((rank.toNat : Nat) : Int) = rank := by omega
              unfold Gate.indexLevel Gate.subscript Gate.getOr
              simp only [hlevel, hdesc', toInt_of_integer conv hint, bind, Except.bind, pure,
                Except.pure, Option.getD_some, Gate.toStr, levelEntry, hrank']
          · cases h
      · cases h
  · cases h

/-- `iterate` goes through the elements of a list, also of an empty one. -/
theorem iterate_arr (items : List Json) : Gate.iterate (.arr items) = .ok items := by
  cases items with
  | nil => rfl
  | cons j items => rfl

/-- The gate reads each element of a list that satisfies a schema. -/
theorem mapM_ok_of_mapM_some {α β γ err : Type} {f : α → Option β} {g : α → Except err γ}
    {view : β → γ} (hstep : ∀ a b, f a = some b → g a = .ok (view b)) {as : List α} {bs : List β}
    (h : as.mapM f = some bs) : as.mapM g = .ok (bs.map view) := by
  induction as generalizing bs with
  | nil =>
      cases h
      rfl
  | cons a as ih =>
      rw [List.mapM_cons] at h
      obtain ⟨b, hb, hrest⟩ := Option.bind_eq_some_iff.mp h
      obtain ⟨rest, htail, hcons⟩ := Option.bind_eq_some_iff.mp hrest
      cases hcons
      simp only [List.mapM_cons, hstep a b hb, ih htail, bind, Except.bind, pure, Except.pure,
        List.map_cons]

/-- The gate and the importer read the same flag, if it is one. -/
theorem truthy_retired {v : Option Json} (h : optionally isBoolean v = true) :
    Gate.truthy (v.getD (.bool false)) = isRetired v := by
  cases v with
  | none => rfl
  | some j =>
      cases j with
      | bool b => rfl
      | _ => cases h

/-- The levels of a node that satisfies the schema are indexed. -/
theorem indexLevels_of_valid {v : Option Json} {levels : List Level}
    (h : levelsOfJson v = some levels) :
    ∃ items, Gate.iterate (v.getD .null) = .ok items ∧
      items.mapM (Gate.indexLevel conv) = .ok (levels.map levelEntry) := by
  cases v with
  | none =>
      cases h
      exact ⟨[], rfl, rfl⟩
  | some j =>
      cases j with
      | arr items =>
          exact ⟨items, iterate_arr items,
            mapM_ok_of_mapM_some (fun a b hab => indexLevel_of_valid conv hab) h⟩
      | _ => cases h

/-- A node that satisfies the schema is indexed under its id. -/
theorem indexNode_of_valid {j : Json} {n : Node} (stackRetired : Bool)
    (h : Node.ofJson j = some n) :
    Gate.indexNode conv stackRetired j = .ok (n.id, gateNode stackRetired n) := by
  unfold Node.ofJson at h
  split at h
  · next hguard =>
      simp only [Bool.and_eq_true] at hguard
      obtain ⟨⟨⟨⟨hclosed, -⟩, hbool⟩, -⟩, -⟩ := hguard
      obtain ⟨fields, rfl⟩ := obj_of_closed hclosed
      split at h
      · next id parent levels hid _ hlevels =>
          split at h
          · cases h
            obtain ⟨items, hitems, hentries⟩ := indexLevels_of_valid conv hlevels
            have hid' : fields.lookup "id" = some (.str id) := hid
            have hitems' : Gate.iterate ((fields.lookup "levels").getD .null) = .ok items := hitems
            have hretired : Gate.truthy ((fields.lookup "retired").getD (.bool false))
                = isRetired (Json.get? (.obj fields) "retired") := truthy_retired hbool
            unfold Gate.indexNode Gate.subscript Gate.getOr
            simp only [hid', hitems', hentries, hretired, bind, Except.bind, pure, Except.pure,
              Gate.toStr, gateNode]
          · cases h
      · cases h
  · cases h

/-- A document that satisfies the schema is indexed. -/
theorem indexDoc_of_valid {j : Json} (h : (Document.ofJson j).isSome = true) :
    Gate.indexDoc conv j = .ok (docEntries j) := by
  obtain ⟨doc, hdoc⟩ := Option.isSome_iff_exists.mp h
  have hentries : docEntries j = doc.nodes.map (fun n => (n.id, gateNode (fileRetired j) n)) := by
    unfold docEntries
    rw [hdoc]
  unfold Document.ofJson at hdoc
  split at hdoc
  · next hguard =>
      simp only [Bool.and_eq_true] at hguard
      obtain ⟨⟨hclosed, -⟩, hbool⟩ := hguard
      obtain ⟨fields, rfl⟩ := obj_of_closed hclosed
      split at hdoc
      · next items hitems =>
          obtain ⟨nodes, hnodes, rfl⟩ := Option.map_eq_some_iff.mp hdoc
          have hmap := mapM_ok_of_mapM_some
            (fun a b hab => indexNode_of_valid conv (fileRetired (.obj fields)) hab) hnodes
          have hitems' : fields.lookup "nodes" = some (.arr items) := hitems
          have hretired : Gate.truthy ((fields.lookup "retired").getD (.bool false))
              = fileRetired (.obj fields) := truthy_retired hbool
          rw [hentries]
          unfold Gate.indexDoc Gate.getOr
          simp only [hitems', hretired, Option.getD_some, iterate_arr, hmap, bind, Except.bind]
      · cases hdoc
  · cases hdoc

/-- All nodes of a valid payload are put into one index. -/
theorem indexNodes_of_valid {p : Gate.Payload}
    (h : ∀ e ∈ p.entries, (Document.ofJson e.2).isSome = true) :
    Gate.indexNodes conv p = .ok (Dict.ofList (payloadEntries p)) := by
  have hdocs : ∀ es : List (String × Json), (∀ e ∈ es, (Document.ofJson e.2).isSome = true) →
      es.mapM (fun e => Gate.indexDoc conv e.2) = .ok (es.map (fun e => docEntries e.2)) := by
    intro es
    induction es with
    | nil => exact fun _ => rfl
    | cons e es ih =>
        intro hes
        have htail := ih (fun e' he' => hes e' (List.mem_cons_of_mem _ he'))
        simp only [List.mapM_cons, indexDoc_of_valid conv (hes e List.mem_cons_self), htail, bind,
          Except.bind, pure, Except.pure, List.map_cons]
  unfold Gate.indexNodes
  rw [hdocs p.entries h]
  rfl

/-- Of two nodes with one id the last counts. -/
theorem get?_index (p : Gate.Payload) (id : String) :
    (Dict.ofList (payloadEntries p)).get? id = (payloadEntries p).reverse.lookup id :=
  (Dict.get?_foldl_set (payloadEntries p) Dict.empty id).trans Option.or_none

end Indexing

end TechScreen.Rubric
