import Mathlib.Data.Multiset.MapFold
import TechScreen.Rubric.Tables

/-!
# Snapshots of the Rubric

`snapshot_rubric` copies the whole tree of one version out of the tables: five
flat queries, regrouped by the identifiers of the parents through four
dictionaries. What a snapshot says about the rubric is its tree, with the
identifiers forgotten and siblings in no order; the rows of a version have a tree
of their own, read off the parent references directly, and the two are the same.

The active version is looked up by a query without an order, so when several
versions are active any of them may be found.

## Main definitions

* `RubricSnapshot`: The snapshot and its parts.
* `snapshotRubric`: Taking one.
* `ActiveSnapshot`: What `get_active_rubric_snapshot` may return.
* `StackTree`, `RubricTree`: The rubric as a tree.
* `RubricSnapshot.tree`, `Rows.tree`: The tree of a snapshot and of rows.

## Theorems

* `snapshotRubric_tree`: The regrouped queries have the tree of the rows.
-/

namespace TechScreen.Rubric

open Lib

section Shape

structure SnapshotLevel where
  id : RowId
  rank : Nat
  descriptor : String

structure SnapshotTopic where
  id : RowId
  name : String

structure SnapshotCompetency where
  id : RowId
  name : String
  topics : List SnapshotTopic
  levels : List SnapshotLevel

structure SnapshotCompetencyBlock where
  id : RowId
  name : String
  position : Int
  competencies : List SnapshotCompetency

structure SnapshotStack where
  id : RowId
  name : String
  competencyBlocks : List SnapshotCompetencyBlock

structure RubricSnapshot where
  rubricTreeVersionId : RowId
  label : String
  stackList : List SnapshotStack

/-- The version does not exist. -/
inductive RubricSnapshotError where
  | doesNotExist (version : RowId)

end Shape

section Queries

/-- The order of a query that orders by a key and then by the identifier, with
    the database's collation for names. -/
def thenById {ρ κ : Type} [DecidableEq κ] (key : ρ → κ) (id : ρ → RowId) (le : κ → κ → Bool)
    (a b : ρ) : Bool :=
  if key a = key b then decide (id a ≤ id b) else le (key a) (key b)

variable (collation : String → String → Bool)

/-- Blocks are ordered by position first. -/
def blockLe (a b : BlockRow) : Bool :=
  if a.position = b.position then thenById BlockRow.name BlockRow.id collation a b
  else decide (a.position ≤ b.position)

def topicsByCompetency (rows : Rows) : Dict RowId (List SnapshotTopic) :=
  group TopicRow.competencyId (fun r => ⟨r.id, r.name⟩)
    (rows.topic.mergeSort (thenById TopicRow.name TopicRow.id collation))

def levelsByCompetency (rows : Rows) : Dict RowId (List SnapshotLevel) :=
  group LevelRow.competencyId (fun r => ⟨r.id, r.rank, r.descriptor⟩)
    (rows.level.mergeSort (thenById LevelRow.rank LevelRow.id (fun a b => decide (a ≤ b))))

def competenciesByBlock (rows : Rows) : Dict RowId (List SnapshotCompetency) :=
  group CompetencyRow.competencyBlockId
    (fun r => ⟨r.id, r.name, ((topicsByCompetency collation rows).get? r.id).getD [],
      ((levelsByCompetency rows).get? r.id).getD []⟩)
    (rows.competency.mergeSort (thenById CompetencyRow.name CompetencyRow.id collation))

def blocksByStack (rows : Rows) : Dict RowId (List SnapshotCompetencyBlock) :=
  group BlockRow.stackId
    (fun r => ⟨r.id, r.name, r.position, ((competenciesByBlock collation rows).get? r.id).getD []⟩)
    (rows.competencyBlock.mergeSort (blockLe collation))

/-- The stacks of a version's rows. -/
def snapshotStacks (rows : Rows) : List SnapshotStack :=
  (rows.stack.mergeSort (thenById StackRow.name StackRow.id collation)).map
    (fun r => ⟨r.id, r.name, ((blocksByStack collation rows).get? r.id).getD []⟩)

/-- Copy the whole tree of a version. -/
def snapshotRubric (t : Tables) (version : RowId) : Except RubricSnapshotError RubricSnapshot :=
  match t.versions.find? (fun v => v.id = version) with
  | none => .error (.doesNotExist version)
  | some row => .ok ⟨version, row.label, snapshotStacks collation (t.rows.of version)⟩

/-- What `get_active_rubric_snapshot` may return: a snapshot of some active
    version, or nothing if no version is active. -/
def ActiveSnapshot (t : Tables) : Option RubricSnapshot → Prop
  | none => ∀ v ∈ t.versions, v.isActive = false
  | some snapshot => ∃ v ∈ t.versions, v.isActive = true ∧
      snapshotRubric collation t v.id = .ok snapshot

end Queries

section Trees

/-- A competency with its levels, rank and descriptor, and its topics. -/
structure CompetencyTree where
  name : String
  levels : Multiset (Nat × String)
  topics : Multiset String

structure BlockTree where
  name : String
  competencies : Multiset CompetencyTree

structure StackTree where
  name : String
  competencyBlocks : Multiset BlockTree

/-- A rubric as a tree. -/
abbrev RubricTree := Multiset StackTree

def SnapshotCompetency.tree (c : SnapshotCompetency) : CompetencyTree :=
  ⟨c.name, c.levels.map (fun l => (l.rank, l.descriptor)), c.topics.map SnapshotTopic.name⟩

def SnapshotCompetencyBlock.tree (b : SnapshotCompetencyBlock) : BlockTree :=
  ⟨b.name, b.competencies.map SnapshotCompetency.tree⟩

def SnapshotStack.tree (s : SnapshotStack) : StackTree :=
  ⟨s.name, s.competencyBlocks.map SnapshotCompetencyBlock.tree⟩

def RubricSnapshot.tree (s : RubricSnapshot) : RubricTree := s.stackList.map SnapshotStack.tree

variable (rows : Rows)

def CompetencyRow.tree (c : CompetencyRow) : CompetencyTree where
  name := c.name
  levels := (rows.level.filter (fun r => r.competencyId = c.id)).map
    (fun r => (r.rank, r.descriptor))
  topics := (rows.topic.filter (fun r => r.competencyId = c.id)).map TopicRow.name

def BlockRow.tree (b : BlockRow) : BlockTree where
  name := b.name
  competencies := (rows.competency.filter (fun r => r.competencyBlockId = b.id)).map
    (CompetencyRow.tree rows)

def StackRow.tree (s : StackRow) : StackTree where
  name := s.name
  competencyBlocks := (rows.competencyBlock.filter (fun r => r.stackId = s.id)).map
    (BlockRow.tree rows)

/-- The tree that the parent references make of the rows. -/
def Rows.tree : RubricTree := rows.stack.map (StackRow.tree rows)

/-- Sorting a table and picking the rows of a key picks the rows of that key. -/
theorem coe_map_filter_mergeSort {ρ β : Type} (table : List ρ) (le : ρ → ρ → Bool) (p : ρ → Bool)
    (f : ρ → β) : ((((table.mergeSort le).filter p).map f : List β) : Multiset β) =
      ((table.filter p).map f : List β) :=
  Multiset.coe_eq_coe.mpr (((List.mergeSort_perm table le).filter p).map f)

end Trees

section Regrouping

variable (collation : String → String → Bool) (rows : Rows)

theorem competency_tree (c : CompetencyRow) :
    SnapshotCompetency.tree ⟨c.id, c.name, ((topicsByCompetency collation rows).get? c.id).getD [],
      ((levelsByCompetency rows).get? c.id).getD []⟩ = c.tree rows := by
  unfold SnapshotCompetency.tree CompetencyRow.tree topicsByCompetency levelsByCompetency
  simp only [getD_group, List.map_map, CompetencyTree.mk.injEq, true_and]
  exact ⟨coe_map_filter_mergeSort _ _ _ _, coe_map_filter_mergeSort _ _ _ _⟩

theorem block_tree (b : BlockRow) :
    SnapshotCompetencyBlock.tree
      ⟨b.id, b.name, b.position, ((competenciesByBlock collation rows).get? b.id).getD []⟩ =
        b.tree rows := by
  unfold SnapshotCompetencyBlock.tree BlockRow.tree competenciesByBlock
  simp only [getD_group, List.map_map, BlockTree.mk.injEq, true_and]
  rw [coe_map_filter_mergeSort]
  refine congrArg _ (List.map_congr_left (fun c _ => ?_))
  exact competency_tree collation rows c

theorem stack_tree (s : StackRow) :
    SnapshotStack.tree ⟨s.id, s.name, ((blocksByStack collation rows).get? s.id).getD []⟩ =
      s.tree rows := by
  unfold SnapshotStack.tree StackRow.tree blocksByStack
  simp only [getD_group, List.map_map, StackTree.mk.injEq, true_and]
  rw [coe_map_filter_mergeSort]
  refine congrArg _ (List.map_congr_left (fun b _ => ?_))
  exact block_tree collation rows b

/-- The regrouped queries have the tree of the rows. -/
theorem snapshotRubric_tree {t : Tables} {version : RowId} {snapshot : RubricSnapshot}
    (h : snapshotRubric collation t version = .ok snapshot) :
    snapshot.tree = (t.rows.of version).tree := by
  unfold snapshotRubric at h
  cases hv : t.versions.find? (fun v => v.id = version) with
  | none =>
      rw [hv] at h
      cases h
  | some row =>
      rw [hv] at h
      cases h
      unfold RubricSnapshot.tree Rows.tree snapshotStacks
      rw [List.map_map]
      refine Eq.trans (Multiset.coe_eq_coe.mpr ((List.mergeSort_perm _ _).map _)) ?_
      refine congrArg _ (List.map_congr_left (fun s _ => ?_))
      exact stack_tree collation (t.rows.of version) s

end Regrouping

end TechScreen.Rubric
