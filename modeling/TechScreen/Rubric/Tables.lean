import TechScreen.Lib.Group
import TechScreen.Rubric.Documents

/-!
# The Rubric Tables

The tables behind the rubric: its versions, the five tables of the tree, and the
audit log. Every row of the tree names its version, and its parent by the
parent's identifier. Identifiers come from the database, which hands each out
once.

What the tables guarantee by themselves is that a row's identifier is its own
and that it names a version that exists. That at most one version is active is
nobody's guarantee.

## Main definitions

* `VersionRow`, `StackRow`, `BlockRow`, `CompetencyRow`, `TopicRow`, `LevelRow`:
  The rows.
* `Rows`: The five tables of the tree.
* `Tables`: The whole of it.
* `Tables.latest?`: The version that `ORDER BY created_at DESC LIMIT 1` finds.
* `Tables.Sound`, `Database`: What the tables guarantee.
-/

namespace TechScreen.Rubric

open Lib

/-- An identifier that `gen_random_uuid()` has handed out: the count of those
    before it. -/
abbrev RowId := Nat

structure VersionRow where
  id : RowId
  label : String
  isActive : Bool
  payloadHash : String
  createdAt : Instant
  deriving DecidableEq

structure StackRow where
  id : RowId
  rubricTreeVersionId : RowId
  name : String
  deriving DecidableEq

structure BlockRow where
  id : RowId
  rubricTreeVersionId : RowId
  stackId : RowId
  name : String
  position : Int := 0
  deriving DecidableEq

structure CompetencyRow where
  id : RowId
  rubricTreeVersionId : RowId
  competencyBlockId : RowId
  name : String
  deriving DecidableEq

structure TopicRow where
  id : RowId
  rubricTreeVersionId : RowId
  competencyId : RowId
  name : String
  deriving DecidableEq

structure LevelRow where
  id : RowId
  rubricTreeVersionId : RowId
  competencyId : RowId
  rank : Nat
  descriptor : String
  deriving DecidableEq

/-- The five tables of the tree. -/
structure Rows where
  stack : List StackRow := []
  competencyBlock : List BlockRow := []
  competency : List CompetencyRow := []
  topic : List TopicRow := []
  level : List LevelRow := []
  deriving DecidableEq

structure AuditRow where
  action : String
  subjectHash : String
  deriving DecidableEq

structure Tables where
  nextId : RowId := 0
  versions : List VersionRow := []
  rows : Rows := {}
  auditLog : List AuditRow := []
  deriving DecidableEq

section Queries

/-- The rows of one version. -/
def Rows.of (rows : Rows) (version : RowId) : Rows where
  stack := rows.stack.filter (fun r => r.rubricTreeVersionId = version)
  competencyBlock := rows.competencyBlock.filter (fun r => r.rubricTreeVersionId = version)
  competency := rows.competency.filter (fun r => r.rubricTreeVersionId = version)
  topic := rows.topic.filter (fun r => r.rubricTreeVersionId = version)
  level := rows.level.filter (fun r => r.rubricTreeVersionId = version)

/-- One set of rows after another. -/
def Rows.append (a b : Rows) : Rows where
  stack := a.stack ++ b.stack
  competencyBlock := a.competencyBlock ++ b.competencyBlock
  competency := a.competency ++ b.competency
  topic := a.topic ++ b.topic
  level := a.level ++ b.level

instance : Append Rows := ⟨Rows.append⟩

/-- The version that `ORDER BY created_at DESC LIMIT 1` finds. -/
def Tables.latest? (t : Tables) : Option VersionRow :=
  (t.versions.mergeSort (fun a b => decide (b.createdAt ≤ a.createdAt))).head?

/-- The names of a version's competencies. -/
def Tables.competencyNames (t : Tables) (version : RowId) : List String :=
  (t.rows.of version).competency.map CompetencyRow.name

end Queries

section Guarantees

/-- The rows name versions that the test accepts. -/
structure Rows.Within (rows : Rows) (known : RowId → Prop) : Prop where
  stack : ∀ r ∈ rows.stack, known r.rubricTreeVersionId
  competencyBlock : ∀ r ∈ rows.competencyBlock, known r.rubricTreeVersionId
  competency : ∀ r ∈ rows.competency, known r.rubricTreeVersionId
  topic : ∀ r ∈ rows.topic, known r.rubricTreeVersionId
  level : ∀ r ∈ rows.level, known r.rubricTreeVersionId

/-- What the constraints of the tables guarantee: versions have identifiers that
    were handed out, no two of them the same and no two the same hash, and every
    row of the tree names one of them. -/
structure Tables.Sound (t : Tables) : Prop where
  versions_lt : ∀ v ∈ t.versions, v.id < t.nextId
  versions_nodup : (t.versions.map VersionRow.id).Nodup
  hashes_nodup : (t.versions.map VersionRow.payloadHash).Nodup
  rows_within : t.rows.Within (fun id => id ∈ t.versions.map VersionRow.id)

/-- Tables that satisfy their constraints. -/
abbrev Database := {t : Tables // t.Sound}

/-- The tables as the migrations leave them. -/
def Database.empty : Database := ⟨{}, by simp, by simp, by simp, by constructor <;> simp⟩

end Guarantees

end TechScreen.Rubric
