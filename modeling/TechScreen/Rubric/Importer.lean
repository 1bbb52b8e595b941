import TechScreen.Rubric.Tables

/-!
# Seeding the Rubric

`RubricImporter.seed` reconciles the tables with a directory of documents. It
reads and validates every document and hashes the directory; then, in one
transaction under an advisory lock, it compares the hash with that of the latest
version, refuses a payload from which a competency has disappeared, and writes a
new version with its whole tree.

A tree is written in three passes over the nodes of a document: blocks, then the
competencies under them with their levels, then the topics under these. The
passes hand the identifiers of what they wrote on in dictionaries, by stable id.
Whatever fails rolls the transaction back, so a failure returns no tables.

## Main definitions

* `Writing`: The tables while rows are written, and how many were.
* `passBlocks`, `passCompetencies`, `passTopics`: The three passes.
* `materialiseStack`: One document.
* `seedTransaction`: The transaction.
* `seed`: One call.
-/

namespace TechScreen.Rubric

open Lib

section Inserts

/-- The tables in the middle of a transaction, the rows inserted so far, and the
    first error of an insert. After an error nothing that follows matters. -/
structure Writing where
  tables : Tables
  inserted : Nat := 0
  refused : Option ImporterError := none

/-- Insert one row of the tree, given the identifier it gets. -/
def Writing.insert (w : Writing) (row : RowId → Rows) : RowId × Writing :=
  (w.tables.nextId,
    { w with
      tables := { w.tables with
        nextId := w.tables.nextId + 1
        rows := w.tables.rows ++ row w.tables.nextId }
      inserted := w.inserted + 1 })

def Writing.insertStack (w : Writing) (version : RowId) (name : String) : RowId × Writing :=
  w.insert (fun id => { stack := [⟨id, version, name⟩] })

def Writing.insertBlock (w : Writing) (version stackId : RowId) (name : String) :
    RowId × Writing :=
  w.insert (fun id => { competencyBlock := [⟨id, version, stackId, name, 0⟩] })

def Writing.insertCompetency (w : Writing) (version blockId : RowId) (name : String) :
    RowId × Writing :=
  w.insert (fun id => { competency := [⟨id, version, blockId, name⟩] })

def Writing.insertTopic (w : Writing) (version competencyId : RowId) (name : String) :
    RowId × Writing :=
  w.insert (fun id => { topic := [⟨id, version, competencyId, name⟩] })

/-- The error of inserting a level: a text column takes any text without a zero
    character. -/
def Level.refusal (level : Level) : Option ImporterError :=
  if level.descriptorEn.toList.contains '\x00' then some .characterNotInRepertoire else none

def Writing.insertLevel (w : Writing) (version competencyId : RowId) (level : Level) : Writing :=
  { (w.insert (fun id =>
      { level := [⟨id, version, competencyId, level.level, level.descriptorEn⟩] })).2 with
    refused := w.refused.or level.refusal }

end Inserts

section Passes

variable (version : RowId)

/-- Pass 1: the nodes without a parent. -/
def passBlocks (stackId : RowId) :
    List Node → Dict String RowId → Writing → Dict String RowId × Writing
  | [], blockIds, w => (blockIds, w)
  | node :: nodes, blockIds, w =>
      match node.parent with
      | none =>
          let (id, w) := w.insertBlock version stackId node.id
          passBlocks stackId nodes (blockIds.set node.id id) w
      | some _ => passBlocks stackId nodes blockIds w

/-- The levels of one competency. -/
def insertLevels (competencyId : RowId) : List Level → Writing → Writing
  | [], w => w
  | level :: levels, w =>
      insertLevels competencyId levels (w.insertLevel version competencyId level)

/-- Pass 2: the nodes under a block. -/
def passCompetencies (blockIds : Dict String RowId) :
    List Node → Dict String RowId → Writing → Dict String RowId × Writing
  | [], competencyIds, w => (competencyIds, w)
  | node :: nodes, competencyIds, w =>
      match node.parent.bind blockIds.get? with
      | some blockId =>
          let (id, w) := w.insertCompetency version blockId node.id
          passCompetencies blockIds nodes (competencyIds.set node.id id)
            (insertLevels version id node.levels w)
      | none => passCompetencies blockIds nodes competencyIds w

/-- Pass 3: the nodes under a competency. -/
def passTopics (competencyIds : Dict String RowId) : List Node → Writing → Writing
  | [], w => w
  | node :: nodes, w =>
      match node.parent.bind competencyIds.get? with
      | some competencyId =>
          passTopics competencyIds nodes (w.insertTopic version competencyId node.id).2
      | none => passTopics competencyIds nodes w

/-- One stack and everything under it. -/
def materialiseStack (name : String) (doc : Document) (w : Writing) : Writing :=
  let (stackId, w) := w.insertStack version name
  let (blockIds, w) := passBlocks version stackId doc.values .empty w
  let (competencyIds, w) := passCompetencies version blockIds doc.values .empty w
  passTopics version competencyIds doc.values w

/-- One document after another. -/
def materialise (docs : List (String × Document)) (w : Writing) : Writing :=
  docs.foldl (fun w (name, doc) => materialiseStack version name doc w) w

end Passes

section Seeding

structure SeedResult where
  noop : Bool
  newVersionId : Option RowId
  newPayloadHash : String
  rowsInserted : Nat
  deriving DecidableEq

/-- The ids that the rename check finds in the new payload, retired or not.
    Ids that start like a block's are passed over. -/
def payloadIds (docs : List (String × Document)) : List String :=
  docs.flatMap (fun (_, doc) =>
    (doc.nodes.filter (fun n => !("block.".toList.isPrefixOf n.id.toList))).map Node.id)

/-- The names of the latest version's competencies that the payload lacks. -/
def disappeared (t : Tables) (docs : List (String × Document)) : List String :=
  match t.latest? with
  | none => []
  | some latest =>
      (t.competencyNames latest.id).filter (fun name => !(payloadIds docs).contains name)

/-- A character between quotes, as `repr` writes it. -/
def reprChar (quote c : Char) : List Char :=
  if c = quote ∨ c = '\\' then ['\\', c]
  else if c = '\n' then ['\\', 'n']
  else if c = '\r' then ['\\', 'r']
  else if c = '\t' then ['\\', 't']
  else if c.toNat < 0x20 ∨ c.toNat = 0x7f then
    '\\' :: 'x' :: (Nat.toDigits 16 c.toNat).leftpad 2 '0'
  else [c]

/-- `repr` of a text of ASCII, as every id is. -/
def reprText (s : String) : String :=
  let quote := if '\x27' ∈ s.toList ∧ '"' ∉ s.toList then '"' else '\x27'
  String.ofList (quote :: s.toList.flatMap (reprChar quote) ++ [quote])

example : reprText "sql.index\n" = "'sql.index\\n'" := by decide +kernel

/-- `sorted(disappeared)` of a set, as a list is shown. -/
def showIds (ids : List String) : String :=
  "[" ++ ", ".intercalate ((ids.dedup.mergeSort (· ≤ ·)).map reprText) ++ "]"

def renameMessage (ids : List String) : String :=
  "stable id(s) " ++ showIds ids ++ " disappeared from the new payload " ++
    "without being retired. Renames are forbidden — retire the old id " ++
    "(set retired: true) and introduce the new id as a separate change."

/-- The row of a new version. -/
def newVersion (id : RowId) (newHash : String) (now : Instant) : VersionRow :=
  ⟨id, "tree:" ++ String.ofList (newHash.toList.take 8), true, newHash, now⟩

/-- The tables when the row of the new version has been inserted. -/
def openVersion (newHash : String) (now : Instant) (t : Tables) : Writing where
  tables := { t with
    nextId := t.nextId + 1
    versions := t.versions ++ [newVersion t.nextId newHash now] }
  inserted := 1

/-- The new version with its tree and its audit row. -/
def writeVersion (docs : List (String × Document)) (newHash : String) (now : Instant) (t : Tables) :
    Except ImporterError (SeedResult × Tables) :=
  if newHash ∈ t.versions.map VersionRow.payloadHash then .error .uniqueViolation
  else
    let w := materialise t.nextId docs (openVersion newHash now t)
    match w.refused with
    | some e => .error e
    | none => .ok (⟨false, some t.nextId, newHash, w.inserted + 1⟩,
        { w.tables with auditLog := t.auditLog ++ [⟨"rubric.versioned", newHash⟩] })

/-- What a seed makes of the documents and the hash, under the lock. `now` is
    the start of its transaction. -/
def seedTransaction (docs : List (String × Document)) (newHash : String) (dryRun : Bool)
    (now : Instant) (t : Tables) : Except ImporterError (SeedResult × Tables) :=
  if t.latest?.map VersionRow.payloadHash = some newHash then
    .ok (⟨true, none, newHash, 0⟩, t)
  else if disappeared t docs ≠ [] then
    .error (.renameForbidden (renameMessage (disappeared t docs)))
  else if dryRun then .ok (⟨false, none, newHash, 0⟩, t)
  else writeVersion docs newHash now t

/-- One call of `seed`. -/
def seed (kit : Toolkit) (dir : RubricDir) (dryRun : Bool) (now : Instant) (t : Tables) :
    Except ImporterError (SeedResult × Tables) := do
  let docs ← loadYamlDir kit dir
  seedTransaction docs (computePayloadHash kit dir) dryRun now t

end Seeding

end TechScreen.Rubric
