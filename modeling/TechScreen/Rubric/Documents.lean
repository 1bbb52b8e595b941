import TechScreen.Lib.Json

/-!
# Rubric Documents

The YAML files of the rubric, one for each stack, as the importer reads them. A
document is a flat list of nodes with stable ids, each naming its parent; a node
without a parent is a competency block, a node under a block is a competency,
and a node under a competency is a topic. Only competencies have their levels
stored.

A document that has been read satisfies its schema, so the schema's bounds are
fields of the types. The labels, the examples and the version number of a
document are checked and then never used.

## Main definitions

* `Level`, `Node`, `Document`: A document that satisfies the schema.
* `Document.ofJson`: The schema.
* `RubricDir`: A directory of rubric files.
* `Toolkit`: The library functions that the importer relies on.
* `loadYamlDir`: Every document of a directory.
* `computePayloadHash`: The hash of a directory.
-/

namespace TechScreen.Rubric

open Lib

abbrev Bytes := List UInt8

section Schema

def isIdHead (c : Char) : Bool := 'a' ≤ c && c ≤ 'z'

def isIdTail (c : Char) : Bool := isIdHead c || c.isDigit || c == '_'

/-- A list of characters cut at every dot. -/
def cutAtDots : List Char → List (List Char)
  | [] => [[]]
  | c :: cs =>
      if c = '.' then [] :: cutAtDots cs
      else match cutAtDots cs with
        | [] => [[c]]
        | segment :: segments => (c :: segment) :: segments

/-- A match of `^[a-z][a-z0-9_]*(\.[a-z][a-z0-9_]*)*$`. The anchor at the end
    also matches before one last line break. -/
def isStableId (s : String) : Bool :=
  let chars := s.toList
  let chars := if chars.getLast? = some '\n' then chars.dropLast else chars
  (cutAtDots chars).all (fun
    | [] => false
    | c :: cs => isIdHead c && cs.all isIdTail)

/-- A level of a competency. -/
structure Level where
  level : Nat
  descriptorEn : String
  level_range : 1 ≤ level ∧ level ≤ 5
  descriptorEn_ne : descriptorEn ≠ ""
  deriving DecidableEq

/-- A node of a document. -/
structure Node where
  id : String
  parent : Option String
  retired : Bool
  levels : List Level
  id_stable : isStableId id = true
  deriving DecidableEq

/-- A document that satisfies `rubric.schema.json`. -/
structure Document where
  nodes : List Node
  deriving DecidableEq

/-- A value of the schema's type `integer`: a float without a fraction is one. -/
def asInteger : Json → Option Int
  | .int n => some n
  | .float q => if q.den = 1 then some q.num else none
  | _ => none

/-- A string of at least one character. -/
def isText : Json → Bool
  | .str s => s != ""
  | _ => false

/-- A check on a property that may be absent. -/
def optionally (check : Json → Bool) : Option Json → Bool
  | none => true
  | some j => check j

/-- A check on a property that must be present. -/
def present (check : Json → Bool) : Option Json → Bool
  | none => false
  | some j => check j

def isString : Json → Bool
  | .str _ => true
  | _ => false

def isBoolean : Json → Bool
  | .bool _ => true
  | _ => false

def isTexts : Json → Bool
  | .arr items => items.all isText
  | _ => false

def Level.ofJson (j : Json) : Option Level :=
  if j.closed ["level", "label_uk", "descriptor_en", "evidence_examples_en"] &&
      present isText (j.get? "label_uk") && optionally isTexts (j.get? "evidence_examples_en") then
    match j.get? "level" >>= asInteger, j.get? "descriptor_en" with
    | some level, some (.str descriptorEn) =>
        if h : (1 ≤ level.toNat ∧ level.toNat ≤ 5) ∧ descriptorEn ≠ "" then
          some ⟨level.toNat, descriptorEn, h.1, h.2⟩
        else none
    | _, _ => none
  else none

/-- The parent of a node: a stable id, or `null` if there is none. -/
def parentOfJson : Option Json → Option (Option String)
  | none | some .null => some none
  | some (.str s) => if isStableId s then some (some s) else none
  | some _ => none

def levelsOfJson : Option Json → Option (List Level)
  | none => some []
  | some (.arr items) => items.mapM Level.ofJson
  | some _ => none

def isRetired : Option Json → Bool
  | some (.bool b) => b
  | _ => false

/-- A label for candidates is required of every node that is not retired. -/
def Node.ofJson (j : Json) : Option Node :=
  if j.closed ["id", "label_en", "label_uk", "retired", "parent", "levels"] &&
      present isText (j.get? "label_en") && optionally isBoolean (j.get? "retired") &&
      optionally isString (j.get? "label_uk") &&
      (isRetired (j.get? "retired") || (j.get? "label_uk").isSome) then
    match j.get? "id", parentOfJson (j.get? "parent"), levelsOfJson (j.get? "levels") with
    | some (.str id), some parent, some levels =>
        if h : isStableId id = true then
          some ⟨id, parent, isRetired (j.get? "retired"), levels, h⟩
        else none
    | _, _, _ => none
  else none

/-- The schema of a document. -/
def Document.ofJson (j : Json) : Option Document :=
  if j.closed ["version", "retired", "nodes"] &&
      ((j.get? "version" >>= asInteger).map (fun v => decide (1 ≤ v))).getD false &&
      optionally isBoolean (j.get? "retired") then
    match j.get? "nodes" with
    | some (.arr items) => (items.mapM Node.ofJson).map Document.mk
    | _ => none
  else none

/-- The nodes by their ids: of two nodes with one id, the later one at the place
    of the earlier. -/
def Document.nodesById (doc : Document) : Dict String Node :=
  Dict.ofList (doc.nodes.map (fun n => (n.id, n)))

/-- `nodes_by_id.values()`. -/
def Document.values (doc : Document) : List Node := doc.nodesById.entries.map Prod.snd

end Schema

section Loading

/-- The last dot of a file name that has something before it, and everything
    after. -/
def stem (name : String) : String :=
  let chars := name.toList
  match chars.reverse.span (fun c => c ≠ '.') with
  | (_, []) => name
  | (_, _ :: rest) => if rest = [] then name else String.ofList rest.reverse

/-- The rubric files of a directory, `sorted(yaml_dir.glob("*.yaml"))`. -/
structure RubricDir where
  path : String
  files : List (String × Bytes)
  sorted : (files.map Prod.fst).Pairwise (· < ·)
  yaml : ∀ file ∈ files, ".yaml".toList <:+ file.1.toList

/-- What the importer relies on: `yaml.safe_load` of a file's text, the words in
    which the first violation of the schema is told, and SHA-256 as hexadecimal
    digits. YAML allows no zero byte in a text, and an empty text is `None`. -/
structure Toolkit where
  safeLoad : Bytes → Except String Json
  violation : Json → String
  sha256 : Bytes → String
  safeLoad_zero : ∀ content, 0 ∈ content → ∃ e, safeLoad content = .error e
  safeLoad_nil : safeLoad [] = .ok .null

inductive ImporterError where
  | schemaViolation (message : String)
  | renameForbidden (message : String)
  | uniqueViolation
  | characterNotInRepertoire
  | unreadable (error : String)
  deriving DecidableEq

/-- `doc or {}`. -/
def orEmpty : Json → Json
  | .null => .obj []
  | .bool b => if b then .bool b else .obj []
  | .int n => if n = 0 then .obj [] else .int n
  | .float q => if q = 0 then .obj [] else .float q
  | .str s => if s = "" then .obj [] else .str s
  | .arr items => if items.isEmpty then .obj [] else .arr items
  | .obj fields => .obj fields

variable (kit : Toolkit)

/-- One document, read and validated. -/
def loadDocument (origin : String) (content : Bytes) : Except ImporterError Document := do
  let doc ← (kit.safeLoad content).mapError .unreadable
  match orEmpty doc with
  | .obj fields =>
      match Document.ofJson (.obj fields) with
      | some document => .ok document
      | none => .error (.schemaViolation (origin ++ ": $" ++ kit.violation (.obj fields)))
  | _ => .error (.schemaViolation (origin ++ ": expected a mapping at top level"))

/-- Every document of the directory, with the name of its stack. -/
def loadYamlDir (dir : RubricDir) : Except ImporterError (List (String × Document)) :=
  dir.files.mapM (fun (name, content) => do
    let doc ← loadDocument kit (dir.path ++ "/" ++ name) content
    return (stem name, doc))

/-- The contents of the files, with a zero byte between each two. -/
def framed (files : List (String × Bytes)) : Bytes := [0].intercalate (files.map Prod.snd)

/-- The hash of everything the files contain, in the order of their names. -/
def computePayloadHash (dir : RubricDir) : String := kit.sha256 (framed dir.files)

end Loading

end TechScreen.Rubric
