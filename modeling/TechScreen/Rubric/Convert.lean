import Mathlib.Algebra.Order.Ring.Unbundled.Rat
import TechScreen.Lib.JsonData
import TechScreen.Rubric.Documents

/-!
# Converting a Workbook

The other half of the importer: an Excel workbook with one sheet for each stack
is read, checked against the matrix format and written out as one document for
each sheet.

A sheet is read row by row into competencies, each of them with its levels, and
every violation of the format is raised where the row that has it is read. The
document made of a sheet is checked once more, against the schema, and written at
once. Reading and writing therefore alternate over the sheets of a workbook.

A cell is kept as the text that `str` gives for its value, which is all that is
read of it.

## Main definitions

* `Sheet`: A worksheet.
* `TextKit`: The text functions that the conversion relies on.
* `readSheet`: The competencies of a sheet.
* `toYamlDoc`: The document made of them.
* `convertSheet`: A sheet, checked and serialised.
* `convert`: Every sheet of a workbook, written to a directory.
* `AllOrNothing`: A conversion writes every sheet to a file of its own, or nothing.
* `Settled`: When it does.

## Theorems

* `convertSheets_cases`: The loop gets through, or stops at the first violation.
* `allOrNothing_iff`: A conversion is all or nothing on a settled workbook only.
-/

namespace TechScreen.Rubric

open Lib

section Workbook

/-- A range of merged cells; columns and rows are counted from 1. -/
structure MergedRange where
  minCol : Nat
  maxCol : Nat
  minRow : Nat
  maxRow : Nat
  coord : String

abbrev Row := List (Option String)

structure Sheet where
  name : String
  rows : List Row
  merged : List MergedRange

/-- The library functions that the conversion relies on: the normal form NFC, the
    ASCII characters of the normal form NFKD, `int` on a string, `yaml.safe_dump`
    with the importer's settings, and the words in which the first violation of the
    schema is told. -/
structure TextKit where
  nfc : String → String
  ascii : String → String
  parseInt : String → Option Int
  safeDump : Json → String
  violation : Json → String

inductive ConvertError where
  | unknownColumn (message : String)
  | emptyRequiredCell (message : String)
  | duplicateCompetencyId (message : String)
  | mergedKeyColumn (message : String)
  | schemaViolation (message : String)
  deriving DecidableEq

def requiredHeaders : List String :=
  ["block", "competency_id", "competency_label_uk", "competency_label_en", "level",
    "descriptor_en", "level_label_uk"]

def keyColumns : List String := ["block", "competency_id", "topic", "level"]

/-- The cells that a row with a competency has to fill. -/
def requiredCells : List String :=
  ["block", "competency_label_uk", "competency_label_en", "level", "descriptor_en",
    "level_label_uk"]

end Workbook

section Texts
variable (text : TextKit)

/-- A character that `str.strip` takes off. -/
def isSpace (c : Char) : Bool :=
  let n := c.toNat
  (0x9 ≤ n && n ≤ 0xd) || (0x1c ≤ n && n ≤ 0x20) || n == 0x85 || n == 0xa0 || n == 0x1680 ||
    (0x2000 ≤ n && n ≤ 0x200a) || n == 0x2028 || n == 0x2029 || n == 0x202f || n == 0x205f ||
    n == 0x3000

def strip (s : String) : String :=
  String.ofList ((s.toList.dropWhile isSpace).reverse.dropWhile isSpace).reverse

/-- `_norm`. -/
def norm : Option String → String
  | none => ""
  | some value => text.nfc (strip value)

/-- Every run of characters that are neither letters nor digits as one
    underscore. -/
def underscored : Bool → List Char → List Char
  | _, [] => []
  | inRun, c :: cs =>
      if c.isAlphanum then c :: underscored false cs
      else if inRun then underscored true cs
      else '_' :: underscored true cs

/-- `_slugify`. -/
def slugify (name : String) : String :=
  let s := underscored false (text.ascii name).toList
  let s := ((s.dropWhile (· == '_')).reverse.dropWhile (· == '_')).reverse
  if s = [] then "block" else String.ofList (s.map Char.toLower)

/-- `s.split(";")`, each part stripped and the empty ones left out. -/
def splitExamples (s : String) : List String :=
  ((s.toList.splitOn ';').map (fun part => strip (String.ofList part))).filter (· ≠ "")

end Texts

section Reading
variable (text : TextKit)

structure ParsedLevel where
  level : Int
  labelUk : String
  descriptorEn : String
  evidenceExamplesEn : List String

structure ParsedCompetency where
  id : String
  blockSlug : String
  blockLabel : String
  labelUk : String
  labelEn : String
  topic : String
  retired : Bool
  levels : Dict Int ParsedLevel

/-- The columns by their headers: of two with one header the last counts. -/
def headersOf (row : Row) : Dict String Nat :=
  Dict.ofList ((row.zipIdx.map (fun p => (norm text p.1, p.2))).filter (fun p => p.1 ≠ ""))

def cellAt (headers : Dict String Nat) (row : Row) (name : String) : String :=
  match headers.get? name with
  | none => ""
  | some idx => norm text (row.getD idx none)

/-- The first merged range over more than one row that spans a key column. -/
def mergedKey (headers : Dict String Nat) (merged : List MergedRange) :
    Option (String × MergedRange) :=
  keyColumns.findSome? (fun col =>
    (headers.get? col).bind (fun idx =>
      (merged.find? (fun mr =>
        mr.minCol ≤ idx + 1 && idx + 1 ≤ mr.maxCol && mr.minRow != mr.maxRow)).map
          (fun mr => (col, mr))))

/-- The level that a cell declares. -/
def parseLevel (sheetName : String) (rowIdx : Nat) (levelStr : String) :
    Except ConvertError Int :=
  match text.parseInt levelStr with
  | none => .error (.emptyRequiredCell
      s!"sheet '{sheetName}' row {rowIdx}: level '{levelStr}' is not an integer")
  | some level =>
      if 1 ≤ level ∧ level ≤ 5 then .ok level
      else .error (.emptyRequiredCell
        s!"sheet '{sheetName}' row {rowIdx}: level {level} is out of range 1..5")

/-- The competency that a row is about: a new one, or one that an earlier row of
    the sheet has introduced in the same block. -/
def competencyOf (sheetName : String) (cell : String → String)
    (parsed : Dict String ParsedCompetency) : Except ConvertError ParsedCompetency :=
  let id := cell "competency_id"
  let block := cell "block"
  let blockSlug := slugify text block
  match parsed.get? id with
  | none => .ok
      { id := id, blockSlug := blockSlug, blockLabel := block,
        labelUk := cell "competency_label_uk", labelEn := cell "competency_label_en",
        topic := cell "topic",
        retired := (norm text (some (cell "competency_retired"))).toLower = "true",
        levels := .empty }
  | some comp =>
      if comp.blockSlug ≠ blockSlug then
        let label := comp.blockLabel
        .error (.duplicateCompetencyId (s!"sheet '{sheetName}': competency_id '{id}' appears in "
          ++ s!"two blocks ('{label}' and '{block}'); ids must be unique per sheet"))
      else .ok comp

/-- One row below the header. A row without a competency is a break between
    sections, or empty, and is passed over. -/
def readRow (sheetName : String) (headers : Dict String Nat)
    (parsed : Dict String ParsedCompetency) (rowIdx : Nat) (row : Row) :
    Except ConvertError (Dict String ParsedCompetency) :=
  let cell := cellAt text headers row
  let id := cell "competency_id"
  if id = "" then .ok parsed
  else if !isStableId id then
    .error (.emptyRequiredCell
      s!"sheet '{sheetName}' row {rowIdx}: competency_id '{id}' is not a valid stable id")
  else
    match requiredCells.find? (fun name => cell name = "") with
    | some required => .error (.emptyRequiredCell
        s!"sheet '{sheetName}' row {rowIdx}: empty required cell '{required}'")
    | none => do
        let level ← parseLevel text sheetName rowIdx (cell "level")
        let comp ← competencyOf text sheetName cell parsed
        if (comp.levels.get? level).isSome then
          .error (.duplicateCompetencyId
            (s!"sheet '{sheetName}' row {rowIdx}: competency_id '{id}' "
              ++ s!"already declared level {level}"))
        else
          let declared : ParsedLevel :=
            { level := level, labelUk := cell "level_label_uk",
              descriptorEn := cell "descriptor_en",
              evidenceExamplesEn := splitExamples (cell "evidence_examples") }
          .ok (parsed.set id { comp with levels := comp.levels.set level declared })

/-- The rows below the header, counted from 2. -/
def readRows (sheetName : String) (headers : Dict String Nat) :
    Dict String ParsedCompetency → Nat → List Row →
      Except ConvertError (Dict String ParsedCompetency)
  | parsed, _, [] => .ok parsed
  | parsed, rowIdx, row :: rows => do
      let parsed' ← readRow text sheetName headers parsed rowIdx row
      readRows sheetName headers parsed' (rowIdx + 1) rows

/-- `_read_sheet`. -/
def readSheet (sheet : Sheet) : Except ConvertError (Dict String ParsedCompetency) :=
  let sheetName := sheet.name
  match sheet.rows with
  | [] => .error (.unknownColumn s!"sheet '{sheetName}': empty workbook")
  | headerRow :: rows =>
      let headers := headersOf text headerRow
      match requiredHeaders.find? (fun col => (headers.get? col).isNone) with
      | some col => .error (.unknownColumn
          s!"sheet '{sheetName}': required column '{col}' missing from header")
      | none =>
          match mergedKey headers sheet.merged with
          | some (col, mr) =>
              let coord := mr.coord
              .error (.mergedKeyColumn
                s!"sheet '{sheetName}': merged cells {coord} span key column '{col}'")
          | none => readRows text sheetName headers .empty 2 rows

end Reading

section Emitting

def levelToJson (lvl : ParsedLevel) : Json :=
  .obj ([("level", .int lvl.level), ("label_uk", .str lvl.labelUk),
    ("descriptor_en", .str lvl.descriptorEn)] ++
    if lvl.evidenceExamplesEn = [] then []
    else [("evidence_examples_en", .arr (lvl.evidenceExamplesEn.map Json.str))])

def blockNode (comp : ParsedCompetency) : Json :=
  .obj [("id", .str ("block." ++ comp.blockSlug)), ("label_en", .str comp.blockLabel),
    ("label_uk", .str comp.blockLabel), ("parent", .null), ("retired", .bool false)]

def competencyNode (comp : ParsedCompetency) : Json :=
  .obj ([("id", .str comp.id), ("label_en", .str comp.labelEn), ("label_uk", .str comp.labelUk),
    ("parent", .str ("block." ++ comp.blockSlug)), ("retired", .bool comp.retired)] ++
    if comp.levels.entries = [] then []
    else [("levels", .arr (comp.levels.entries.map (fun p => levelToJson p.2)))])

/-- The nodes of the document: each block before its first competency. -/
def nodesOf : List String → List ParsedCompetency → List Json
  | _, [] => []
  | blocks, comp :: rest =>
      if comp.blockSlug ∈ blocks then competencyNode comp :: nodesOf blocks rest
      else blockNode comp :: competencyNode comp :: nodesOf (comp.blockSlug :: blocks) rest

/-- `_competencies_to_yaml_doc`. -/
def toYamlDoc (competencies : List ParsedCompetency) : Json :=
  .obj [("version", .int 1), ("retired", .bool false), ("nodes", .arr (nodesOf [] competencies))]

/-- The key that nodes are sorted by. -/
def idKey (node : Json) : String :=
  match node.get? "id" with
  | some (.str s) => s
  | _ => ""

/-- The key that levels are sorted by: a number, with or without a fraction. -/
def levelKey (lvl : Json) : ℚ :=
  match lvl.get? "level" with
  | some (.int n) => n
  | some (.float q) => q
  | _ => 0

/-- The items of a list that may be missing. -/
def itemsOf : Option Json → List Json
  | some (.arr items) => items
  | _ => []

def nodesIn (doc : Json) : List Json := itemsOf (doc.get? "nodes")

def levelsIn (node : Json) : List Json := itemsOf (node.get? "levels")

def mapField (key : String) (f : Json → Json) : Json → Json
  | .obj fields => .obj (fields.map (fun p => if p.1 = key then (p.1, f p.2) else p))
  | j => j

def sortItems {α : Type} [LinearOrder α] (key : Json → α) : Json → Json
  | .arr items => .arr (sortOn key items)
  | j => j

/-- A node with its levels, if it has any, sorted by their ranks. -/
def withSortedLevels (node : Json) : Json := mapField "levels" (sortItems levelKey) node

/-- The nodes sorted by their ids, and the levels of each by their ranks. -/
def canonical (doc : Json) : Json :=
  doc.set "nodes" (.arr ((sortOn idKey (nodesIn doc)).map withSortedLevels))

end Emitting

section Converting
variable (text : TextKit)

/-- The files of the output directory by their names. -/
abbrev Directory := Dict String Bytes

def encodeUtf8 (s : String) : Bytes := s.toUTF8.toList

def stackId (sheet : Sheet) : String := norm text (some sheet.name)

def fileName (sheet : Sheet) : String := stackId text sheet ++ ".yaml"

/-- What is written for a sheet, unless it violates the format. -/
def convertSheet (sheet : Sheet) : Except ConvertError Bytes := do
  let sheetName := sheet.name
  let stack := stackId text sheet
  if !isStableId stack then
    .error (.emptyRequiredCell
      s!"sheet '{sheetName}': sheet name '{stack}' is not a valid stable id")
  else
    let parsed ← readSheet text sheet
    let doc := toYamlDoc (parsed.entries.map Prod.snd)
    match Document.ofJson doc with
    | none => .error (.schemaViolation (s!"sheet '{sheetName}'" ++ ": $" ++ text.violation doc))
    | some _ => .ok (encodeUtf8 (text.safeDump (canonical doc)))

/-- The sheets that are stacks. -/
def stackSheets (sheets : List Sheet) : List Sheet :=
  sheets.filter (fun sheet => sheet.name.toList.head? ≠ some '_')

/-- The loop over the sheets: each is written before the next is read. -/
def convertSheets : List Sheet → Directory → Directory × Except ConvertError (List String)
  | [], dir => (dir, .ok [])
  | sheet :: rest, dir =>
      match convertSheet text sheet with
      | .error e => (dir, .error e)
      | .ok content =>
          let (dir', written) := convertSheets rest (dir.set (fileName text sheet) content)
          (dir', written.map (fileName text sheet :: ·))

/-- The output directory after a conversion, and the files written, sorted, or
    what was raised. -/
def convert (sheets : List Sheet) (dir : Directory) :
    Directory × Except ConvertError (List String) :=
  let (dir', written) := convertSheets text (stackSheets sheets) dir
  (dir', written.map (fun names => names.insertionSort (· ≤ ·)))

end Converting

section Loop
variable (text : TextKit)

/-- The sheet meets the format. -/
def Converts (sheet : Sheet) : Prop := ∃ content, convertSheet text sheet = .ok content

/-- The writes of the sheets before the first one that violates the format. -/
def writes : List Sheet → List (String × Bytes)
  | [] => []
  | sheet :: rest =>
      match convertSheet text sheet with
      | .error _ => []
      | .ok content => (fileName text sheet, content) :: writes rest

theorem convertSheets_fst (sheets : List Sheet) (dir : Directory) :
    (convertSheets text sheets dir).1
      = (writes text sheets).foldl (fun d p => d.set p.1 p.2) dir := by
  induction sheets generalizing dir with
  | nil => rfl
  | cons sheet rest ih =>
      unfold convertSheets writes
      cases convertSheet text sheet with
      | error e => rfl
      | ok content => exact ih _

/-- The loop gets through if every sheet converts, and otherwise raises what the
    first violation raises. -/
theorem convertSheets_cases (sheets : List Sheet) (dir : Directory) :
    ((∀ s ∈ sheets, Converts text s) ∧
      (convertSheets text sheets dir).2 = .ok (sheets.map (fileName text))) ∨
    ∃ pre bad post e, sheets = pre ++ bad :: post ∧ (∀ s ∈ pre, Converts text s) ∧
      convertSheet text bad = .error e ∧
      (convertSheets text sheets dir).2 = .error e ∧
      writes text sheets = writes text pre := by
  induction sheets generalizing dir with
  | nil => exact Or.inl ⟨fun s hs => absurd hs List.not_mem_nil, rfl⟩
  | cons sheet rest ih =>
      unfold convertSheets writes
      cases hc : convertSheet text sheet with
      | error e =>
          exact Or.inr ⟨[], sheet, rest, e, rfl, fun s hs => absurd hs List.not_mem_nil, hc,
            rfl, rfl⟩
      | ok content =>
          dsimp only
          rcases ih (dir.set (fileName text sheet) content) with
            ⟨hall, hok⟩ | ⟨pre, bad, post, e, hsplit, hpre, hbad, herr, hwrites⟩
          · refine Or.inl ⟨?_, ?_⟩
            · intro s hs
              rcases List.mem_cons.mp hs with rfl | hs
              · exact ⟨content, hc⟩
              · exact hall s hs
            · rw [hok]
              rfl
          · refine Or.inr ⟨sheet :: pre, bad, post, e, ?_, ?_, hbad, ?_, ?_⟩
            · rw [hsplit, List.cons_append]
            · intro s hs
              rcases List.mem_cons.mp hs with rfl | hs
              · exact ⟨content, hc⟩
              · exact hpre s hs
            · rw [herr]
              rfl
            · dsimp only
              rw [hc, hwrites]

/-- Every sheet that converts writes what it converts to. -/
theorem mem_writes_iff {sheets : List Sheet} (hall : ∀ s ∈ sheets, Converts text s) :
    ∀ us p vs, writes text sheets = us ++ p :: vs ↔
      ∃ pre s post, sheets = pre ++ s :: post ∧ us = writes text pre ∧
        p.1 = fileName text s ∧ convertSheet text s = .ok p.2 ∧
        vs = writes text post := by
  induction sheets with
  | nil =>
      intro us p vs
      constructor
      · intro h
        exact absurd h.symm (List.append_ne_nil_of_right_ne_nil _ (List.cons_ne_nil _ _))
      · rintro ⟨pre, s, post, h, -⟩
        exact absurd h.symm (List.append_ne_nil_of_right_ne_nil _ (List.cons_ne_nil _ _))
  | cons sheet rest ih =>
      obtain ⟨content, hc⟩ := hall sheet List.mem_cons_self
      have ih := ih (fun s hs => hall s (List.mem_cons_of_mem _ hs))
      intro us p vs
      -- The first sheet writes first.
      have hcons : writes text (sheet :: rest)
          = (fileName text sheet, content) :: writes text rest := by
        rw [writes, hc]
      rw [hcons]
      constructor
      · intro h
        -- A write is the one of the first sheet, or of a later one.
        cases us with
        | nil =>
            rw [List.nil_append, List.cons.injEq] at h
            obtain ⟨rfl, rfl⟩ := h
            exact ⟨[], sheet, rest, rfl, rfl, rfl, hc, rfl⟩
        | cons q us =>
            rw [List.cons_append, List.cons.injEq] at h
            obtain ⟨rfl, h⟩ := h
            obtain ⟨pre, s, post, rfl, rfl, hname, hs, rfl⟩ := (ih us p vs).mp h
            exact ⟨sheet :: pre, s, post, rfl, by rw [writes, hc], hname, hs, rfl⟩
      · rintro ⟨pre, s, post, hsplit, rfl, hname, hs, rfl⟩
        -- A sheet is the first one, or one of the rest.
        cases pre with
        | nil =>
            rw [List.nil_append, List.cons.injEq] at hsplit
            obtain ⟨rfl, rfl⟩ := hsplit
            rw [hc, Except.ok.injEq] at hs
            rw [hs, ← hname]
            rfl
        | cons s' pre =>
            rw [List.cons_append, List.cons.injEq] at hsplit
            obtain ⟨rfl, rfl⟩ := hsplit
            rw [writes, hc, (ih (writes text pre) p (writes text post)).mpr
              ⟨pre, s, post, rfl, rfl, hname, hs, rfl⟩, List.cons_append]

/-- What a file holds after the loop: what the last sheet with its name converts
    to, or what it held. -/
theorem lookup_writes {sheets : List Sheet} (hall : ∀ s ∈ sheets, Converts text s)
    (name : String) (content : Bytes) :
    (writes text sheets).reverse.lookup name = some content ↔
      ∃ pre s post, sheets = pre ++ s :: post ∧ fileName text s = name ∧
        convertSheet text s = .ok content ∧ ∀ s' ∈ post, fileName text s' ≠ name := by
  rw [Dict.lookup_reverse_eq_some_iff]
  constructor
  · rintro ⟨us, vs, hsplit, hlast⟩
    obtain ⟨pre, s, post, rfl, rfl, hname, hs, rfl⟩ :=
      (mem_writes_iff text hall us (name, content) vs).mp hsplit
    refine ⟨pre, s, post, rfl, hname.symm, hs, ?_⟩
    intro s' hs'
    have hpost : ∀ s ∈ post, Converts text s :=
      fun s hs => hall s (List.mem_append_right _ (List.mem_cons_of_mem _ hs))
    obtain ⟨c', hc'⟩ := hpost s' hs'
    obtain ⟨a, b, rfl⟩ := List.append_of_mem hs'
    have hmem := (mem_writes_iff text hpost (writes text a) (fileName text s', c')
      (writes text b)).mpr ⟨a, s', b, rfl, rfl, rfl, hc', rfl⟩
    exact hlast (fileName text s', c') (hmem ▸ List.mem_append_right _ List.mem_cons_self)
  · rintro ⟨pre, s, post, rfl, rfl, hs, hlast⟩
    have hpost : ∀ s ∈ post, Converts text s :=
      fun s hs => hall s (List.mem_append_right _ (List.mem_cons_of_mem _ hs))
    refine ⟨writes text pre, writes text post,
      (mem_writes_iff text hall _ _ _).mpr ⟨pre, s, post, rfl, rfl, rfl, hs, rfl⟩, ?_⟩
    intro p hp
    obtain ⟨a, b, hab⟩ := List.append_of_mem hp
    obtain ⟨a', s', b', rfl, -, hname, -, -⟩ := (mem_writes_iff text hpost a p b).mp hab
    rw [hname]
    exact hlast s' (List.mem_append_right _ List.mem_cons_self)

end Loop

section Atomicity

/-- Two ways to cut a list at its first element without a property. -/
theorem eq_of_first_violation {α : Type} (P : α → Prop) {us us' vs vs' : List α} {a a' : α}
    (h : us ++ a :: vs = us' ++ a' :: vs') (hus : ∀ x ∈ us, P x) (ha : ¬ P a)
    (hus' : ∀ x ∈ us', P x) (ha' : ¬ P a') : us = us' := by
  induction us generalizing us' with
  | nil =>
      cases us' with
      | nil => rfl
      | cons x us' =>
          obtain rfl := (List.cons.inj h).1
          exact absurd (hus' _ List.mem_cons_self) ha
  | cons x us ih =>
      cases us' with
      | nil =>
          obtain rfl := (List.cons.inj h).1
          exact absurd (hus _ List.mem_cons_self) ha'
      | cons y us' =>
          obtain ⟨rfl, hrest⟩ := List.cons.inj h
          rw [ih hrest (fun z hz => hus z (List.mem_cons_of_mem _ hz))
            (fun z hz => hus' z (List.mem_cons_of_mem _ hz))]

variable (text : TextKit)

/-- Either something is raised and no file has been created or changed, or every
    sheet has a file of its own that holds what the sheet converts to. -/
def AllOrNothing (sheets : List Sheet) (dir : Directory) : Prop :=
  match convert text sheets dir with
  | (after, .error _) => ∀ name, after.get? name = dir.get? name
  | (after, .ok _) => ((stackSheets sheets).map (fileName text)).Nodup ∧
      ∀ s ∈ stackSheets sheets, ∃ content, convertSheet text s = .ok content ∧
        after.get? (fileName text s) = some content

/-- A workbook that meets the format has no two sheets with one normalised name;
    and before the first sheet that violates it, every sheet, unless a later one
    before that has its normalised name, converts to what its file holds already. -/
structure Settled (sheets : List Sheet) (dir : Directory) : Prop where
  distinct : (∀ s ∈ stackSheets sheets, Converts text s) →
    ((stackSheets sheets).map (stackId text)).Nodup
  unchanged : ∀ us s vs bad post content,
    stackSheets sheets = us ++ s :: vs ++ bad :: post →
    (∀ s' ∈ us ++ s :: vs, Converts text s') → ¬ Converts text bad →
    convertSheet text s = .ok content → (∀ s' ∈ vs, stackId text s' ≠ stackId text s) →
    dir.get? (fileName text s) = some content

theorem fileName_inj {s t : Sheet} : fileName text s = fileName text t ↔
    stackId text s = stackId text t :=
  String.append_left_inj ".yaml"

theorem nodup_fileName_iff (sheets : List Sheet) :
    (sheets.map (fileName text)).Nodup ↔ (sheets.map (stackId text)).Nodup := by
  have hmap : sheets.map (fileName text)
      = (sheets.map (stackId text)).map (fun id => id ++ ".yaml") := by
    rw [List.map_map]
    rfl
  rw [hmap]
  exact List.nodup_map_iff (fun a b h => (String.append_left_inj ".yaml").mp h)

/-- The files after a conversion. -/
theorem get?_convert (sheets : List Sheet) (dir : Directory) (name : String) :
    (convert text sheets dir).1.get? name
      = ((writes text (stackSheets sheets)).reverse.lookup name).or (dir.get? name) := by
  have hfst : (convert text sheets dir).1
      = (convertSheets text (stackSheets sheets) dir).1 := rfl
  rw [hfst, convertSheets_fst, Dict.get?_foldl_set]

/-- A conversion is all or nothing exactly on a settled workbook. -/
theorem allOrNothing_iff (sheets : List Sheet) (dir : Directory) :
    AllOrNothing text sheets dir ↔ Settled text sheets dir := by
  have hafter := get?_convert text sheets dir
  have hsnd : (convert text sheets dir).2
      = (convertSheets text (stackSheets sheets) dir).2.map
          (fun names => names.insertionSort (· ≤ ·)) := rfl
  unfold AllOrNothing
  generalize convert text sheets dir = result at hafter hsnd ⊢
  rcases result with ⟨after, raised⟩
  dsimp only at hafter hsnd
  rcases convertSheets_cases text (stackSheets sheets) dir with
    ⟨hall, hok⟩ | ⟨pre, bad, post, e, hsplit, hpre, hbad, herr, hwrites⟩
  · -- Every sheet converts: the names have to be distinct.
    rw [hok] at hsnd
    subst hsnd
    constructor
    · rintro ⟨hnodup, -⟩
      refine ⟨fun _ => (nodup_fileName_iff text _).mp hnodup, ?_⟩
      intro us s vs bad post content hsplit _ hbad
      exact absurd (hall bad (hsplit ▸ List.mem_append_right _ List.mem_cons_self)) hbad
    · intro h
      have hnodup := (nodup_fileName_iff text _).mpr (h.distinct hall)
      refine ⟨hnodup, ?_⟩
      intro s hs
      obtain ⟨content, hc⟩ := hall s hs
      refine ⟨content, hc, ?_⟩
      obtain ⟨us, vs, hsplit⟩ := List.append_of_mem hs
      have hlast : ∀ s' ∈ vs, fileName text s' ≠ fileName text s := by
        rw [hsplit, List.map_append, List.map_cons] at hnodup
        have hhead := (List.nodup_cons.mp (List.nodup_append.mp hnodup).2.1).1
        intro s' hs' heq
        exact hhead (heq ▸ List.mem_map_of_mem hs')
      rw [hafter, (lookup_writes text hall (fileName text s) content).mpr
        ⟨us, s, vs, hsplit, rfl, hc, hlast⟩, Option.some_or]
  · -- A sheet violates the format: what was written before has to be there already.
    have hnot : ¬ Converts text bad := by
      rintro ⟨content, hc⟩
      rw [hbad] at hc
      cases hc
    rw [herr] at hsnd
    subst hsnd
    constructor
    · intro hsame
      refine ⟨fun hall => absurd (hall bad (hsplit ▸ List.mem_append_right _
        List.mem_cons_self)) hnot, ?_⟩
      intro us s vs bad' post' content hsplit' hpre' hbad' hc hlast
      -- There is one first sheet that violates the format.
      have hpres : pre = us ++ s :: vs :=
        eq_of_first_violation (Converts text) (hsplit.symm.trans hsplit') hpre hnot hpre' hbad'
      have hlookup := (lookup_writes text hpre (fileName text s) content).mpr
        ⟨us, s, vs, hpres, rfl, hc, fun s' hs' heq => hlast s' hs' ((fileName_inj text).mp heq)⟩
      have hheld := hafter (fileName text s)
      rw [hwrites, hlookup, Option.some_or] at hheld
      rw [← hsame, hheld]
    · intro h name
      rw [hafter, hwrites]
      cases hlookup : (writes text pre).reverse.lookup name with
      | none => exact Option.none_or
      | some content =>
          obtain ⟨us, s, vs, rfl, rfl, hc, hlast⟩ :=
            (lookup_writes text hpre name content).mp hlookup
          rw [Option.some_or]
          refine (h.unchanged us s vs bad post content hsplit hpre hnot hc ?_).symm
          intro s' hs' heq
          exact hlast s' hs' ((fileName_inj text).mpr heq)

end Atomicity

section SmallWorkbook

/-- Texts in ASCII, each in normal form as it is. -/
def asciiKit : TextKit where
  nfc := id
  ascii := id
  parseInt s := readNumeral s.toList
  safeDump _ := "nodes"
  violation _ := ""

/-- A sheet with one competency at one level. -/
def smallSheet (name : String) : Sheet where
  name := name
  rows := [requiredHeaders.map some,
    ["Core", "python.io", "IO", "IO", "1", "Reads", "Low"].map some]
  merged := []

/-- An empty second sheet is refused after the first one was written, and of two
    sheets whose names differ by a blank the second one takes the file of the
    first. -/
theorem not_allOrNothing :
    ¬ AllOrNothing asciiKit [smallSheet "python", ⟨"react", [], []⟩] .empty ∧
      ¬ AllOrNothing asciiKit [smallSheet "python", smallSheet "python "] .empty := by
  constructor
  · intro h
    have herr : (convert asciiKit [smallSheet "python", ⟨"react", [], []⟩] .empty).2
        = .error (.unknownColumn "sheet 'react': empty workbook") := by decide +kernel
    have hfile : ((convert asciiKit [smallSheet "python", ⟨"react", [], []⟩] .empty).1.get?
        "python.yaml").isSome = true := by decide +kernel
    unfold AllOrNothing at h
    generalize convert asciiKit [smallSheet "python", ⟨"react", [], []⟩] .empty = result
      at h herr hfile
    rcases result with ⟨after, raised⟩
    dsimp only at herr hfile
    subst herr
    rw [h "python.yaml"] at hfile
    cases hfile
  · intro h
    have hok : (convert asciiKit [smallSheet "python", smallSheet "python "] .empty).2
        = .ok ["python.yaml", "python.yaml"] := by decide +kernel
    unfold AllOrNothing at h
    generalize convert asciiKit [smallSheet "python", smallSheet "python "] .empty = result
      at h hok
    rcases result with ⟨after, raised⟩
    dsimp only at hok
    subst hok
    exact absurd h.1 (by decide +kernel)

end SmallWorkbook

end TechScreen.Rubric
