import TechScreen.Rubric.Convert

/-!
# What Is Read of a Sheet

A sheet that is read to its end has been read into one competency for each id. The
labels, the block, the topic and the flag of a competency are those of a row that
has its id, and every row with the id is in the block and declares one level.

The document made of the competencies has a node for each of them, and one for each
of their blocks.

## Main definitions

* `Sheet.dataRows`, `Sheet.cell`, `Blank`: The rows below the header and what is in
  them.
* `documentOf`: The document that is serialised for a sheet.
* `Reads`: What some rows have been read into.

## Theorems

* `convertSheet_eq`: What is written for a sheet is its document.
* `readRow_ok`: What the reading of a row does.
* `readRows_reads`: What a sheet is read into.
* `mem_nodesOf_iff`: The nodes of a document.
* `mem_nodesIn_documentOf`: The nodes of the document of a sheet.
-/

namespace TechScreen.Rubric

open Lib

section Cells
variable (text : TextKit)

/-- The columns of a sheet by their headers. -/
def Sheet.headers (sheet : Sheet) : Dict String Nat := headersOf text (sheet.rows.headD [])

/-- The rows below the header. -/
def Sheet.dataRows (sheet : Sheet) : List Row := sheet.rows.tail

/-- A cell of a row, under a header. -/
def Sheet.cell (sheet : Sheet) (row : Row) (name : String) : String :=
  cellAt text (sheet.headers text) row name

/-- Nothing is in any cell of the row. -/
def Blank (row : Row) : Prop := ∀ value ∈ row, norm text value = ""

instance (row : Row) : Decidable (Blank text row) :=
  inferInstanceAs (Decidable (∀ value ∈ row, _))

end Cells

section Emitted
variable (text : TextKit)

/-- `_validate_yaml`, which lets a document through. -/
def validateYaml (origin : String) (doc : Json) : Except ConvertError Json :=
  match Document.ofJson doc with
  | none => .error (.schemaViolation (origin ++ ": $" ++ text.violation doc))
  | some _ => .ok doc

/-- The document that is serialised for a sheet. -/
def documentOf (sheet : Sheet) : Except ConvertError Json := do
  let sheetName := sheet.name
  let stack := stackId text sheet
  if !isStableId stack then
    .error (.emptyRequiredCell
      s!"sheet '{sheetName}': sheet name '{stack}' is not a valid stable id")
  else
    let parsed ← readSheet text sheet
    let doc ← validateYaml text s!"sheet '{sheetName}'" (toYamlDoc (parsed.entries.map Prod.snd))
    .ok (canonical doc)

/-- What is written for a sheet is its document. -/
theorem convertSheet_eq (sheet : Sheet) : convertSheet text sheet =
    (documentOf text sheet).map (fun doc => encodeUtf8 (text.safeDump doc)) := by
  unfold convertSheet documentOf
  dsimp only
  by_cases hstack : (!isStableId (stackId text sheet)) = true
  · rw [if_pos hstack, if_pos hstack]
    rfl
  · rw [if_neg hstack, if_neg hstack]
    cases readSheet text sheet with
    | error e => rfl
    | ok parsed =>
        dsimp only [bind, Except.bind, validateYaml]
        cases Document.ofJson (toYamlDoc (parsed.entries.map Prod.snd)) with
        | none => rfl
        | some _ => rfl

/-- A sheet with a document has been read to its end. -/
theorem documentOf_ok {sheet : Sheet} {doc : Json} (h : documentOf text sheet = .ok doc) :
    ∃ parsed, readRows text sheet.name (sheet.headers text) .empty 2 sheet.dataRows = .ok parsed ∧
      (Document.ofJson (toYamlDoc (parsed.entries.map Prod.snd))).isSome = true ∧
      doc = canonical (toYamlDoc (parsed.entries.map Prod.snd)) := by
  unfold documentOf at h
  dsimp only at h
  by_cases hstack : (!isStableId (stackId text sheet)) = true
  · rw [if_pos hstack] at h
    cases h
  · rw [if_neg hstack] at h
    cases hread : readSheet text sheet with
    | error e =>
        rw [hread] at h
        cases h
    | ok parsed =>
        rw [hread] at h
        dsimp only [bind, Except.bind, validateYaml] at h
        cases hdoc : Document.ofJson (toYamlDoc (parsed.entries.map Prod.snd)) with
        | none =>
            rw [hdoc] at h
            cases h
        | some d =>
            rw [hdoc, Except.ok.injEq] at h
            refine ⟨parsed, ?_, by rw [hdoc]; rfl, h.symm⟩
            unfold readSheet at hread
            unfold Sheet.headers Sheet.dataRows
            cases hrows : sheet.rows with
            | nil =>
                rw [hrows] at hread
                cases hread
            | cons headerRow rows =>
                rw [hrows] at hread
                dsimp only at hread
                split at hread
                · cases hread
                · split at hread
                  · cases hread
                  · exact hread

end Emitted

section Rows
variable (text : TextKit)

/-- The flag that a row gives its competency. -/
def retiredFlag (cell : String → String) : Bool :=
  (norm text (some (cell "competency_retired"))).toLower = "true"

/-- The competency that a row introduces, as yet without levels. -/
def introduced (cell : String → String) : ParsedCompetency where
  id := cell "competency_id"
  blockSlug := slugify text (cell "block")
  blockLabel := cell "block"
  labelUk := cell "competency_label_uk"
  labelEn := cell "competency_label_en"
  topic := cell "topic"
  retired := retiredFlag text cell
  levels := .empty

/-- The level that a row declares. -/
def declared (cell : String → String) (level : Int) : ParsedLevel where
  level := level
  labelUk := cell "level_label_uk"
  descriptorEn := cell "descriptor_en"
  evidenceExamplesEn := splitExamples (cell "evidence_examples")

/-- A competency with one more level. -/
def ParsedCompetency.declare (comp : ParsedCompetency) (lvl : ParsedLevel) : ParsedCompetency :=
  { comp with levels := comp.levels.set lvl.level lvl }

/-- A row can be read, as far as its own cells go. -/
structure WellFormed (cell : String → String) (level : Int) : Prop where
  stable : isStableId (cell "competency_id") = true
  filled : ∀ name ∈ requiredCells, cell name ≠ ""
  parsed : text.parseInt (cell "level") = some level
  range : 1 ≤ level ∧ level ≤ 5

variable {text} {name : String} {headers : Dict String Nat}
  {parsed parsed' : Dict String ParsedCompetency} {rowIdx : Nat} {row : Row} {level : Int}

theorem competencyOf_ok {cell : String → String} {comp : ParsedCompetency}
    (h : competencyOf text name cell parsed = .ok comp) :
    (parsed.get? (cell "competency_id") = none ∧ comp = introduced text cell) ∨
      parsed.get? (cell "competency_id") = some comp ∧
        comp.blockSlug = slugify text (cell "block") := by
  unfold competencyOf at h
  cases hget : parsed.get? (cell "competency_id") with
  | none =>
      simp only [hget, Except.ok.injEq] at h
      exact Or.inl ⟨rfl, h.symm⟩
  | some old =>
      simp only [hget] at h
      by_cases hslug : old.blockSlug = slugify text (cell "block")
      · rw [if_neg (fun hne => hne hslug), Except.ok.injEq] at h
        subst h
        exact Or.inr ⟨rfl, hslug⟩
      · rw [if_pos hslug] at h
        cases h

theorem parseLevel_ok {levelStr : String} (h : parseLevel text name rowIdx levelStr = .ok level) :
    text.parseInt levelStr = some level ∧ 1 ≤ level ∧ level ≤ 5 := by
  unfold parseLevel at h
  cases hparsed : text.parseInt levelStr with
  | none =>
      simp only [hparsed] at h
      cases h
  | some n =>
      simp only [hparsed] at h
      by_cases hrange : 1 ≤ n ∧ n ≤ 5
      · rw [if_pos hrange, Except.ok.injEq] at h
        subst h
        exact ⟨rfl, hrange⟩
      · rw [if_neg hrange] at h
        cases h

theorem competencyOf_error {cell : String → String} {e : ConvertError}
    (h : competencyOf text name cell parsed = .error e) :
    ∃ message, e = .duplicateCompetencyId message := by
  unfold competencyOf at h
  dsimp only at h
  split at h
  · cases h
  · split at h
    · cases h
      exact ⟨_, rfl⟩
    · cases h

/-- What is raised for a level that the competency has. -/
def levelMessage (name : String) (rowIdx : Nat) (id : String) (level : Int) : String :=
  s!"sheet '{name}' row {rowIdx}: competency_id '{id}' " ++ s!"already declared level {level}"

/-- A row that can be read by itself declares its level, unless its competency is in
    another block or has the level. -/
theorem readRow_eq (hrow : WellFormed text (cellAt text headers row) level) :
    readRow text name headers parsed rowIdx row =
      (competencyOf text name (cellAt text headers row) parsed).bind (fun comp =>
        if (comp.levels.get? level).isSome then
          .error (.duplicateCompetencyId
            (levelMessage name rowIdx (cellAt text headers row "competency_id") level))
        else .ok (parsed.set (cellAt text headers row "competency_id")
          (comp.declare (declared (cellAt text headers row) level)))) := by
  have hne : cellAt text headers row "competency_id" ≠ "" := by
    intro hempty
    have hstable := hrow.stable
    rw [hempty] at hstable
    exact absurd hstable (by decide +kernel)
  have hfilled : requiredCells.find? (fun name => cellAt text headers row name = "") = none := by
    refine List.find?_eq_none.mpr (fun name hname => ?_)
    rw [decide_eq_true_eq]
    exact hrow.filled name hname
  have hlevel : parseLevel text name rowIdx (cellAt text headers row "level") = .ok level := by
    unfold parseLevel
    simp only [hrow.parsed]
    exact if_pos hrow.range
  unfold readRow
  dsimp only
  rw [if_neg hne, hrow.stable, if_neg (by decide)]
  simp only [hfilled, hlevel, bind, Except.bind]
  rfl

/-- A row that can be read by itself is refused for what an earlier row has declared
    only. -/
theorem readRow_error (hrow : WellFormed text (cellAt text headers row) level) {e : ConvertError}
    (h : readRow text name headers parsed rowIdx row = .error e) :
    ∃ message, e = .duplicateCompetencyId message := by
  rw [readRow_eq hrow] at h
  cases hcomp : competencyOf text name (cellAt text headers row) parsed with
  | error e' =>
      rw [hcomp] at h
      cases h
      exact competencyOf_error hcomp
  | ok comp =>
      simp only [hcomp, Except.bind] at h
      split at h
      · cases h
        exact ⟨_, rfl⟩
      · cases h

/-- What the reading of a row that is not passed over does. -/
theorem readRow_ok (h : readRow text name headers parsed rowIdx row = .ok parsed')
    (hid : cellAt text headers row "competency_id" ≠ "") :
    ∃ level comp, WellFormed text (cellAt text headers row) level ∧
      competencyOf text name (cellAt text headers row) parsed = .ok comp ∧
      comp.levels.get? level = none ∧
      parsed' = parsed.set (cellAt text headers row "competency_id")
        (comp.declare (declared (cellAt text headers row) level)) := by
  unfold readRow at h
  dsimp only at h
  rw [if_neg hid] at h
  by_cases hstable : (!isStableId (cellAt text headers row "competency_id")) = true
  · rw [if_pos hstable] at h
    cases h
  · rw [if_neg hstable] at h
    cases hfilled : requiredCells.find? (fun name => cellAt text headers row name = "") with
    | some required =>
        simp only [hfilled] at h
        cases h
    | none =>
        simp only [hfilled] at h
        cases hlevel : parseLevel text name rowIdx (cellAt text headers row "level") with
        | error e => simp only [hlevel, bind, Except.bind, reduceCtorEq] at h
        | ok level =>
            simp only [hlevel, bind, Except.bind] at h
            cases hcomp : competencyOf text name (cellAt text headers row) parsed with
            | error e => simp only [hcomp, reduceCtorEq] at h
            | ok comp =>
                simp only [hcomp] at h
                by_cases hdup : (comp.levels.get? level).isSome = true
                · rw [if_pos hdup] at h
                  cases h
                · rw [if_neg hdup, Except.ok.injEq] at h
                  obtain ⟨hparsed, hrange⟩ := parseLevel_ok hlevel
                  refine ⟨level, comp, ⟨?_, ?_, hparsed, hrange⟩, rfl, ?_, h.symm⟩
                  · rwa [Bool.not_eq_true', Bool.not_eq_false] at hstable
                  · intro required hrequired hempty
                    exact List.find?_eq_none.mp hfilled required hrequired
                      (decide_eq_true hempty)
                  · rwa [Option.isSome_iff_ne_none, not_not] at hdup

/-- What some rows have been read into: a competency is introduced by one of them,
    and each of them that has an id declares a level of its competency. -/
structure Reads (text : TextKit) (headers : Dict String Nat) (rows : List Row)
    (parsed : Dict String ParsedCompetency) : Prop where
  introduced : ∀ id comp, parsed.get? id = some comp → id ≠ "" ∧
    ∃ row ∈ rows, cellAt text headers row "competency_id" = id ∧
      { comp with levels := .empty } = introduced text (cellAt text headers row)
  kept : ∀ row ∈ rows, cellAt text headers row "competency_id" ≠ "" →
    ∃ comp level, WellFormed text (cellAt text headers row) level ∧
      parsed.get? (cellAt text headers row "competency_id") = some comp ∧
      comp.blockSlug = slugify text (cellAt text headers row "block") ∧
      comp.levels.get? level = some (declared (cellAt text headers row) level)
  levels : ∀ id comp level, parsed.get? id = some comp → (comp.levels.get? level).isSome = true →
    ∃ row ∈ rows, cellAt text headers row "competency_id" = id ∧
      WellFormed text (cellAt text headers row) level

theorem reads_nil : Reads text headers [] .empty where
  introduced _ _ h := by cases h
  kept row h := absurd h List.not_mem_nil
  levels _ _ _ h := by cases h

/-- A row is added to what the rows before it have been read into. -/
theorem readRow_reads {rows : List Row} (hreads : Reads text headers rows parsed)
    (h : readRow text name headers parsed rowIdx row = .ok parsed') :
    Reads text headers (rows ++ [row]) parsed' := by
  by_cases hid : cellAt text headers row "competency_id" = ""
  · have hsame : parsed' = parsed := by
      unfold readRow at h
      dsimp only at h
      rw [if_pos hid, Except.ok.injEq] at h
      exact h.symm
    subst hsame
    refine ⟨fun id comp hget => ?_, fun r hr hne => ?_, fun id comp level hget hlevel => ?_⟩
    · obtain ⟨hne, r, hr, hrest⟩ := hreads.introduced id comp hget
      exact ⟨hne, r, List.mem_append_left _ hr, hrest⟩
    · rcases List.mem_append.mp hr with hr | hr
      · exact hreads.kept r hr hne
      · rw [List.mem_singleton.mp hr] at hne
        exact absurd hid hne
    · obtain ⟨r, hr, hrest⟩ := hreads.levels id comp level hget hlevel
      exact ⟨r, List.mem_append_left _ hr, hrest⟩
  · obtain ⟨level, comp, hrow, hcomp, hfresh, rfl⟩ := readRow_ok h hid
    -- The competency is the row's own, or an earlier row has introduced it.
    have hfrom : comp.blockSlug = slugify text (cellAt text headers row "block") ∧
        ∃ r ∈ rows ++ [row], cellAt text headers r "competency_id"
            = cellAt text headers row "competency_id" ∧
          { comp with levels := .empty } = introduced text (cellAt text headers r) := by
      rcases competencyOf_ok hcomp with ⟨-, rfl⟩ | ⟨hget, hslug⟩
      · exact ⟨rfl, row, List.mem_append_right _ List.mem_cons_self, rfl, rfl⟩
      · obtain ⟨-, r, hr, hsame, hbare⟩ := hreads.introduced _ comp hget
        exact ⟨hslug, r, List.mem_append_left _ hr, hsame, hbare⟩
    obtain ⟨hslug, hbare⟩ := hfrom
    refine ⟨fun id c hget => ?_, fun r hr hne => ?_, fun id c l hget hl => ?_⟩
    · by_cases hkey : id = cellAt text headers row "competency_id"
      · rw [hkey, Dict.get?_set_self, Option.some.injEq] at hget
        subst hget
        obtain ⟨r, hr, hsame, hr'⟩ := hbare
        exact ⟨hkey ▸ hid, r, hr, hsame.trans hkey.symm, hr'⟩
      · rw [Dict.get?_set_of_ne _ _ _ _ hkey] at hget
        obtain ⟨hne, r, hr, hrest⟩ := hreads.introduced id c hget
        exact ⟨hne, r, List.mem_append_left _ hr, hrest⟩
    · rcases List.mem_append.mp hr with hr | hr
      · obtain ⟨c, l, hwell, hget, hblock, hlevel⟩ := hreads.kept r hr hne
        by_cases hkey : cellAt text headers r "competency_id"
            = cellAt text headers row "competency_id"
        · -- A competency that is written again has the levels it had.
          rcases competencyOf_ok hcomp with ⟨hnone, -⟩ | ⟨hold, -⟩
          · rw [hkey, hnone] at hget
            cases hget
          · rw [hkey, hold, Option.some.injEq] at hget
            subst hget
            have hother : l ≠ level := by
              intro he
              rw [he, hfresh] at hlevel
              cases hlevel
            refine ⟨comp.declare (declared (cellAt text headers row) level), l, hwell,
              by rw [hkey, Dict.get?_set_self], hblock, ?_⟩
            exact (Dict.get?_set_of_ne _ _ _ _ hother).trans hlevel
        · exact ⟨c, l, hwell, by rw [Dict.get?_set_of_ne _ _ _ _ hkey, hget], hblock, hlevel⟩
      · rw [List.mem_singleton.mp hr]
        exact ⟨_, level, hrow, Dict.get?_set_self _ _ _, hslug, Dict.get?_set_self _ _ _⟩
    · by_cases hkey : id = cellAt text headers row "competency_id"
      · rw [hkey, Dict.get?_set_self, Option.some.injEq] at hget
        subst hget
        by_cases hown : l = level
        · exact ⟨row, List.mem_append_right _ List.mem_cons_self, hkey.symm, hown ▸ hrow⟩
        · have hold : (comp.levels.get? l).isSome = true := by
            rwa [show (comp.declare (declared (cellAt text headers row) level)).levels.get? l =
              comp.levels.get? l from Dict.get?_set_of_ne _ _ _ _ hown] at hl
          rcases competencyOf_ok hcomp with ⟨-, rfl⟩ | ⟨hget, -⟩
          · cases hold
          · obtain ⟨r, hr, hsame, hwell⟩ := hreads.levels _ comp l hget hold
            exact ⟨r, List.mem_append_left _ hr, hsame.trans hkey.symm, hwell⟩
      · rw [Dict.get?_set_of_ne _ _ _ _ hkey] at hget
        obtain ⟨r, hr, hrest⟩ := hreads.levels id c l hget hl
        exact ⟨r, List.mem_append_left _ hr, hrest⟩

/-- What the rows of a sheet are read into. -/
theorem readRows_reads {rows rest : List Row} (hreads : Reads text headers rows parsed)
    (h : readRows text name headers parsed rowIdx rest = .ok parsed') :
    Reads text headers (rows ++ rest) parsed' := by
  induction rest generalizing rows parsed rowIdx with
  | nil =>
      rw [readRows, Except.ok.injEq] at h
      rw [List.append_nil, ← h]
      exact hreads
  | cons row rest ih =>
      rw [readRows] at h
      cases hrow : readRow text name headers parsed rowIdx row with
      | error e => simp only [hrow, bind, Except.bind, reduceCtorEq] at h
      | ok next =>
          simp only [hrow, bind, Except.bind] at h
          have hnext := ih (readRow_reads hreads hrow) h
          rwa [List.append_assoc] at hnext

end Rows

section Nodes

theorem get?_mapField (key name : String) (f : Json → Json) (j : Json) :
    (mapField key f j).get? name = if name = key then (j.get? name).map f else j.get? name := by
  have hlookup (fields : List (String × Json)) :
      (fields.map (fun p => if p.1 = key then (p.1, f p.2) else p)).lookup name =
        if name = key then (fields.lookup name).map f else fields.lookup name := by
    induction fields with
    | nil =>
        rw [List.map_nil, List.lookup_nil, Option.map_none, ite_self]
    | cons field fields ih =>
        obtain ⟨k, v⟩ := field
        rw [List.map_cons]
        by_cases hk : name = k
        · subst hk
          by_cases hkey : name = key
          · rw [if_pos hkey, if_pos hkey, List.lookup_cons_self, List.lookup_cons_self,
              Option.map_some]
          · rw [if_neg hkey, if_neg hkey, List.lookup_cons_self, List.lookup_cons_self]
        · have hne : (name == k) = false := beq_eq_false_iff_ne.mpr hk
          by_cases hkey : k = key
          · rw [if_pos hkey, List.lookup_cons, hne, List.lookup_cons, hne, ih]
          · rw [if_neg hkey, List.lookup_cons, hne, List.lookup_cons, hne, ih]
  cases j with
  | obj fields => exact hlookup fields
  | null | bool | int | float | str | arr =>
      change none = ite _ (Option.map f none) none
      rw [Option.map_none, ite_self]

theorem get?_withSortedLevels {name : String} (h : name ≠ "levels") (node : Json) :
    (withSortedLevels node).get? name = node.get? name := by
  rw [withSortedLevels, get?_mapField, if_neg h]

/-- Sorting keeps the levels of a node. -/
theorem levelsIn_withSortedLevels (node : Json) :
    (levelsIn (withSortedLevels node)).Perm (levelsIn node) := by
  unfold levelsIn withSortedLevels
  rw [get?_mapField, if_pos rfl]
  cases node.get? "levels" with
  | none => exact List.Perm.refl _
  | some levels =>
      cases levels with
      | arr items => exact sortOn_perm levelKey items
      | null | bool | int | float | str | obj => exact List.Perm.refl _

/-- Sorting keeps the nodes of a document. -/
theorem nodesIn_canonical (doc : Json) :
    (nodesIn (canonical doc)).Perm ((nodesIn doc).map withSortedLevels) := by
  cases doc with
  | obj fields =>
      unfold canonical
      rw [nodesIn, Json.get?_set, if_pos rfl]
      exact (sortOn_perm idKey _).map withSortedLevels
  | null | bool | int | float | str | arr => exact List.Perm.refl _

theorem nodesIn_toYamlDoc (competencies : List ParsedCompetency) :
    nodesIn (toYamlDoc competencies) = nodesOf [] competencies := rfl

/-- The competencies that bring in a block. -/
def opening : List String → List ParsedCompetency → List ParsedCompetency
  | _, [] => []
  | blocks, comp :: rest =>
      if comp.blockSlug ∈ blocks then opening blocks rest
      else comp :: opening (comp.blockSlug :: blocks) rest

theorem opening_sublist (blocks : List String) (competencies : List ParsedCompetency) :
    (opening blocks competencies).Sublist competencies := by
  induction competencies generalizing blocks with
  | nil => exact List.Sublist.slnil
  | cons comp rest ih =>
      rw [opening]
      by_cases hold : comp.blockSlug ∈ blocks
      · rw [if_pos hold]
        exact (ih blocks).cons comp
      · rw [if_neg hold]
        exact (ih (comp.blockSlug :: blocks)).cons_cons comp

/-- The block of every competency has been brought in. -/
theorem exists_opening {blocks : List String} {competencies : List ParsedCompetency}
    {comp : ParsedCompetency} (h : comp ∈ competencies) :
    comp.blockSlug ∈ blocks ∨
      ∃ first ∈ opening blocks competencies, first.blockSlug = comp.blockSlug := by
  induction competencies generalizing blocks with
  | nil => exact absurd h List.not_mem_nil
  | cons c rest ih =>
      rw [opening]
      by_cases hold : c.blockSlug ∈ blocks
      · rw [if_pos hold]
        rcases List.mem_cons.mp h with rfl | h
        · exact Or.inl hold
        · exact ih h
      · rw [if_neg hold]
        rcases List.mem_cons.mp h with rfl | h
        · exact Or.inr ⟨comp, List.mem_cons_self, rfl⟩
        · rcases ih h with hmem | ⟨first, hfirst, hslug⟩
          · rcases List.mem_cons.mp hmem with hsame | hmem
            · exact Or.inr ⟨c, List.mem_cons_self, hsame.symm⟩
            · exact Or.inl hmem
          · exact Or.inr ⟨first, List.mem_cons_of_mem _ hfirst, hslug⟩

/-- A document has a node for each competency, and one for each that brings in a
    block. -/
theorem mem_nodesOf_iff (blocks : List String) (competencies : List ParsedCompetency)
    (node : Json) : node ∈ nodesOf blocks competencies ↔
      (∃ comp ∈ competencies, node = competencyNode comp) ∨
      ∃ comp ∈ opening blocks competencies, node = blockNode comp := by
  induction competencies generalizing blocks with
  | nil =>
      rw [nodesOf, opening]
      simp only [List.not_mem_nil, false_and, exists_false, or_self]
  | cons comp rest ih =>
      rw [nodesOf, opening]
      by_cases hold : comp.blockSlug ∈ blocks
      · rw [if_pos hold, if_pos hold, List.mem_cons, ih blocks]
        simp only [List.mem_cons, exists_eq_or_imp, or_assoc]
      · rw [if_neg hold, if_neg hold, List.mem_cons, List.mem_cons, ih (comp.blockSlug :: blocks)]
        simp only [List.mem_cons, exists_eq_or_imp, or_assoc, or_left_comm]

theorem levelsIn_competencyNode (comp : ParsedCompetency) :
    levelsIn (competencyNode comp) = comp.levels.entries.map (fun p => levelToJson p.2) := by
  unfold competencyNode
  by_cases hnone : comp.levels.entries = []
  · rw [if_pos hnone, hnone]
    rfl
  · rw [if_neg hnone]
    rfl

/-- The nodes of the document of a sheet. -/
theorem mem_nodesIn_documentOf {text : TextKit} {sheet : Sheet} {doc : Json}
    (h : documentOf text sheet = .ok doc) :
    ∃ parsed, Reads text (sheet.headers text) sheet.dataRows parsed ∧
      ∀ node, node ∈ nodesIn doc ↔ ∃ n, withSortedLevels n = node ∧
        ((∃ comp ∈ parsed.entries.map Prod.snd, n = competencyNode comp) ∨
          ∃ comp ∈ opening [] (parsed.entries.map Prod.snd), n = blockNode comp) := by
  obtain ⟨parsed, hread, -, rfl⟩ := documentOf_ok text h
  refine ⟨parsed, readRows_reads reads_nil hread, fun node => ?_⟩
  rw [(nodesIn_canonical _).mem_iff, nodesIn_toYamlDoc, List.mem_map]
  simp only [mem_nodesOf_iff, and_comm]

end Nodes

end TechScreen.Rubric
