import TechScreen.Rubric.SheetRows

/-!
# Whether a Conversion Keeps Every Row

A row of an accepted sheet can leave no trace in the document in three ways. A row
without a competency is passed over, whatever else it has; the topic of a row is
read and not written; and the labels and the flag of a competency are those of the
row that introduces it, whatever the later rows say. Everything else of a row is in
the document.

## Main definitions

* `Shown`: A row is in a document, with everything that it says.
* `KeepsRows`: Every row of a sheet is in its document.
* `Plain`: What a sheet has to be like.

## Theorems

* `topic_of_shown`: A row with a topic is not in the document.
* `keepsRows_iff_plain`: When a conversion keeps every row.
* `topic_lost`: A topic that gets lost.
-/

namespace TechScreen.Rubric

open Lib

section Showing
variable (text : TextKit)

/-- A node is that of the competency of a row. -/
structure CompetencyShown (cell : String → String) (node : Json) : Prop where
  id : node.get? "id" = some (.str (cell "competency_id"))
  labelUk : node.get? "label_uk" = some (.str (cell "competency_label_uk"))
  labelEn : node.get? "label_en" = some (.str (cell "competency_label_en"))
  retired : node.get? "retired" = some (.bool (retiredFlag text cell))

/-- A level is the one that a row declares. -/
structure LevelShown (cell : String → String) (lvl : Json) : Prop where
  level : ∃ n, text.parseInt (cell "level") = some n ∧ lvl.get? "level" = some (.int n)
  labelUk : lvl.get? "label_uk" = some (.str (cell "level_label_uk"))
  descriptorEn : lvl.get? "descriptor_en" = some (.str (cell "descriptor_en"))
  evidenceExamplesEn : itemsOf (lvl.get? "evidence_examples_en") =
    (splitExamples (cell "evidence_examples")).map Json.str

/-- The topic of a row is a field of its competency or its level, or it is the label of
    a node under the competency. -/
def TopicShown (sheet : Sheet) (doc : Json) (cell : String → String) (node lvl : Json) : Prop :=
  node.get? "topic" = some (.str (cell "topic")) ∨ lvl.get? "topic" = some (.str (cell "topic")) ∨
    ∃ child ∈ nodesIn doc, child.get? "parent" = some (.str (cell "competency_id")) ∧
      (∀ row ∈ sheet.dataRows,
        child.get? "id" ≠ some (.str (sheet.cell text row "competency_id"))) ∧
      (child.get? "label_en" = some (.str (cell "topic")) ∨
        child.get? "label_uk" = some (.str (cell "topic")))

/-- A row is in a document, with everything that it says. -/
def Shown (sheet : Sheet) (doc : Json) (row : Row) : Prop :=
  ∃ node ∈ nodesIn doc, ∃ lvl ∈ levelsIn node,
    CompetencyShown text (sheet.cell text row) node ∧ LevelShown text (sheet.cell text row) lvl ∧
      (sheet.cell text row "topic" ≠ "" →
        TopicShown text sheet doc (sheet.cell text row) node lvl)

/-- Two rows say the same of their competency. -/
structure Agree (cell cell' : String → String) : Prop where
  labelUk : cell "competency_label_uk" = cell' "competency_label_uk"
  labelEn : cell "competency_label_en" = cell' "competency_label_en"
  retired : retiredFlag text cell = retiredFlag text cell'

instance (cell cell' : String → String) : Decidable (Agree text cell cell') :=
  decidable_of_iff (cell "competency_label_uk" = cell' "competency_label_uk" ∧
      cell "competency_label_en" = cell' "competency_label_en" ∧
      retiredFlag text cell = retiredFlag text cell')
    ⟨fun h => ⟨h.1, h.2.1, h.2.2⟩, fun h => ⟨h.labelUk, h.labelEn, h.retired⟩⟩

/-- The rows of one competency say the same of it. -/
def Agreeing (sheet : Sheet) : Prop :=
  ∀ row ∈ sheet.dataRows, ∀ row' ∈ sheet.dataRows, sheet.cell text row "competency_id" ≠ "" →
    sheet.cell text row "competency_id" = sheet.cell text row' "competency_id" →
    Agree text (sheet.cell text row) (sheet.cell text row')

instance (sheet : Sheet) : Decidable (Agreeing text sheet) :=
  inferInstanceAs (Decidable (∀ row ∈ sheet.dataRows, ∀ row' ∈ sheet.dataRows, _))

/-- Every row of a sheet is in its document, and none that lacks a cell or contradicts
    another has been accepted. -/
structure KeepsRows (sheet : Sheet) (doc : Json) : Prop where
  shown : ∀ row ∈ sheet.dataRows, ¬ Blank text row → Shown text sheet doc row
  filled : ∀ row ∈ sheet.dataRows, ¬ Blank text row →
    ∀ name ∈ "competency_id" :: requiredCells, sheet.cell text row name ≠ ""
  agreeing : Agreeing text sheet

/-- What a sheet has to be like: every row has a competency and no topic, and the rows of
    one competency say the same of it. -/
structure Plain (sheet : Sheet) : Prop where
  identified : ∀ row ∈ sheet.dataRows, ¬ Blank text row → sheet.cell text row "competency_id" ≠ ""
  untopical : ∀ row ∈ sheet.dataRows, ¬ Blank text row → sheet.cell text row "topic" = ""
  agreeing : Agreeing text sheet

end Showing

section Keeping

variable {text : TextKit} {sheet : Sheet} {doc : Json}

theorem topic_competencyNode (comp : ParsedCompetency) :
    (competencyNode comp).get? "topic" = none := by
  unfold competencyNode
  split <;> rfl

theorem topic_levelToJson (lvl : ParsedLevel) : (levelToJson lvl).get? "topic" = none := by
  unfold levelToJson
  split <;> rfl

/-- A row that is in the document has no topic. -/
theorem topic_of_shown (h : documentOf text sheet = .ok doc) {row : Row}
    (hshown : Shown text sheet doc row) : sheet.cell text row "topic" = "" := by
  obtain ⟨parsed, hreads, hnodes⟩ := mem_nodesIn_documentOf h
  obtain ⟨node, hnode, lvl, hlvl, -, -, htopic⟩ := hshown
  obtain ⟨n, rfl, hn⟩ := (hnodes node).mp hnode
  rw [(levelsIn_withSortedLevels n).mem_iff] at hlvl
  by_contra hne
  rcases htopic hne with hfield | hfield | ⟨child, hchild, hparent, hother, -⟩
  · rw [get?_withSortedLevels (by decide)] at hfield
    rcases hn with ⟨comp, -, rfl⟩ | ⟨comp, -, rfl⟩
    · rw [topic_competencyNode] at hfield
      cases hfield
    · cases hfield
  · rcases hn with ⟨comp, -, rfl⟩ | ⟨comp, -, rfl⟩
    · rw [levelsIn_competencyNode] at hlvl
      obtain ⟨entry, -, rfl⟩ := List.mem_map.mp hlvl
      rw [topic_levelToJson] at hfield
      cases hfield
    · exact absurd hlvl List.not_mem_nil
  · -- A node with a parent is that of a competency, which has a row.
    obtain ⟨m, rfl, ⟨comp, hcomp, rfl⟩ | ⟨comp, -, rfl⟩⟩ := (hnodes child).mp hchild
    · obtain ⟨entry, hentry, rfl⟩ := List.mem_map.mp hcomp
      obtain ⟨-, r, hr, hid, hbare⟩ :=
        hreads.introduced entry.1 entry.2 ((Dict.get?_eq_some_iff _ _ _).mpr hentry)
      refine hother r hr ?_
      rw [get?_withSortedLevels (by decide)]
      exact congrArg (fun c => some (Json.str c.id)) hbare
    · rw [get?_withSortedLevels (by decide)] at hparent
      cases hparent

/-- The level that a row declares is written with everything that the row says of it. -/
theorem levelShown_declared {cell : String → String} {level : Int}
    (hparsed : text.parseInt (cell "level") = some level) :
    LevelShown text cell (levelToJson (declared cell level)) := by
  unfold levelToJson
  by_cases hnone : (declared cell level).evidenceExamplesEn = []
  · rw [if_pos hnone]
    refine ⟨⟨level, hparsed, rfl⟩, rfl, rfl, ?_⟩
    have hsplit : splitExamples (cell "evidence_examples") = [] := hnone
    rw [hsplit]
    rfl
  · rw [if_neg hnone]
    exact ⟨⟨level, hparsed, rfl⟩, rfl, rfl, rfl⟩

/-- A competency is written with what the row that introduces it says. -/
theorem competencyShown_introduced {comp : ParsedCompetency} {cell : String → String}
    (hbare : { comp with levels := .empty } = introduced text cell) :
    CompetencyShown text cell (competencyNode comp) := by
  have hfield {α : Type} (f : ParsedCompetency → α) :
      f { comp with levels := .empty } = f (introduced text cell) := congrArg f hbare
  have hid : comp.id = cell "competency_id" := hfield ParsedCompetency.id
  have hlabelUk : comp.labelUk = cell "competency_label_uk" := hfield ParsedCompetency.labelUk
  have hlabelEn : comp.labelEn = cell "competency_label_en" := hfield ParsedCompetency.labelEn
  have hretired : comp.retired = retiredFlag text cell := hfield ParsedCompetency.retired
  unfold competencyNode
  rw [hid, hlabelUk, hlabelEn, hretired]
  split
  · exact ⟨rfl, rfl, rfl, rfl⟩
  · exact ⟨rfl, rfl, rfl, rfl⟩

theorem CompetencyShown.congr {cell cell' : String → String} {node : Json}
    (hid : cell "competency_id" = cell' "competency_id") (hagree : Agree text cell cell')
    (h : CompetencyShown text cell' node) : CompetencyShown text cell node := by
  refine ⟨?_, ?_, ?_, ?_⟩
  · rw [hid, h.id]
  · rw [hagree.labelUk, h.labelUk]
  · rw [hagree.labelEn, h.labelEn]
  · rw [hagree.retired, h.retired]

/-- A row with a competency and no topic is in the document, if no other row contradicts
    it. -/
theorem shown_of_agreeing (h : documentOf text sheet = .ok doc) (hagreeing : Agreeing text sheet)
    {row : Row} (hrow : row ∈ sheet.dataRows) (hid : sheet.cell text row "competency_id" ≠ "")
    (htopic : sheet.cell text row "topic" = "") : Shown text sheet doc row := by
  obtain ⟨parsed, hreads, hnodes⟩ := mem_nodesIn_documentOf h
  obtain ⟨comp, level, hwell, hget, -, hlevel⟩ := hreads.kept row hrow hid
  obtain ⟨-, r, hr, hsame, hbare⟩ := hreads.introduced _ comp hget
  have hcomp : comp ∈ parsed.entries.map Prod.snd :=
    List.mem_map.mpr ⟨_, (Dict.get?_eq_some_iff _ _ _).mp hget, rfl⟩
  have hshown : CompetencyShown text (sheet.cell text row) (competencyNode comp) :=
    (competencyShown_introduced hbare).congr hsame.symm (hagreeing row hrow r hr hid hsame.symm)
  refine ⟨withSortedLevels (competencyNode comp),
    (hnodes _).mpr ⟨_, rfl, Or.inl ⟨comp, hcomp, rfl⟩⟩,
    levelToJson (declared (sheet.cell text row) level), ?_, ⟨?_, ?_, ?_, ?_⟩,
    levelShown_declared hwell.parsed, fun hne => absurd htopic hne⟩
  · rw [(levelsIn_withSortedLevels _).mem_iff, levelsIn_competencyNode]
    exact List.mem_map.mpr ⟨_, (Dict.get?_eq_some_iff _ _ _).mp hlevel, rfl⟩
  · rw [get?_withSortedLevels (by decide), hshown.id]
  · rw [get?_withSortedLevels (by decide), hshown.labelUk]
  · rw [get?_withSortedLevels (by decide), hshown.labelEn]
  · rw [get?_withSortedLevels (by decide), hshown.retired]

/-- A conversion keeps every row exactly when the sheet is plain. -/
theorem keepsRows_iff_plain (h : documentOf text sheet = .ok doc) :
    KeepsRows text sheet doc ↔ Plain text sheet := by
  constructor
  · intro hkeeps
    refine ⟨fun row hrow hblank => ?_, fun row hrow hblank => ?_, hkeeps.agreeing⟩
    · exact hkeeps.filled row hrow hblank "competency_id" List.mem_cons_self
    · exact topic_of_shown h (hkeeps.shown row hrow hblank)
  · intro hplain
    refine ⟨fun row hrow hblank => ?_, fun row hrow hblank name hname => ?_, hplain.agreeing⟩
    · exact shown_of_agreeing h hplain.agreeing hrow (hplain.identified row hrow hblank)
        (hplain.untopical row hrow hblank)
    · have hid := hplain.identified row hrow hblank
      rcases List.mem_cons.mp hname with rfl | hname
      · exact hid
      · obtain ⟨parsed, hreads, -⟩ := mem_nodesIn_documentOf h
        obtain ⟨_, _, hwell, -⟩ := hreads.kept row hrow hid
        exact hwell.filled name hname

end Keeping

section Examples

/-- A sheet with one competency at two levels. -/
def ladderSheet (topic : String) : Sheet where
  name := "python"
  rows := [(requiredHeaders ++ ["topic"]).map some,
    ["Core", "python.io", "IO", "IO", "1", "Reads", "Low", ""].map some,
    ["Core", "python.io", "IO", "IO", "3", "Writes", "High", topic].map some]
  merged := []

theorem keepsRows_iff_plain_ladder : ∃ doc, documentOf asciiKit (ladderSheet "") = .ok doc ∧
    (KeepsRows asciiKit (ladderSheet "") doc ↔ Plain asciiKit (ladderSheet "")) ∧
    KeepsRows asciiKit (ladderSheet "") doc := by
  have hok : (documentOf asciiKit (ladderSheet "")).toOption.isSome = true := by decide +kernel
  cases hdoc : documentOf asciiKit (ladderSheet "") with
  | error e =>
      rw [hdoc] at hok
      cases hok
  | ok doc =>
      have hplain : Plain asciiKit (ladderSheet "") :=
        ⟨by decide +kernel, by decide +kernel, by decide +kernel⟩
      have hiff := keepsRows_iff_plain hdoc
      exact ⟨doc, rfl, hiff, hiff.mpr hplain⟩

/-- The topic of the second row is nowhere in the document. -/
theorem topic_lost : ∃ doc, documentOf asciiKit (ladderSheet "Asyncio") = .ok doc ∧
    ¬ KeepsRows asciiKit (ladderSheet "Asyncio") doc := by
  have hok : (documentOf asciiKit (ladderSheet "Asyncio")).toOption.isSome = true := by
    decide +kernel
  cases hdoc : documentOf asciiKit (ladderSheet "Asyncio") with
  | error e =>
      rw [hdoc] at hok
      cases hok
  | ok doc =>
      refine ⟨doc, rfl, fun hkeeps => ?_⟩
      have hshown := hkeeps.shown
        (["Core", "python.io", "IO", "IO", "3", "Writes", "High", "Asyncio"].map some)
        (by decide +kernel) (by decide +kernel)
      exact absurd (topic_of_shown hdoc hshown) (by decide +kernel)

end Examples

end TechScreen.Rubric
