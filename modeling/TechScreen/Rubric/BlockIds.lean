import TechScreen.Rubric.SheetRows

/-!
# Whether Blocks Keep Their Identity

A block has no id of its own in a workbook. Its node gets one that is made of the
ASCII letters and digits of its name, and from then on this is all that the importer
knows the block by: two blocks with one such id are one node, with the name of the
first of them, and the check that a competency is in one block only compares the
ids. A competency may also have the id of a block.

## Main definitions

* `PlacedUnder`: The node that a competency is under.
* `BlocksApart`: The blocks of an accepted sheet have nodes of their own.
* `Reached`: The reading of a sheet gets as far as a row.
* `KeepsBlocks`: The blocks of a sheet keep their identity.
* `Separated`: What a sheet has to be like.

## Theorems

* `placedUnder_iff`: The node that the competency of a row is under.
* `keepsBlocks_iff_separated`: When blocks keep their identity.
* `blocks_merged`: Two blocks that are taken for one.
-/

namespace TechScreen.Rubric

open Lib

section Identity
variable (text : TextKit)

/-- A competency is under a node. -/
def PlacedUnder (doc : Json) (id parent : String) : Prop :=
  ∃ node ∈ nodesIn doc, node.get? "id" = some (.str id) ∧ node.get? "parent" = some (.str parent)

/-- A node that is under no other. -/
def isBlock (node : Json) : Bool :=
  match node.get? "parent" with
  | some .null => true
  | _ => false

/-- The rows with a competency. -/
def Sheet.entries (sheet : Sheet) : List Row :=
  sheet.dataRows.filter (fun row => sheet.cell text row "competency_id" ≠ "")

/-- Competencies are under the node of their block, which has its name, and which no other
    block and no competency has the id of. -/
structure BlocksApart (sheet : Sheet) (doc : Json) : Prop where
  placed : ∀ row ∈ sheet.entries text, ∃ node ∈ nodesIn doc, isBlock node = true ∧
    PlacedUnder doc (sheet.cell text row "competency_id") (idKey node)
  same : ∀ row ∈ sheet.entries text, ∀ row' ∈ sheet.entries text, ∀ parent parent',
    PlacedUnder doc (sheet.cell text row "competency_id") parent →
    PlacedUnder doc (sheet.cell text row' "competency_id") parent' →
    (parent = parent' ↔ sheet.cell text row "block" = sheet.cell text row' "block")
  apart : ∀ node ∈ nodesIn doc, isBlock node = true → ∀ row ∈ sheet.entries text,
    node.get? "id" ≠ some (.str (sheet.cell text row "competency_id"))
  nodup : (((nodesIn doc).filter isBlock).map idKey).Nodup
  label : ∀ node ∈ nodesIn doc, isBlock node = true → ∀ row ∈ sheet.entries text,
    PlacedUnder doc (sheet.cell text row "competency_id") (idKey node) →
    node.get? "label_en" = some (.str (sheet.cell text row "block")) ∧
      node.get? "label_uk" = some (.str (sheet.cell text row "block"))

/-- A sheet with other rows below the header. -/
def Sheet.withRows (sheet : Sheet) (rows : List Row) : Sheet :=
  { sheet with rows := sheet.rows.take 1 ++ rows }

/-- The reading of a sheet gets as far as a row, which can be read by itself. -/
structure Reached (sheet : Sheet) (us : List Row) (row : Row) (level : Int) : Prop where
  rows : ∃ vs, sheet.dataRows = us ++ row :: vs
  stack : isStableId (stackId text sheet) = true
  read : ∃ parsed, readSheet text (sheet.withRows us) = .ok parsed
  wellFormed : WellFormed text (sheet.cell text row) level

/-- The blocks of a sheet keep their identity: they do in its document, and a competency
    that is used under two names is refused as a duplicate, whatever follows. -/
structure KeepsBlocks (sheet : Sheet) : Prop where
  accepted : ∀ doc, documentOf text sheet = .ok doc → BlocksApart text sheet doc
  refused : ∀ us row level, Reached text sheet us row level → ∀ r ∈ us,
    sheet.cell text r "competency_id" = sheet.cell text row "competency_id" →
    sheet.cell text r "block" ≠ sheet.cell text row "block" → ∀ vs,
      ∃ message, documentOf text (sheet.withRows (us ++ row :: vs)) =
        .error (.duplicateCompetencyId message)

/-- What a sheet has to be like. If it is accepted, its blocks have different ids, which
    no competency has. And where the reading gets to a competency that an earlier row
    has under another name, the names have different ids, or an earlier row has
    declared the level too. -/
structure Separated (sheet : Sheet) : Prop where
  slugs : (∃ doc, documentOf text sheet = .ok doc) → ∀ row ∈ sheet.entries text,
    ∀ row' ∈ sheet.entries text,
      slugify text (sheet.cell text row "block") = slugify text (sheet.cell text row' "block") →
      sheet.cell text row "block" = sheet.cell text row' "block"
  ids : (∃ doc, documentOf text sheet = .ok doc) → ∀ row ∈ sheet.entries text,
    ∀ row' ∈ sheet.entries text,
      "block." ++ slugify text (sheet.cell text row "block") ≠
        sheet.cell text row' "competency_id"
  names : ∀ us row level, Reached text sheet us row level → ∀ r ∈ us,
    sheet.cell text r "competency_id" = sheet.cell text row "competency_id" →
    sheet.cell text r "block" ≠ sheet.cell text row "block" →
    slugify text (sheet.cell text r "block") ≠ slugify text (sheet.cell text row "block") ∨
      ∃ r' ∈ us, sheet.cell text r' "competency_id" = sheet.cell text row "competency_id" ∧
        WellFormed text (sheet.cell text r') level

end Identity

section Placing

variable {text : TextKit} {sheet : Sheet} {doc : Json}

theorem isBlock_withSortedLevels (node : Json) :
    isBlock (withSortedLevels node) = isBlock node := by
  unfold isBlock
  rw [get?_withSortedLevels (by decide)]

theorem idKey_withSortedLevels (node : Json) : idKey (withSortedLevels node) = idKey node := by
  unfold idKey
  rw [get?_withSortedLevels (by decide)]

theorem parent_competencyNode (comp : ParsedCompetency) :
    (competencyNode comp).get? "parent" = some (.str ("block." ++ comp.blockSlug)) := rfl

theorem id_competencyNode (comp : ParsedCompetency) :
    (competencyNode comp).get? "id" = some (.str comp.id) := rfl

theorem isBlock_competencyNode (comp : ParsedCompetency) :
    isBlock (competencyNode comp) = false := by
  unfold isBlock
  rw [parent_competencyNode]

theorem mem_entries {row : Row} : row ∈ sheet.entries text ↔
    row ∈ sheet.dataRows ∧ sheet.cell text row "competency_id" ≠ "" := by
  unfold Sheet.entries
  rw [List.mem_filter, decide_eq_true_eq]

/-- The competency of a row is under the node that is named after its block. -/
theorem placedUnder_iff (h : documentOf text sheet = .ok doc) {row : Row}
    (hrow : row ∈ sheet.entries text) {parent : String} :
    PlacedUnder doc (sheet.cell text row "competency_id") parent ↔
      parent = "block." ++ slugify text (sheet.cell text row "block") := by
  obtain ⟨parsed, hreads, hnodes⟩ := mem_nodesIn_documentOf h
  obtain ⟨hmem, hid⟩ := mem_entries.mp hrow
  obtain ⟨comp, level, -, hget, hslug, -⟩ := hreads.kept row hmem hid
  have hkey {id : String} {c : ParsedCompetency} (hc : parsed.get? id = some c) : c.id = id := by
    obtain ⟨-, r, -, hsame, hbare⟩ := hreads.introduced id c hc
    exact (congrArg ParsedCompetency.id hbare).trans hsame
  constructor
  · rintro ⟨node, hnode, hnodeId, hparent⟩
    obtain ⟨n, rfl, ⟨c, hc, rfl⟩ | ⟨c, -, rfl⟩⟩ := (hnodes node).mp hnode
    · rw [get?_withSortedLevels (by decide), id_competencyNode, Option.some.injEq,
        Json.str.injEq] at hnodeId
      rw [get?_withSortedLevels (by decide), parent_competencyNode, Option.some.injEq,
        Json.str.injEq] at hparent
      obtain ⟨entry, hentry, rfl⟩ := List.mem_map.mp hc
      have hc := (Dict.get?_eq_some_iff _ _ _).mpr hentry
      have hsame : entry.1 = sheet.cell text row "competency_id" := (hkey hc).symm.trans hnodeId
      have hcomp : comp = entry.2 := by
        rw [hsame] at hc
        exact Option.some.inj (hget.symm.trans hc)
      rw [← hparent, ← hcomp, hslug]
      rfl
    · rw [get?_withSortedLevels (by decide)] at hparent
      cases hparent
  · rintro rfl
    refine ⟨withSortedLevels (competencyNode comp), (hnodes _).mpr ⟨_, rfl, Or.inl ⟨comp, ?_, rfl⟩⟩,
      ?_, ?_⟩
    · exact List.mem_map.mpr ⟨_, (Dict.get?_eq_some_iff _ _ _).mp hget, rfl⟩
    · rw [get?_withSortedLevels (by decide), id_competencyNode, hkey hget]
      rfl
    · rw [get?_withSortedLevels (by decide), parent_competencyNode, hslug]
      rfl

/-- A block node is named after the block of a row. -/
theorem exists_entry_of_isBlock (h : documentOf text sheet = .ok doc) {node : Json}
    (hnode : node ∈ nodesIn doc) (hblock : isBlock node = true) :
    ∃ row ∈ sheet.entries text,
      node.get? "id" = some (.str ("block." ++ slugify text (sheet.cell text row "block"))) ∧
      node.get? "label_en" = some (.str (sheet.cell text row "block")) ∧
      node.get? "label_uk" = some (.str (sheet.cell text row "block")) := by
  obtain ⟨parsed, hreads, hnodes⟩ := mem_nodesIn_documentOf h
  obtain ⟨n, rfl, ⟨c, hc, rfl⟩ | ⟨c, hc, rfl⟩⟩ := (hnodes node).mp hnode
  · rw [isBlock_withSortedLevels, isBlock_competencyNode] at hblock
    cases hblock
  · obtain ⟨entry, hentry, rfl⟩ := List.mem_map.mp ((opening_sublist _ _).subset hc)
    obtain ⟨hne, r, hr, hsame, hbare⟩ :=
      hreads.introduced entry.1 entry.2 ((Dict.get?_eq_some_iff _ _ _).mpr hentry)
    have hslug : entry.2.blockSlug = slugify text (sheet.cell text r "block") :=
      congrArg ParsedCompetency.blockSlug hbare
    have hlabel : entry.2.blockLabel = sheet.cell text r "block" :=
      congrArg ParsedCompetency.blockLabel hbare
    refine ⟨r, mem_entries.mpr ⟨hr, fun he => hne (hsame.symm.trans he)⟩, ?_, ?_, ?_⟩
    · rw [get?_withSortedLevels (by decide), ← hslug]
      rfl
    · rw [get?_withSortedLevels (by decide), ← hlabel]
      rfl
    · rw [get?_withSortedLevels (by decide), ← hlabel]
      rfl

/-- The block of every row has a node. -/
theorem exists_block_of_entry (h : documentOf text sheet = .ok doc) {row : Row}
    (hrow : row ∈ sheet.entries text) : ∃ node ∈ nodesIn doc, isBlock node = true ∧
      node.get? "id" = some (.str ("block." ++ slugify text (sheet.cell text row "block"))) := by
  obtain ⟨parsed, hreads, hnodes⟩ := mem_nodesIn_documentOf h
  obtain ⟨hmem, hid⟩ := mem_entries.mp hrow
  obtain ⟨comp, level, -, hget, hslug, -⟩ := hreads.kept row hmem hid
  have hcomp : comp ∈ parsed.entries.map Prod.snd :=
    List.mem_map.mpr ⟨_, (Dict.get?_eq_some_iff _ _ _).mp hget, rfl⟩
  obtain hnone | ⟨first, hfirst, hsame⟩ := @exists_opening [] _ _ hcomp
  · exact absurd hnone List.not_mem_nil
  · refine ⟨withSortedLevels (blockNode first),
      (hnodes _).mpr ⟨_, rfl, Or.inr ⟨first, hfirst, rfl⟩⟩, ?_, ?_⟩
    · rw [isBlock_withSortedLevels]
      rfl
    · rw [get?_withSortedLevels (by decide)]
      change some (Json.str ("block." ++ first.blockSlug)) = _
      rw [hsame, hslug]
      rfl

theorem opening_nodup (blocks : List String) (competencies : List ParsedCompetency) :
    ((opening blocks competencies).map ParsedCompetency.blockSlug).Nodup ∧
      ∀ comp ∈ opening blocks competencies, comp.blockSlug ∉ blocks := by
  induction competencies generalizing blocks with
  | nil => exact ⟨List.nodup_nil, fun comp h => absurd h List.not_mem_nil⟩
  | cons c rest ih =>
      rw [opening]
      by_cases hold : c.blockSlug ∈ blocks
      · rw [if_pos hold]
        exact ih blocks
      · rw [if_neg hold]
        obtain ⟨hnodup, hnew⟩ := ih (c.blockSlug :: blocks)
        constructor
        · rw [List.map_cons, List.nodup_cons]
          refine ⟨fun hmem => ?_, hnodup⟩
          obtain ⟨comp, hcomp, hslug⟩ := List.mem_map.mp hmem
          exact hnew comp hcomp (hslug ▸ List.mem_cons_self)
        · refine List.forall_mem_cons.mpr ⟨hold, fun comp hcomp hmem => ?_⟩
          exact hnew comp hcomp (List.mem_cons_of_mem _ hmem)

theorem filter_isBlock_nodesOf (blocks : List String) (competencies : List ParsedCompetency) :
    (nodesOf blocks competencies).filter isBlock = (opening blocks competencies).map blockNode := by
  induction competencies generalizing blocks with
  | nil => rfl
  | cons comp rest ih =>
      have hcompetency : ¬ isBlock (competencyNode comp) = true := by
        rw [isBlock_competencyNode]
        exact Bool.false_ne_true
      rw [nodesOf, opening]
      by_cases hold : comp.blockSlug ∈ blocks
      · rw [if_pos hold, if_pos hold, List.filter_cons_of_neg hcompetency, ih]
      · rw [if_neg hold, if_neg hold, List.filter_cons_of_pos rfl,
          List.filter_cons_of_neg hcompetency, ih, List.map_cons]

/-- No two block nodes have one id. -/
theorem nodup_blocks (h : documentOf text sheet = .ok doc) :
    (((nodesIn doc).filter isBlock).map idKey).Nodup := by
  obtain ⟨parsed, -, -, rfl⟩ := documentOf_ok text h
  have hperm := ((nodesIn_canonical (toYamlDoc (parsed.entries.map Prod.snd))).filter
    isBlock).map idKey
  have hids : (((nodesOf [] (parsed.entries.map Prod.snd)).map withSortedLevels).filter
      isBlock).map idKey = ((opening [] (parsed.entries.map Prod.snd)).map
        ParsedCompetency.blockSlug).map (fun slug => "block." ++ slug) := by
    rw [List.filter_map, List.map_map, List.map_map,
      show isBlock ∘ withSortedLevels = isBlock from funext isBlock_withSortedLevels,
      show idKey ∘ withSortedLevels = idKey from funext idKey_withSortedLevels,
      filter_isBlock_nodesOf, List.map_map]
    rfl
  rw [hperm.nodup_iff, nodesIn_toYamlDoc, hids]
  exact (List.nodup_map_iff (fun a b => (String.append_right_inj "block.").mp)).mpr
    (opening_nodup [] _).1

end Placing

section Refusals

variable {text : TextKit} {sheet : Sheet} {us : List Row} {row : Row} {level : Int}

theorem readRows_append (name : String) (headers : Dict String Nat)
    (parsed : Dict String ParsedCompetency) (rowIdx : Nat) (us vs : List Row) :
    readRows text name headers parsed rowIdx (us ++ vs) =
      (readRows text name headers parsed rowIdx us).bind (fun next =>
        readRows text name headers next (rowIdx + us.length) vs) := by
  induction us generalizing parsed rowIdx with
  | nil => rfl
  | cons u us ih =>
      rw [List.cons_append, readRows, readRows]
      cases readRow text name headers parsed rowIdx u with
      | error e => rfl
      | ok next =>
          change readRows text name headers next (rowIdx + 1) (us ++ vs) = _
          rw [ih, List.length_cons, Nat.add_right_comm, Nat.add_assoc]
          rfl

/-- The rows of a sheet are read if its header is accepted, which does not depend on
    them. -/
theorem Reached.readSheet_withRows (h : Reached text sheet us row level) (rows : List Row) :
    readSheet text (sheet.withRows rows) =
      readRows text sheet.name (sheet.headers text) .empty 2 rows := by
  obtain ⟨vs, hrows⟩ := h.rows
  obtain ⟨parsed, hok⟩ := h.read
  obtain ⟨header, data, hsheet⟩ : ∃ header data, sheet.rows = header :: data := by
    refine List.exists_cons_of_ne_nil (fun hnil => ?_)
    rw [Sheet.dataRows, hnil] at hrows
    exact absurd hrows.symm (List.append_ne_nil_of_right_ne_nil _ (List.cons_ne_nil _ _))
  have hwith (rows : List Row) : (sheet.withRows rows).rows = header :: rows := by
    rw [Sheet.withRows, hsheet]
    rfl
  unfold readSheet at hok ⊢
  rw [hwith] at hok ⊢
  unfold Sheet.headers
  rw [hsheet]
  dsimp only at hok ⊢
  cases hrequired : requiredHeaders.find?
      (fun col => ((headersOf text header).get? col).isNone) with
  | some col =>
      simp only [hrequired] at hok
      cases hok
  | none =>
      have hsame : (sheet.withRows us).merged = (sheet.withRows rows).merged := rfl
      simp only [hrequired] at hok
      cases hmerged : mergedKey (headersOf text header) (sheet.withRows rows).merged with
      | some found =>
          rw [hsame, hmerged] at hok
          cases hok
      | none =>
          rfl

/-- What is made of a sheet whose header is accepted is made of its rows. -/
theorem Reached.documentOf_withRows (h : Reached text sheet us row level) (rows : List Row) :
    documentOf text (sheet.withRows rows) = (do
      let parsed ← readRows text sheet.name (sheet.headers text) .empty 2 rows
      let name := sheet.name
      let doc ← validateYaml text s!"sheet '{name}'" (toYamlDoc (parsed.entries.map Prod.snd))
      .ok (canonical doc)) := by
  have hstack : (!isStableId (stackId text (sheet.withRows rows))) = false := by
    rw [Bool.not_eq_false']
    exact h.stack
  unfold documentOf
  dsimp only
  rw [h.readSheet_withRows, hstack]
  rfl

/-- What the rows before have been read into. -/
theorem Reached.reads (h : Reached text sheet us row level) :
    ∃ parsed, readRows text sheet.name (sheet.headers text) .empty 2 us = .ok parsed ∧
      Reads text (sheet.headers text) us parsed := by
  obtain ⟨parsed, hok⟩ := h.read
  rw [h.readSheet_withRows] at hok
  exact ⟨parsed, hok, readRows_reads reads_nil hok⟩

/-- Where a row is refused, nothing that follows is read. -/
theorem Reached.refused (h : Reached text sheet us row level)
    {parsed : Dict String ParsedCompetency} {e : ConvertError}
    (hus : readRows text sheet.name (sheet.headers text) .empty 2 us = .ok parsed)
    (hrow : readRow text sheet.name (sheet.headers text) parsed (2 + us.length) row = .error e)
    (vs : List Row) : documentOf text (sheet.withRows (us ++ row :: vs)) = .error e := by
  rw [h.documentOf_withRows, readRows_append, hus]
  change (readRows _ _ _ _ _ (row :: vs) >>= _) = _
  rw [readRows, hrow]
  rfl

/-- Where a row is not refused, the sheet is not refused as having a duplicate if nothing
    follows. -/
theorem Reached.not_refused (h : Reached text sheet us row level)
    {parsed parsed' : Dict String ParsedCompetency} {message : String}
    (hus : readRows text sheet.name (sheet.headers text) .empty 2 us = .ok parsed)
    (hrow : readRow text sheet.name (sheet.headers text) parsed (2 + us.length) row = .ok parsed') :
    documentOf text (sheet.withRows (us ++ [row])) ≠ .error (.duplicateCompetencyId message) := by
  rw [h.documentOf_withRows, readRows_append, hus]
  change (readRows _ _ _ _ _ [row] >>= _) ≠ _
  rw [readRows, hrow]
  intro heq
  dsimp only [bind, Except.bind, readRows, validateYaml] at heq
  cases hdoc : Document.ofJson (toYamlDoc (parsed'.entries.map Prod.snd)) with
  | none =>
      rw [hdoc] at heq
      cases heq
  | some _ =>
      rw [hdoc] at heq
      cases heq

theorem WellFormed.id_ne {cell : String → String} (h : WellFormed text cell level) :
    cell "competency_id" ≠ "" := by
  intro hempty
  have hstable := h.stable
  rw [hempty] at hstable
  exact absurd hstable (by decide +kernel)

/-- A row whose competency an earlier row has is read if that row has it in the same
    block, as the importer knows blocks, and none has declared the level. -/
theorem Reads.readRow_ok_iff (name : String) (rowIdx : Nat) {headers : Dict String Nat}
    {parsed : Dict String ParsedCompetency} {r : Row} (hreads : Reads text headers us parsed)
    (hwell : WellFormed text (cellAt text headers row) level) (hr : r ∈ us)
    (hsame : cellAt text headers r "competency_id" = cellAt text headers row "competency_id") :
    (∃ parsed', readRow text name headers parsed rowIdx row = .ok parsed') ↔
      slugify text (cellAt text headers r "block") =
          slugify text (cellAt text headers row "block") ∧
        ¬ ∃ r' ∈ us, cellAt text headers r' "competency_id"
            = cellAt text headers row "competency_id" ∧
          WellFormed text (cellAt text headers r') level := by
  obtain ⟨comp, -, -, hget, hslug, -⟩ := hreads.kept r hr (by rw [hsame]; exact hwell.id_ne)
  rw [hsame] at hget
  rw [← hslug]
  constructor
  · rintro ⟨parsed', hok⟩
    obtain ⟨level', c, hwell', hcomp, hfresh, -⟩ := readRow_ok hok hwell.id_ne
    have hlevel : level' = level := Option.some.inj (hwell'.parsed.symm.trans hwell.parsed)
    -- The competency is known, so the row is read into what it has.
    rcases competencyOf_ok hcomp with ⟨hnone, -⟩ | ⟨hsome, hblock⟩
    · rw [hget] at hnone
      cases hnone
    · rw [hget, Option.some.injEq] at hsome
      subst hsome
      refine ⟨hblock, ?_⟩
      rintro ⟨r', hr', hsame', hwell''⟩
      obtain ⟨c, l, hl, hget', -, hdeclared⟩ :=
        hreads.kept r' hr' (by rw [hsame']; exact hwell.id_ne)
      have hll : l = level := Option.some.inj (hl.parsed.symm.trans hwell''.parsed)
      rw [hsame', hget, Option.some.injEq] at hget'
      rw [← hget', hll, ← hlevel, hfresh] at hdeclared
      cases hdeclared
  · rintro ⟨hblock, hfresh⟩
    -- In the same block the competency is taken as it is.
    have hcomp : competencyOf text name (cellAt text headers row) parsed = .ok comp := by
      unfold competencyOf
      simp only [hget]
      rw [if_neg (fun hne => hne hblock)]
    have hnone : ¬ (comp.levels.get? level).isSome = true :=
      fun hsome => hfresh (hreads.levels _ comp level hget hsome)
    refine ⟨parsed.set (cellAt text headers row "competency_id")
      (comp.declare (declared (cellAt text headers row) level)), ?_⟩
    rw [readRow_eq hwell, hcomp]
    exact if_neg hnone

/-- A competency that an earlier row has is refused unless it is read. -/
theorem Reached.refused_iff (h : Reached text sheet us row level) {r : Row} (hr : r ∈ us)
    (hsame : sheet.cell text r "competency_id" = sheet.cell text row "competency_id") :
    (∀ vs, ∃ message, documentOf text (sheet.withRows (us ++ row :: vs)) =
        .error (.duplicateCompetencyId message)) ↔
      slugify text (sheet.cell text r "block") ≠ slugify text (sheet.cell text row "block") ∨
        ∃ r' ∈ us, sheet.cell text r' "competency_id" = sheet.cell text row "competency_id" ∧
          WellFormed text (sheet.cell text r') level := by
  obtain ⟨parsed, hus, hreads⟩ := h.reads
  have hread := hreads.readRow_ok_iff sheet.name (2 + us.length) h.wellFormed hr hsame
  rw [← not_iff_not, not_or, not_not]
  refine Iff.trans ?_ hread
  cases hrow : readRow text sheet.name (sheet.headers text) parsed (2 + us.length) row with
  | error e =>
      obtain ⟨message, rfl⟩ := readRow_error h.wellFormed hrow
      constructor
      · exact fun hnot => absurd (fun vs => ⟨message, h.refused hus hrow vs⟩) hnot
      · rintro ⟨_, hok⟩
        cases hok
  | ok parsed' =>
      refine ⟨fun _ => ⟨parsed', rfl⟩, fun _ hrefused => ?_⟩
      obtain ⟨message, hmessage⟩ := hrefused []
      exact h.not_refused hus hrow hmessage

end Refusals

section Separation

variable {text : TextKit} {sheet : Sheet}

/-- The blocks of an accepted sheet have nodes of their own if their ids are different and
    no competency has one of them. -/
theorem blocksApart_iff {doc : Json} (h : documentOf text sheet = .ok doc) :
    BlocksApart text sheet doc ↔
      (∀ row ∈ sheet.entries text, ∀ row' ∈ sheet.entries text,
        slugify text (sheet.cell text row "block") = slugify text (sheet.cell text row' "block") →
        sheet.cell text row "block" = sheet.cell text row' "block") ∧
      ∀ row ∈ sheet.entries text, ∀ row' ∈ sheet.entries text,
        "block." ++ slugify text (sheet.cell text row "block") ≠
          sheet.cell text row' "competency_id" := by
  constructor
  · intro hapart
    constructor
    · intro row hrow row' hrow' hslug
      refine (hapart.same row hrow row' hrow' _ _ ((placedUnder_iff h hrow).mpr rfl)
        ((placedUnder_iff h hrow').mpr rfl)).mp ?_
      rw [hslug]
    · intro row hrow row' hrow' hid
      obtain ⟨node, hnode, hblock, hnodeId⟩ := exists_block_of_entry h hrow
      rw [hid] at hnodeId
      exact hapart.apart node hnode hblock row' hrow' hnodeId
  · rintro ⟨hslugs, hids⟩
    -- Blocks are told by their ids, which come from the slugs.
    have hidKey {node : Json} {id : String} (hnodeId : node.get? "id" = some (.str id)) :
        idKey node = id := by
      unfold idKey
      rw [hnodeId]
    refine ⟨fun row hrow => ?_, fun row hrow row' hrow' p p' hp hp' => ?_,
      fun node hnode hblock row hrow => ?_, nodup_blocks h, fun node hnode hblock row hrow hp => ?_⟩
    · obtain ⟨node, hnode, hblock, hnodeId⟩ := exists_block_of_entry h hrow
      exact ⟨node, hnode, hblock, (placedUnder_iff h hrow).mpr (hidKey hnodeId)⟩
    · rw [(placedUnder_iff h hrow).mp hp, (placedUnder_iff h hrow').mp hp',
        String.append_right_inj]
      exact ⟨hslugs row hrow row' hrow', fun hsame => congrArg (slugify text) hsame⟩
    · obtain ⟨row', hrow', hnodeId, -⟩ := exists_entry_of_isBlock h hnode hblock
      rw [hnodeId]
      intro hid
      exact hids row' hrow' row hrow (Json.str.inj (Option.some.inj hid))
    · obtain ⟨row', hrow', hnodeId, hlabels⟩ := exists_entry_of_isBlock h hnode hblock
      have hkey := (placedUnder_iff h hrow).mp hp
      rw [hidKey hnodeId, String.append_right_inj] at hkey
      rw [← hslugs row' hrow' row hrow hkey]
      exact hlabels

/-- The blocks of a sheet keep their identity exactly when it is separated. -/
theorem keepsBlocks_iff_separated (text : TextKit) (sheet : Sheet) :
    KeepsBlocks text sheet ↔ Separated text sheet := by
  constructor
  · intro hkeeps
    refine ⟨?_, ?_, fun us row level hreached r hr hsame hother => ?_⟩
    · rintro ⟨doc, h⟩
      exact ((blocksApart_iff h).mp (hkeeps.accepted doc h)).1
    · rintro ⟨doc, h⟩
      exact ((blocksApart_iff h).mp (hkeeps.accepted doc h)).2
    · exact (hreached.refused_iff hr hsame).mp
        (hkeeps.refused us row level hreached r hr hsame hother)
  · intro hseparated
    refine ⟨fun doc h => ?_, fun us row level hreached r hr hsame hother => ?_⟩
    · exact (blocksApart_iff h).mpr ⟨hseparated.slugs ⟨doc, h⟩, hseparated.ids ⟨doc, h⟩⟩
    · exact (hreached.refused_iff hr hsame).mpr
        (hseparated.names us row level hreached r hr hsame hother)

/-- Of a text, the characters in ASCII. Those that are not in ASCII have no such letters
    in their normal form, if they are Cyrillic. -/
def cyrillicKit : TextKit :=
  { asciiKit with ascii := fun s => String.ofList (s.toList.filter (fun c => c.toNat < 128)) }

/-- A sheet with two blocks. -/
def blocksSheet (block block' : String) : Sheet where
  name := "python"
  rows := [requiredHeaders.map some,
    [block, "python.io", "IO", "IO", "1", "Reads", "Low"].map some,
    [block', "python.net", "Net", "Net", "1", "Connects", "Low"].map some]
  merged := []

/-- Two blocks with names in Cyrillic get one node. -/
theorem blocks_merged : ¬ KeepsBlocks cyrillicKit (blocksSheet "Основи" "Мережі") := by
  intro hkeeps
  have hok : (documentOf cyrillicKit (blocksSheet "Основи" "Мережі")).toOption.isSome = true := by
    decide +kernel
  cases hdoc : documentOf cyrillicKit (blocksSheet "Основи" "Мережі") with
  | error e =>
      rw [hdoc] at hok
      cases hok
  | ok doc =>
      have hslugs := ((blocksApart_iff hdoc).mp (hkeeps.accepted doc hdoc)).1
      exact absurd hslugs (by decide +kernel)

end Separation

end TechScreen.Rubric
