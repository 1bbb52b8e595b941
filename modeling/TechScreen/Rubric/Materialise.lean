import Mathlib.Data.Multiset.Bind
import TechScreen.Rubric.Importer
import TechScreen.Rubric.Snapshot

/-!
# What a Seed Writes

A document with unique ids is a tree: its blocks, the competencies under each,
and the topics under these. What the importer writes for it are rows whose parent
references make the same tree.

The identifiers do it. Every pass draws its identifiers after the pass before,
and every stack after the stack before, so a reference can only lead into the
rows of its own document, and there the dictionary from stable ids to identifiers
is one to one.

## Main definitions

* `Document.tree`, `payloadTree`: The trees that documents describe.
* `Document.UniqueIds`, `Document.Rooted`: No id twice, and every parent a block
  or under one.
* `Wrote`: What a step of the importer adds to the tables.
* `Allotted`: Identifiers handed out in a range.

## Theorems

* `passBlocks_wrote`, `passCompetencies_wrote`, `passTopics_wrote`: The passes.
* `materialiseStack_wrote`, `materialise_wrote`: What is written has the tree of
  the documents.
-/

namespace TechScreen.Rubric

open Lib

section Trees

/-- The competency at a node, with its levels and the topics under it. -/
def Document.competencyTree (doc : Document) (c : Node) : CompetencyTree where
  name := c.id
  levels := c.levels.map (fun l => (l.level, l.descriptorEn))
  topics := (doc.nodes.filter (fun n => n.parent = some c.id)).map Node.id

/-- The block at a node, with the competencies under it. -/
def Document.blockTree (doc : Document) (b : Node) : BlockTree where
  name := b.id
  competencies := (doc.nodes.filter (fun n => n.parent = some b.id)).map doc.competencyTree

/-- The tree of a document: the blocks are the nodes without a parent. -/
def Document.tree (name : String) (doc : Document) : StackTree where
  name := name
  competencyBlocks := (doc.nodes.filter (fun n => n.parent = none)).map doc.blockTree

/-- The tree of a payload: one stack for each document. -/
def payloadTree (docs : List (String × Document)) : RubricTree :=
  docs.map (fun d => d.2.tree d.1)

/-- The nodes under a block. -/
def Document.competencies (doc : Document) : List Node :=
  doc.nodes.filter (fun n => ∃ b ∈ doc.nodes, b.parent = none ∧ n.parent = some b.id)

/-- No two nodes have the same id. -/
def Document.UniqueIds (doc : Document) : Prop := (doc.nodes.map Node.id).Nodup

/-- Every parent is a block or a child of a block. -/
def Document.Rooted (doc : Document) : Prop :=
  ∀ n ∈ doc.nodes, ∀ p, n.parent = some p → ∃ q ∈ doc.nodes, q.id = p ∧
    (q.parent = none ∨ ∃ r ∈ doc.nodes, q.parent = some r.id ∧ r.parent = none)

instance (doc : Document) : Decidable doc.UniqueIds :=
  inferInstanceAs (Decidable (List.Nodup _))

instance (doc : Document) : Decidable doc.Rooted :=
  inferInstanceAs (Decidable (∀ n ∈ doc.nodes, ∀ p ∈ n.parent, ∃ q ∈ doc.nodes, q.id = p ∧
    (q.parent = none ∨ ∃ r ∈ doc.nodes, q.parent = some r.id ∧ r.parent = none)))

theorem Document.values_eq {doc : Document} (h : doc.UniqueIds) : doc.values = doc.nodes := by
  have hentries : doc.nodesById.entries = doc.nodes.map (fun n => (n.id, n)) := by
    refine (Dict.foldl_set_entries _ Dict.empty ?_).trans (List.nil_append _)
    simpa [Dict.empty, Document.UniqueIds, Function.comp_def] using h
  rw [Document.values, hentries, List.map_map]
  exact List.map_id' _

end Trees

section Writes

/-- The identifiers are different ones of a range. -/
def Allotted (lo hi : Nat) (ids : List Nat) : Prop :=
  ids.Nodup ∧ ∀ id ∈ ids, lo ≤ id ∧ id < hi

theorem allotted_nil (lo hi : Nat) : Allotted lo hi [] :=
  ⟨List.nodup_nil, fun _ h => absurd h List.not_mem_nil⟩

/-- The next identifier, and then others. -/
theorem Allotted.cons {lo mid hi : Nat} {ids : List Nat} (hlo : lo < mid) (hmid : mid ≤ hi)
    (h : Allotted mid hi ids) : Allotted lo hi (lo :: ids) := by
  refine ⟨List.nodup_cons.mpr ⟨fun hmem => ?_, h.1⟩, ?_⟩
  · have := (h.2 lo hmem).1
    omega
  · intro id hid
    rcases List.mem_cons.mp hid with rfl | hid
    · omega
    · have := h.2 id hid
      omega

/-- What a step of the importer does to the tables: it appends rows, and draws
    identifiers. -/
structure Wrote (w w' : Writing) (rows : Rows) : Prop where
  tables : w'.tables = { w.tables with
    nextId := w'.tables.nextId, rows := w.tables.rows ++ rows }
  nextId_le : w.tables.nextId ≤ w'.tables.nextId

@[ext] theorem Rows.ext' {a b : Rows} (h₁ : a.stack = b.stack)
    (h₂ : a.competencyBlock = b.competencyBlock) (h₃ : a.competency = b.competency)
    (h₄ : a.topic = b.topic) (h₅ : a.level = b.level) : a = b := by
  cases a
  cases b
  simp_all

@[simp] theorem stack_append (a b : Rows) : (a ++ b).stack = a.stack ++ b.stack := rfl
@[simp] theorem competencyBlock_append (a b : Rows) :
    (a ++ b).competencyBlock = a.competencyBlock ++ b.competencyBlock := rfl
@[simp] theorem competency_append (a b : Rows) :
    (a ++ b).competency = a.competency ++ b.competency := rfl
@[simp] theorem topic_append (a b : Rows) : (a ++ b).topic = a.topic ++ b.topic := rfl
@[simp] theorem level_append (a b : Rows) : (a ++ b).level = a.level ++ b.level := rfl

theorem Rows.append_assoc (a b c : Rows) : a ++ b ++ c = a ++ (b ++ c) := by
  ext1 <;> simp

theorem Rows.append_empty (a : Rows) : a ++ ({} : Rows) = a := by
  ext1 <;> simp

theorem Wrote.refl (w : Writing) : Wrote w w {} :=
  ⟨by rw [Rows.append_empty], le_refl _⟩

theorem Wrote.trans {w w' w'' : Writing} {a b : Rows} (h : Wrote w w' a) (h' : Wrote w' w'' b) :
    Wrote w w'' (a ++ b) := by
  refine ⟨?_, le_trans h.nextId_le h'.nextId_le⟩
  rw [h'.tables, h.tables, Rows.append_assoc]

/-- One row. -/
theorem wrote_insert (w : Writing) (row : RowId → Rows) :
    Wrote w (w.insert row).2 (row w.tables.nextId) :=
  ⟨rfl, Nat.le_succ _⟩

theorem wrote_insertLevel (w : Writing) (version competencyId : RowId) (level : Level) :
    Wrote w (w.insertLevel version competencyId level)
      { level := [⟨w.tables.nextId, version, competencyId, level.level, level.descriptorEn⟩] } :=
  ⟨rfl, Nat.le_succ _⟩

end Writes

section Passes

variable (version : RowId)

/-- The first pass writes a row for every node without a parent. -/
theorem passBlocks_wrote (stackId : RowId) (nodes : List Node) (blockIds : Dict String RowId)
    (w : Writing) (hnew : (blockIds.keys ++ nodes.map Node.id).Nodup) :
    ∃ alloc : List (RowId × Node),
      alloc.map Prod.snd = nodes.filter (fun n => n.parent = none) ∧
      Allotted w.tables.nextId (passBlocks version stackId nodes blockIds w).2.tables.nextId
        (alloc.map Prod.fst) ∧
      (passBlocks version stackId nodes blockIds w).1.entries =
        blockIds.entries ++ alloc.map (fun a => (a.2.id, a.1)) ∧
      Wrote w (passBlocks version stackId nodes blockIds w).2
        { competencyBlock := alloc.map (fun a => ⟨a.1, version, stackId, a.2.id, 0⟩) } := by
  induction nodes generalizing blockIds w with
  | nil =>
      refine ⟨[], rfl, allotted_nil _ _, ?_, Wrote.refl w⟩
      rw [List.map_nil, List.append_nil]
      rfl
  | cons node nodes ih =>
      rw [List.map_cons] at hnew
      cases hp : node.parent with
      | some p =>
          -- A node with a parent is left to the later passes.
          have hstep : passBlocks version stackId (node :: nodes) blockIds w =
              passBlocks version stackId nodes blockIds w := by
            rw [passBlocks, hp]
          have hfilter : (node :: nodes).filter (fun n => n.parent = none) =
              nodes.filter (fun n => n.parent = none) :=
            List.filter_cons_of_neg (by simp [hp])
          rw [hstep, hfilter]
          exact ih blockIds w
            (hnew.sublist (List.Sublist.append_left (List.sublist_cons_self _ _) _))
      | none =>
          have hstep : passBlocks version stackId (node :: nodes) blockIds w =
              passBlocks version stackId nodes (blockIds.set node.id w.tables.nextId)
                (w.insertBlock version stackId node.id).2 := by
            rw [passBlocks, hp]
            rfl
          -- Identifiers are distinct, so the node gets an entry of its own.
          have hfresh : node.id ∉ blockIds.keys := by
            intro hmem
            exact (List.nodup_append.mp hnew).2.2 _ hmem _ List.mem_cons_self rfl
          have hset : (blockIds.set node.id w.tables.nextId).entries =
              blockIds.entries ++ [(node.id, w.tables.nextId)] := insertIn_of_notMem _ _ _ hfresh
          have hnew' :
              ((blockIds.set node.id w.tables.nextId).keys ++ nodes.map Node.id).Nodup := by
            rw [Dict.keys, hset, List.map_append, List.append_assoc]
            exact hnew
          rcases ih _ (w.insertBlock version stackId node.id).2 hnew' with
            ⟨alloc, hnodes, hids, hentries, hwrote⟩
          refine ⟨(w.tables.nextId, node) :: alloc, ?_, ?_, ?_, ?_⟩
          · rw [List.map_cons, hnodes, List.filter_cons_of_pos (by simp [hp])]
          · rw [hstep, List.map_cons]
            exact hids.cons (Nat.lt_succ_self _) hwrote.nextId_le
          · rw [hstep, hentries, hset, List.append_assoc]
            rfl
          · rw [hstep]
            exact (wrote_insert w _).trans hwrote

/-- The levels of one competency, in order. -/
theorem insertLevels_wrote (competencyId : RowId) (levels : List Level) (w : Writing) :
    ∃ rows : List LevelRow,
      rows.map (fun r => (r.competencyId, r.rank, r.descriptor)) =
        levels.map (fun l => (competencyId, l.level, l.descriptorEn)) ∧
      (∀ r ∈ rows, r.rubricTreeVersionId = version) ∧
      Wrote w (insertLevels version competencyId levels w) { level := rows } := by
  induction levels generalizing w with
  | nil => exact ⟨[], rfl, fun r h => absurd h List.not_mem_nil, Wrote.refl w⟩
  | cons level levels ih =>
      rcases ih (w.insertLevel version competencyId level) with ⟨rows, hrows, hversion, hwrote⟩
      refine ⟨⟨w.tables.nextId, version, competencyId, level.level, level.descriptorEn⟩ :: rows,
        ?_, ?_, ?_⟩
      · rw [List.map_cons, List.map_cons, hrows]
      · intro r hr
        rcases List.mem_cons.mp hr with rfl | hr
        · rfl
        · exact hversion r hr
      · exact (wrote_insertLevel w version competencyId level).trans hwrote

/-- The second pass writes a row for every node whose parent is a block, and a
    row for each of its levels. -/
theorem passCompetencies_wrote (blockIds : Dict String RowId) (nodes : List Node)
    (competencyIds : Dict String RowId) (w : Writing)
    (hnew : (competencyIds.keys ++ nodes.map Node.id).Nodup) :
    ∃ (alloc : List (RowId × Node)) (levels : List LevelRow),
      alloc.map Prod.snd = nodes.filter (fun n => (n.parent.bind blockIds.get?).isSome) ∧
      Allotted w.tables.nextId
        (passCompetencies version blockIds nodes competencyIds w).2.tables.nextId
        (alloc.map Prod.fst) ∧
      (passCompetencies version blockIds nodes competencyIds w).1.entries =
        competencyIds.entries ++ alloc.map (fun a => (a.2.id, a.1)) ∧
      levels.map (fun r => (r.competencyId, r.rank, r.descriptor)) =
        alloc.flatMap (fun a => a.2.levels.map (fun l => (a.1, l.level, l.descriptorEn))) ∧
      (∀ r ∈ levels, r.rubricTreeVersionId = version) ∧
      Wrote w (passCompetencies version blockIds nodes competencyIds w).2
        { competency := alloc.map (fun a =>
            ⟨a.1, version, (a.2.parent.bind blockIds.get?).getD 0, a.2.id⟩)
          level := levels } := by
  induction nodes generalizing competencyIds w with
  | nil =>
      refine ⟨[], [], rfl, allotted_nil _ _, ?_, rfl, fun r h => absurd h List.not_mem_nil,
        Wrote.refl w⟩
      rw [List.map_nil, List.append_nil]
      rfl
  | cons node nodes ih =>
      rw [List.map_cons] at hnew
      cases hp : node.parent.bind blockIds.get? with
      | none =>
          -- A node whose parent is no block is left to the last pass.
          have hstep : passCompetencies version blockIds (node :: nodes) competencyIds w =
              passCompetencies version blockIds nodes competencyIds w := by
            rw [passCompetencies, hp]
          have hfilter : (node :: nodes).filter (fun n => (n.parent.bind blockIds.get?).isSome) =
              nodes.filter (fun n => (n.parent.bind blockIds.get?).isSome) :=
            List.filter_cons_of_neg (by rw [hp]; exact Bool.false_ne_true)
          rw [hstep, hfilter]
          exact ih competencyIds w
            (hnew.sublist (List.Sublist.append_left (List.sublist_cons_self _ _) _))
      | some blockId =>
          -- The node is new to the dictionary, so its entry goes to the end.
          have hstep : passCompetencies version blockIds (node :: nodes) competencyIds w =
              passCompetencies version blockIds nodes (competencyIds.set node.id w.tables.nextId)
                (insertLevels version w.tables.nextId node.levels
                  (w.insertCompetency version blockId node.id).2) := by
            rw [passCompetencies, hp]
            rfl
          have hfresh : node.id ∉ competencyIds.keys := by
            intro hmem
            exact (List.nodup_append.mp hnew).2.2 _ hmem _ List.mem_cons_self rfl
          have hset : (competencyIds.set node.id w.tables.nextId).entries =
              competencyIds.entries ++ [(node.id, w.tables.nextId)] :=
            insertIn_of_notMem _ _ _ hfresh
          have hnew' :
              ((competencyIds.set node.id w.tables.nextId).keys ++ nodes.map Node.id).Nodup := by
            rw [Dict.keys, hset, List.map_append, List.append_assoc]
            exact hnew
          -- Its levels come right after it.
          rcases insertLevels_wrote version w.tables.nextId node.levels
            (w.insertCompetency version blockId node.id).2 with ⟨own, hown, hownv, hownw⟩
          rcases ih _ (insertLevels version w.tables.nextId node.levels
            (w.insertCompetency version blockId node.id).2) hnew' with
            ⟨alloc, levels, hnodes, hids, hentries, hlevels, hlevelsv, hwrote⟩
          refine ⟨(w.tables.nextId, node) :: alloc, own ++ levels, ?_, ?_, ?_, ?_, ?_, ?_⟩
          · rw [List.map_cons, hnodes, List.filter_cons_of_pos (by rw [hp]; rfl)]
          · rw [hstep, List.map_cons]
            exact hids.cons (Nat.lt_of_lt_of_le (Nat.lt_succ_self _) hownw.nextId_le)
              hwrote.nextId_le
          · rw [hstep, hentries, hset, List.append_assoc]
            rfl
          · rw [List.map_append, hown, hlevels]
            rfl
          · intro r hr
            rcases List.mem_append.mp hr with hr | hr
            · exact hownv r hr
            · exact hlevelsv r hr
          · rw [hstep]
            -- Its row, its levels and the rows of the nodes after it, in this order.
            have hall := ((wrote_insert w _).trans hownw).trans hwrote
            refine Eq.mp (congrArg (Wrote w _) ?_) hall
            rw [List.map_cons, hp]
            rfl

/-- The third pass writes a row for every node whose parent is a competency. -/
theorem passTopics_wrote (competencyIds : Dict String RowId) (nodes : List Node) (w : Writing) :
    ∃ topics : List TopicRow,
      topics.map (fun r => (some r.competencyId, r.name)) =
        (nodes.filter (fun n => (n.parent.bind competencyIds.get?).isSome)).map
          (fun n => (n.parent.bind competencyIds.get?, n.id)) ∧
      (∀ r ∈ topics, r.rubricTreeVersionId = version) ∧
      Wrote w (passTopics version competencyIds nodes w) { topic := topics } := by
  induction nodes generalizing w with
  | nil => exact ⟨[], rfl, fun r h => absurd h List.not_mem_nil, Wrote.refl w⟩
  | cons node nodes ih =>
      cases hp : node.parent.bind competencyIds.get? with
      | none =>
          -- A node whose parent is no competency is written by no pass after this one.
          have hstep : passTopics version competencyIds (node :: nodes) w =
              passTopics version competencyIds nodes w := by
            rw [passTopics, hp]
          rw [hstep, List.filter_cons_of_neg (by rw [hp]; exact Bool.false_ne_true)]
          exact ih w
      | some competencyId =>
          have hstep : passTopics version competencyIds (node :: nodes) w =
              passTopics version competencyIds nodes
                (w.insertTopic version competencyId node.id).2 := by
            rw [passTopics, hp]
          rcases ih (w.insertTopic version competencyId node.id).2 with
            ⟨topics, htopics, hversion, hwrote⟩
          refine ⟨⟨w.tables.nextId, version, competencyId, node.id⟩ :: topics, ?_, ?_, ?_⟩
          · rw [List.map_cons, htopics, List.filter_cons_of_pos (by rw [hp]; rfl), List.map_cons,
              hp]
          · intro r hr
            rcases List.mem_cons.mp hr with rfl | hr
            · rfl
            · exact hversion r hr
          · rw [hstep]
            exact (wrote_insert w _).trans hwrote

end Passes

section Stacks

/-- A dictionary made of different identifiers for different ids is one to one. -/
theorem get?_iff_of_alloc {ids : Dict String RowId} {alloc : List (RowId × Node)}
    (hentries : ids.entries = alloc.map (fun a => (a.2.id, a.1)))
    (hids : (alloc.map Prod.fst).Nodup) {a : RowId × Node} (ha : a ∈ alloc) (p : String) :
    ids.get? p = some a.1 ↔ p = a.2.id := by
  rw [Dict.get?_eq_some_iff, hentries, List.mem_map]
  constructor
  · -- Two entries of one identifier are the same entry.
    rintro ⟨a', ha', heq⟩
    rw [Prod.mk.injEq] at heq
    rw [← heq.1, List.inj_on_of_nodup_map hids ha' ha heq.2]
  · rintro rfl
    exact ⟨a, ha, rfl⟩

/-- So the nodes whose parent is looked up to an identifier are the children of
    its node. -/
theorem parent_iff_of_alloc {ids : Dict String RowId} {alloc : List (RowId × Node)}
    (hentries : ids.entries = alloc.map (fun a => (a.2.id, a.1)))
    (hids : (alloc.map Prod.fst).Nodup) {a : RowId × Node} (ha : a ∈ alloc) (n : Node) :
    n.parent.bind ids.get? = some a.1 ↔ n.parent = some a.2.id := by
  cases n.parent with
  | none => simp
  | some p =>
      rw [Option.bind_some, get?_iff_of_alloc hentries hids ha, Option.some.injEq]

/-- So the nodes whose parent is looked up at all are the children of some node. -/
theorem isSome_iff_of_alloc {ids : Dict String RowId} {alloc : List (RowId × Node)}
    (hentries : ids.entries = alloc.map (fun a => (a.2.id, a.1))) (n : Node) :
    (n.parent.bind ids.get?).isSome ↔ ∃ b ∈ alloc.map Prod.snd, n.parent = some b.id := by
  rw [Option.isSome_iff_exists]
  constructor
  · rintro ⟨i, hi⟩
    rcases Option.bind_eq_some_iff.mp hi with ⟨p, hp, hpi⟩
    rw [Dict.get?_eq_some_iff, hentries, List.mem_map] at hpi
    rcases hpi with ⟨a, ha, heq⟩
    exact ⟨a.2, List.mem_map_of_mem ha, hp.trans (congrArg some (congrArg Prod.fst heq).symm)⟩
  · rintro ⟨b, hb, hp⟩
    rcases List.mem_map.mp hb with ⟨a, ha, rfl⟩
    refine ⟨a.1, ?_⟩
    rw [hp, Option.bind_some, Dict.get?_eq_some_iff, hentries]
    exact List.mem_map_of_mem ha

/-- After the first pass, these are the nodes under a block. -/
theorem competencies_eq {doc : Document} {blockIds : Dict String RowId}
    {blocks : List (RowId × Node)}
    (hnodes : blocks.map Prod.snd = doc.nodes.filter (fun n => n.parent = none))
    (hentries : blockIds.entries = blocks.map (fun a => (a.2.id, a.1))) :
    doc.nodes.filter (fun n => (n.parent.bind blockIds.get?).isSome) = doc.competencies := by
  refine List.filter_congr (fun n _ => ?_)
  rw [Bool.eq_iff_iff, isSome_iff_of_alloc hentries, hnodes, decide_eq_true_iff]
  constructor
  · rintro ⟨b, hb, hp⟩
    rcases List.mem_filter.mp hb with ⟨hb, hroot⟩
    exact ⟨b, hb, of_decide_eq_true hroot, hp⟩
  · rintro ⟨b, hb, hroot, hp⟩
    exact ⟨b, List.mem_filter.mpr ⟨hb, decide_eq_true hroot⟩, hp⟩

/-- Of the rows that several parents list one after another, the rows of one
    parent are its own. -/
theorem filter_flatMap_of_nodup {α β : Type} {alloc : List (RowId × α)} (f : RowId × α → List β)
    (hids : (alloc.map Prod.fst).Nodup) {a : RowId × α} (ha : a ∈ alloc) :
    ((alloc.flatMap (fun a => (f a).map (fun x => (a.1, x)))).filter (fun r => r.1 = a.1)).map
      Prod.snd = f a := by
  induction alloc with
  | nil => exact absurd ha List.not_mem_nil
  | cons b alloc ih =>
      rw [List.map_cons, List.nodup_cons] at hids
      rw [List.flatMap_cons, List.filter_append, List.map_append]
      rcases List.mem_cons.mp ha with rfl | ha
      · -- The parent is the first: the others list nothing under its identifier.
        have hrest : (alloc.flatMap (fun a => (f a).map (fun x => (a.1, x)))).filter
            (fun r => r.1 = a.1) = [] := by
          rw [List.filter_eq_nil_iff]
          intro r hr hra
          rcases List.mem_flatMap.mp hr with ⟨c, hc, hrc⟩
          rcases List.mem_map.mp hrc with ⟨x, _, rfl⟩
          exact hids.1 (List.mem_map.mpr ⟨c, hc, of_decide_eq_true hra⟩)
        rw [hrest, List.map_nil, List.append_nil, List.filter_eq_self.mpr, List.map_map]
        · exact List.map_id' _
        · intro r hr
          rcases List.mem_map.mp hr with ⟨x, _, rfl⟩
          exact decide_eq_true rfl
      · -- The parent is a later one: the first lists nothing under its identifier.
        have hown : ((f b).map (fun x => (b.1, x))).filter (fun r => r.1 = a.1) = [] := by
          rw [List.filter_eq_nil_iff]
          intro r hr hra
          rcases List.mem_map.mp hr with ⟨x, _, rfl⟩
          have hba : b.1 = a.1 := of_decide_eq_true hra
          exact hids.1 (hba ▸ List.mem_map_of_mem ha)
        rw [hown, List.map_nil, List.nil_append]
        exact ih hids.2 ha

/-- What the three passes have written for one document. -/
structure StackWritten (doc : Document) (version stackId : RowId)
    (blockIds competencyIds : Dict String RowId) (blocks competencies : List (RowId × Node))
    (levels : List LevelRow) (topics : List TopicRow) : Prop where
  blocks_nodes : blocks.map Prod.snd = doc.nodes.filter (fun n => n.parent = none)
  blocks_nodup : (blocks.map Prod.fst).Nodup
  blockIds_entries : blockIds.entries = blocks.map (fun a => (a.2.id, a.1))
  competencies_nodes : competencies.map Prod.snd =
    doc.nodes.filter (fun n => (n.parent.bind blockIds.get?).isSome)
  competencies_nodup : (competencies.map Prod.fst).Nodup
  competencyIds_entries : competencyIds.entries = competencies.map (fun a => (a.2.id, a.1))
  levels_map : levels.map (fun r => (r.competencyId, r.rank, r.descriptor)) =
    competencies.flatMap (fun a => a.2.levels.map (fun l => (a.1, l.level, l.descriptorEn)))
  topics_map : topics.map (fun r => (some r.competencyId, r.name)) =
    (doc.nodes.filter (fun n => (n.parent.bind competencyIds.get?).isSome)).map
      (fun n => (n.parent.bind competencyIds.get?, n.id))

/-- The rows of one document. -/
def stackRows (name : String) (version stackId : RowId) (blockIds : Dict String RowId)
    (blocks competencies : List (RowId × Node)) (levels : List LevelRow)
    (topics : List TopicRow) : Rows where
  stack := [⟨stackId, version, name⟩]
  competencyBlock := blocks.map (fun a => ⟨a.1, version, stackId, a.2.id, 0⟩)
  competency := competencies.map (fun a =>
    ⟨a.1, version, (a.2.parent.bind blockIds.get?).getD 0, a.2.id⟩)
  topic := topics
  level := levels

section OneStack

variable {doc : Document} {name : String} {version stackId : RowId}
  {blockIds competencyIds : Dict String RowId} {blocks competencies : List (RowId × Node)}
  {levels : List LevelRow} {topics : List TopicRow}

/-- The nodes whose parent is looked up, and looked up to one identifier. -/
theorem filter_lookup {ids : Dict String RowId} {alloc : List (RowId × Node)}
    (hentries : ids.entries = alloc.map (fun a => (a.2.id, a.1)))
    (hids : (alloc.map Prod.fst).Nodup) {a : RowId × Node} (ha : a ∈ alloc) (nodes : List Node) :
    (nodes.filter (fun n => (n.parent.bind ids.get?).isSome)).filter
        (fun n => n.parent.bind ids.get? = some a.1) =
      nodes.filter (fun n => n.parent = some a.2.id) := by
  rw [List.filter_filter]
  refine List.filter_congr (fun n _ => ?_)
  have hiff := parent_iff_of_alloc hentries hids ha n
  by_cases hn : n.parent = some a.2.id
  · rw [hiff.mpr hn, hn]
    simp
  · have hne : ¬ n.parent.bind ids.get? = some a.1 := fun h => hn (hiff.mp h)
    simp only [hne, hn, decide_false, Bool.false_and]

theorem competencyRow_tree
    (h : StackWritten doc version stackId blockIds competencyIds blocks competencies levels topics)
    {a : RowId × Node} (ha : a ∈ competencies) (blockId : RowId) :
    CompetencyRow.tree (stackRows name version stackId blockIds blocks competencies levels topics)
      ⟨a.1, version, blockId, a.2.id⟩ = doc.competencyTree a.2 := by
  -- Of all the levels, those of the row are the ones of its node.
  have hlevels : (levels.filter (fun r => r.competencyId = a.1)).map
      (fun r => (r.rank, r.descriptor)) = a.2.levels.map (fun l => (l.level, l.descriptorEn)) := by
    have hown := filter_flatMap_of_nodup (fun a : RowId × Node =>
      a.2.levels.map (fun l => (l.level, l.descriptorEn))) h.competencies_nodup ha
    simp only [List.map_map] at hown
    rw [← hown]
    have hmap := h.levels_map
    simp only [Function.comp_def]
    rw [← hmap, List.filter_map, List.map_map]
    rfl
  -- Of all the topics, those of the row are the children of its node.
  have htopics : (topics.filter (fun r => r.competencyId = a.1)).map TopicRow.name =
      (doc.nodes.filter (fun n => n.parent = some a.2.id)).map Node.id := by
    have hmap := congrArg (fun l => (l.filter (fun r => r.1 = some a.1)).map Prod.snd) h.topics_map
    simp only [List.filter_map, List.map_map, Function.comp_def, Option.some.injEq] at hmap
    rw [hmap, filter_lookup h.competencyIds_entries h.competencies_nodup ha]
  simp only [CompetencyRow.tree, Document.competencyTree, stackRows, hlevels, htopics]

theorem blockRow_tree
    (h : StackWritten doc version stackId blockIds competencyIds blocks competencies levels topics)
    {b : RowId × Node} (hb : b ∈ blocks) :
    BlockRow.tree (stackRows name version stackId blockIds blocks competencies levels topics)
      ⟨b.1, version, stackId, b.2.id, 0⟩ = doc.blockTree b.2 := by
  -- The competencies that refer to the row are the children of its node.
  have hchildren : (competencies.filter
      (fun a => (a.2.parent.bind blockIds.get?).getD 0 = b.1)).map Prod.snd =
        doc.nodes.filter (fun n => n.parent = some b.2.id) := by
    -- Which rows refer to it is read off their nodes.
    have hmap : (competencies.filter
        (fun a => (a.2.parent.bind blockIds.get?).getD 0 = b.1)).map Prod.snd =
          (competencies.map Prod.snd).filter
            (fun n => (n.parent.bind blockIds.get?).getD 0 = b.1) := by
      rw [List.filter_map]
      rfl
    rw [hmap, h.competencies_nodes, ← filter_lookup h.blockIds_entries h.blocks_nodup hb]
    -- Only nodes that are looked up at all are left, so there is no default.
    refine List.filter_congr (fun n hn => ?_)
    have hsome := (List.mem_filter.mp hn).2
    rcases Option.isSome_iff_exists.mp hsome with ⟨i, hi⟩
    simp only [hi, Option.getD_some, Option.some.injEq]
  -- Each of them has the tree of its node.
  have htrees : ((stackRows name version stackId blockIds blocks competencies levels
      topics).competency.filter (fun r => r.competencyBlockId = b.1)).map
        (CompetencyRow.tree (stackRows name version stackId blockIds blocks competencies levels
          topics))
        = (doc.nodes.filter (fun n => n.parent = some b.2.id)).map doc.competencyTree := by
    rw [← hchildren, List.map_map]
    simp only [stackRows, List.filter_map, List.map_map]
    refine List.map_congr_left (fun a ha => ?_)
    exact competencyRow_tree h (List.mem_of_mem_filter ha) _
  simp only [BlockRow.tree, Document.blockTree, htrees]

/-- The rows of a document have its tree. -/
theorem stackRows_tree
    (h : StackWritten doc version stackId blockIds competencyIds blocks competencies levels
      topics) :
    (stackRows name version stackId blockIds blocks competencies levels topics).tree =
      {doc.tree name} := by
  -- All the blocks belong to the one stack.
  have hown : (stackRows name version stackId blockIds blocks competencies levels
      topics).competencyBlock.filter (fun r => r.stackId = stackId) =
        blocks.map (fun a => ⟨a.1, version, stackId, a.2.id, 0⟩) := by
    refine List.filter_eq_self.mpr (fun r hr => ?_)
    rcases List.mem_map.mp hr with ⟨a, _, rfl⟩
    exact decide_eq_true rfl
  -- Each block has the tree of its node, and the nodes are the ones without a parent.
  have htrees : (blocks.map (fun a => (⟨a.1, version, stackId, a.2.id, 0⟩ : BlockRow))).map
      (BlockRow.tree (stackRows name version stackId blockIds blocks competencies levels topics)) =
        (doc.nodes.filter (fun n => n.parent = none)).map doc.blockTree := by
    rw [← h.blocks_nodes, List.map_map, List.map_map]
    exact List.map_congr_left (fun b hb => blockRow_tree h hb)
  have hstack : StackRow.tree (stackRows name version stackId blockIds blocks competencies levels
      topics) ⟨stackId, version, name⟩ = doc.tree name := by
    simp only [StackRow.tree, Document.tree, hown, htrees]
  rw [← hstack]
  rfl

end OneStack

/-- Identifiers and references lie in a range. -/
structure Rows.Local (lo hi : Nat) (rows : Rows) : Prop where
  stack : ∀ r ∈ rows.stack, lo ≤ r.id ∧ r.id < hi
  competencyBlock : ∀ r ∈ rows.competencyBlock,
    (lo ≤ r.id ∧ r.id < hi) ∧ lo ≤ r.stackId ∧ r.stackId < hi
  competency : ∀ r ∈ rows.competency,
    (lo ≤ r.id ∧ r.id < hi) ∧ lo ≤ r.competencyBlockId ∧ r.competencyBlockId < hi
  topic : ∀ r ∈ rows.topic, lo ≤ r.competencyId ∧ r.competencyId < hi
  level : ∀ r ∈ rows.level, lo ≤ r.competencyId ∧ r.competencyId < hi

/-- Rows that a key does not lead to can be left out. -/
theorem filter_key_eq_nil {ρ : Type} {key : ρ → Nat} {k : Nat} {xs : List ρ}
    (h : ∀ r ∈ xs, key r ≠ k) : xs.filter (fun r => key r = k) = [] := by
  rw [List.filter_eq_nil_iff]
  intro r hr hk
  exact h r hr (of_decide_eq_true hk)

theorem filter_append_of_right {ρ : Type} {key : ρ → Nat} {k : Nat} {xs ys : List ρ}
    (h : ∀ r ∈ ys, key r ≠ k) :
    (xs ++ ys).filter (fun r => key r = k) = xs.filter (fun r => key r = k) := by
  rw [List.filter_append, filter_key_eq_nil h, List.append_nil]

theorem filter_append_of_left {ρ : Type} {key : ρ → Nat} {k : Nat} {xs ys : List ρ}
    (h : ∀ r ∈ xs, key r ≠ k) :
    (xs ++ ys).filter (fun r => key r = k) = ys.filter (fun r => key r = k) := by
  rw [List.filter_append, filter_key_eq_nil h, List.nil_append]

/-- Rows of disjoint ranges have the trees of both. -/
theorem tree_append {lo mid hi : Nat} {a b : Rows} (ha : a.Local lo mid) (hb : b.Local mid hi) :
    (a ++ b).tree = a.tree + b.tree := by
  -- No reference of one leads to a row of the other, table by table.
  -- Competencies first: their levels and topics are in the rows they came with.
  have hca (c) (hc : c ∈ a.competency) : CompetencyRow.tree (a ++ b) c = c.tree a := by
    have hid := (ha.competency c hc).1.2
    unfold CompetencyRow.tree
    rw [level_append, topic_append,
      filter_append_of_right (fun r hr => Nat.ne_of_gt (Nat.lt_of_lt_of_le hid (hb.level r hr).1)),
      filter_append_of_right (fun r hr => Nat.ne_of_gt (Nat.lt_of_lt_of_le hid (hb.topic r hr).1))]
  have hcb (c) (hc : c ∈ b.competency) : CompetencyRow.tree (a ++ b) c = c.tree b := by
    have hid := (hb.competency c hc).1.1
    unfold CompetencyRow.tree
    rw [level_append, topic_append,
      filter_append_of_left (fun r hr => Nat.ne_of_lt (Nat.lt_of_lt_of_le (ha.level r hr).2 hid)),
      filter_append_of_left (fun r hr => Nat.ne_of_lt (Nat.lt_of_lt_of_le (ha.topic r hr).2 hid))]
  -- Then the blocks, by their competencies.
  have hba (x) (hx : x ∈ a.competencyBlock) : BlockRow.tree (a ++ b) x = x.tree a := by
    have hid := (ha.competencyBlock x hx).1.2
    unfold BlockRow.tree
    rw [competency_append,
      filter_append_of_right (fun r hr =>
        Nat.ne_of_gt (Nat.lt_of_lt_of_le hid (hb.competency r hr).2.1)),
      List.map_congr_left (fun c hc => hca c (List.mem_of_mem_filter hc))]
  have hbb (x) (hx : x ∈ b.competencyBlock) : BlockRow.tree (a ++ b) x = x.tree b := by
    have hid := (hb.competencyBlock x hx).1.1
    unfold BlockRow.tree
    rw [competency_append,
      filter_append_of_left (fun r hr =>
        Nat.ne_of_lt (Nat.lt_of_lt_of_le (ha.competency r hr).2.2 hid)),
      List.map_congr_left (fun c hc => hcb c (List.mem_of_mem_filter hc))]
  -- Then the stacks, by their blocks.
  have hsa (x) (hx : x ∈ a.stack) : StackRow.tree (a ++ b) x = x.tree a := by
    have hid := (ha.stack x hx).2
    unfold StackRow.tree
    rw [competencyBlock_append,
      filter_append_of_right (fun r hr =>
        Nat.ne_of_gt (Nat.lt_of_lt_of_le hid (hb.competencyBlock r hr).2.1)),
      List.map_congr_left (fun c hc => hba c (List.mem_of_mem_filter hc))]
  have hsb (x) (hx : x ∈ b.stack) : StackRow.tree (a ++ b) x = x.tree b := by
    have hid := (hb.stack x hx).1
    unfold StackRow.tree
    rw [competencyBlock_append,
      filter_append_of_left (fun r hr =>
        Nat.ne_of_lt (Nat.lt_of_lt_of_le (ha.competencyBlock r hr).2.2 hid)),
      List.map_congr_left (fun c hc => hbb c (List.mem_of_mem_filter hc))]
  simp only [Rows.tree, stack_append, List.map_append, List.map_congr_left hsa,
    List.map_congr_left hsb, Multiset.coe_add]

/-- What is looked up has been handed out. -/
theorem allotted_of_lookup {lo hi : Nat} {ids : Dict String RowId} {alloc : List (RowId × Node)}
    (hentries : ids.entries = alloc.map (fun a => (a.2.id, a.1)))
    (hids : Allotted lo hi (alloc.map Prod.fst)) {n : Node} {id : RowId}
    (h : n.parent.bind ids.get? = some id) : lo ≤ id ∧ id < hi := by
  rcases Option.bind_eq_some_iff.mp h with ⟨p, _, hp⟩
  rw [Dict.get?_eq_some_iff, hentries, List.mem_map] at hp
  rcases hp with ⟨a, ha, heq⟩
  rw [Prod.mk.injEq] at heq
  exact hids.2 id (List.mem_map.mpr ⟨a, ha, heq.2⟩)

/-- A document with unique ids is written as rows of its own with its tree. -/
theorem materialiseStack_wrote (version : RowId) (name : String) {doc : Document}
    (hdoc : doc.UniqueIds) (w : Writing) :
    ∃ rows : Rows, Wrote w (materialiseStack version name doc w) rows ∧
      rows.tree = {doc.tree name} ∧
      rows.competency.map CompetencyRow.name = doc.competencies.map Node.id ∧
      rows.Local w.tables.nextId (materialiseStack version name doc w).tables.nextId ∧
      rows.Within (fun id => id = version) := by
  have hkeys : ((Dict.empty : Dict String RowId).keys ++ doc.nodes.map Node.id).Nodup := hdoc
  -- The row of the stack, and what each pass writes after it.
  have hstack := wrote_insert w (fun id => { stack := [⟨id, version, name⟩] })
  rcases passBlocks_wrote version w.tables.nextId doc.nodes .empty
    (w.insertStack version name).2 hkeys with ⟨blocks, hbnodes, hbids, hbentries, hbwrote⟩
  rcases passCompetencies_wrote version
    (passBlocks version w.tables.nextId doc.nodes .empty (w.insertStack version name).2).1
    doc.nodes .empty
    (passBlocks version w.tables.nextId doc.nodes .empty (w.insertStack version name).2).2 hkeys
    with ⟨competencies, levels, hcnodes, hcids, hcentries, hlevels, hlevelsv, hcwrote⟩
  -- The dictionaries and the tables between the passes get names of their own.
  generalize hB : passBlocks version w.tables.nextId doc.nodes .empty
    (w.insertStack version name).2 = passed at *
  rcases passed with ⟨blockIds, w₁⟩
  generalize hC : passCompetencies version blockIds doc.nodes .empty w₁ = passed at *
  rcases passed with ⟨competencyIds, w₂⟩
  rcases passTopics_wrote version competencyIds doc.nodes w₂ with
    ⟨topics, htopics, htopicsv, htwrote⟩
  -- The importer runs these passes, since ids are distinct.
  have hend : materialiseStack version name doc w
      = passTopics version competencyIds doc.nodes w₂ := by
    have hfirst : w.insertStack version name = (w.tables.nextId, (w.insertStack version name).2) :=
      rfl
    unfold materialiseStack
    rw [Document.values_eq hdoc, hfirst]
    simp only [hB, hC]
  rw [hend]
  have hall := ((hstack.trans hbwrote).trans hcwrote).trans htwrote
  -- Put together, the rows of the passes are the rows of the document.
  have hsum : ({ stack := [⟨w.tables.nextId, version, name⟩] } : Rows) ++
      { competencyBlock := blocks.map (fun a => ⟨a.1, version, w.tables.nextId, a.2.id, 0⟩) } ++
      { competency := competencies.map (fun a =>
          ⟨a.1, version, (a.2.parent.bind blockIds.get?).getD 0, a.2.id⟩), level := levels } ++
      { topic := topics } = stackRows name version w.tables.nextId blockIds blocks competencies
        levels topics := by
    ext1 <;> simp [stackRows]
  rw [hsum] at hall
  have hwritten : StackWritten doc version w.tables.nextId blockIds competencyIds blocks
      competencies levels topics :=
    { blocks_nodes := hbnodes
      blocks_nodup := hbids.1
      blockIds_entries := hbentries
      competencies_nodes := hcnodes
      competencies_nodup := hcids.1
      competencyIds_entries := hcentries
      levels_map := hlevels
      topics_map := htopics }
  -- The ranges of the passes, within the range of the whole.
  have hlo : w.tables.nextId < (passTopics version competencyIds doc.nodes w₂).tables.nextId :=
    Nat.lt_of_lt_of_le (Nat.lt_succ_self _)
      (hbwrote.nextId_le.trans (hcwrote.nextId_le.trans htwrote.nextId_le))
  have hbrange : Allotted w.tables.nextId
      (passTopics version competencyIds doc.nodes w₂).tables.nextId (blocks.map Prod.fst) := by
    refine ⟨hbids.1, fun id hid => ⟨?_, ?_⟩⟩
    · exact (Nat.le_succ _).trans (hbids.2 id hid).1
    · exact Nat.lt_of_lt_of_le (hbids.2 id hid).2 (hcwrote.nextId_le.trans htwrote.nextId_le)
  have hcrange : Allotted w.tables.nextId
      (passTopics version competencyIds doc.nodes w₂).tables.nextId
        (competencies.map Prod.fst) := by
    refine ⟨hcids.1, fun id hid => ⟨?_, ?_⟩⟩
    · exact (Nat.le_succ _).trans (hbwrote.nextId_le.trans (hcids.2 id hid).1)
    · exact Nat.lt_of_lt_of_le (hcids.2 id hid).2 htwrote.nextId_le
  refine ⟨_, hall, stackRows_tree hwritten, ?_, ?_, ?_⟩
  · -- The names are those of the nodes under a block.
    have hnames : (competencies.map Prod.snd).map Node.id = doc.competencies.map Node.id := by
      rw [hcnodes, competencies_eq hbnodes hbentries]
    rw [← hnames, List.map_map]
    exact List.map_map
  · -- Identifiers are of the range, and references are looked up from identifiers.
    constructor
    · intro r hr
      rw [List.mem_singleton.mp hr]
      exact ⟨le_refl _, hlo⟩
    · intro r hr
      rcases List.mem_map.mp hr with ⟨a, ha, rfl⟩
      exact ⟨hbrange.2 _ (List.mem_map_of_mem ha), le_refl _, hlo⟩
    · intro r hr
      rcases List.mem_map.mp hr with ⟨a, ha, rfl⟩
      refine ⟨hcrange.2 _ (List.mem_map_of_mem ha), ?_⟩
      have hmem : a.2 ∈ doc.nodes.filter (fun n => (n.parent.bind blockIds.get?).isSome) :=
        hcnodes ▸ List.mem_map_of_mem ha
      rcases Option.isSome_iff_exists.mp (List.mem_filter.mp hmem).2 with ⟨i, hi⟩
      rw [hi]
      exact allotted_of_lookup hbentries hbrange hi
    · intro r hr
      have hmem := htopics ▸ List.mem_map_of_mem (f := fun r : TopicRow =>
        (some r.competencyId, r.name)) hr
      rcases List.mem_map.mp hmem with ⟨n, _, hn⟩
      exact allotted_of_lookup hcentries hcrange (congrArg Prod.fst hn)
    · intro r hr
      have hmem := hlevels ▸ List.mem_map_of_mem (f := fun r : LevelRow =>
        (r.competencyId, r.rank, r.descriptor)) hr
      rcases List.mem_flatMap.mp hmem with ⟨a, ha, hra⟩
      rcases List.mem_map.mp hra with ⟨l, _, hl⟩
      have hid : a.1 = r.competencyId := congrArg Prod.fst hl
      exact hid ▸ hcrange.2 _ (List.mem_map_of_mem ha)
  · -- Every row carries the version.
    constructor
    · intro r hr
      rw [List.mem_singleton.mp hr]
    · intro r hr
      rcases List.mem_map.mp hr with ⟨a, ha, rfl⟩
      rfl
    · intro r hr
      rcases List.mem_map.mp hr with ⟨a, ha, rfl⟩
      rfl
    · exact htopicsv
    · exact hlevelsv

/-- Rows of both kinds are of either kind. -/
theorem Rows.Within.append {a b : Rows} {known : RowId → Prop} (ha : a.Within known)
    (hb : b.Within known) : (a ++ b).Within known := by
  constructor
  · exact fun r hr => (List.mem_append.mp hr).elim (ha.stack r) (hb.stack r)
  · exact fun r hr => (List.mem_append.mp hr).elim (ha.competencyBlock r) (hb.competencyBlock r)
  · exact fun r hr => (List.mem_append.mp hr).elim (ha.competency r) (hb.competency r)
  · exact fun r hr => (List.mem_append.mp hr).elim (ha.topic r) (hb.topic r)
  · exact fun r hr => (List.mem_append.mp hr).elim (ha.level r) (hb.level r)

theorem Rows.Local.mono {lo lo' hi hi' : Nat} {a : Rows} (hlo : lo' ≤ lo) (hhi : hi ≤ hi')
    (h : a.Local lo hi) : a.Local lo' hi' := by
  have hwide {i : Nat} (hi : lo ≤ i ∧ i < hi) : lo' ≤ i ∧ i < hi' :=
    ⟨hlo.trans hi.1, Nat.lt_of_lt_of_le hi.2 hhi⟩
  constructor
  · exact fun r hr => hwide (h.stack r hr)
  · exact fun r hr => ⟨hwide (h.competencyBlock r hr).1, hwide (h.competencyBlock r hr).2⟩
  · exact fun r hr => ⟨hwide (h.competency r hr).1, hwide (h.competency r hr).2⟩
  · exact fun r hr => hwide (h.topic r hr)
  · exact fun r hr => hwide (h.level r hr)

theorem Rows.Local.append {lo hi : Nat} {a b : Rows} (ha : a.Local lo hi) (hb : b.Local lo hi) :
    (a ++ b).Local lo hi := by
  constructor
  · exact fun r hr => (List.mem_append.mp hr).elim (ha.stack r) (hb.stack r)
  · exact fun r hr => (List.mem_append.mp hr).elim (ha.competencyBlock r) (hb.competencyBlock r)
  · exact fun r hr => (List.mem_append.mp hr).elim (ha.competency r) (hb.competency r)
  · exact fun r hr => (List.mem_append.mp hr).elim (ha.topic r) (hb.topic r)
  · exact fun r hr => (List.mem_append.mp hr).elim (ha.level r) (hb.level r)

/-- Documents with unique ids are written as rows with their trees. -/
theorem materialise_wrote (version : RowId) (docs : List (String × Document))
    (hdocs : ∀ d ∈ docs, d.2.UniqueIds) (w : Writing) :
    ∃ rows : Rows, Wrote w (materialise version docs w) rows ∧ rows.tree = payloadTree docs ∧
      rows.competency.map CompetencyRow.name =
        docs.flatMap (fun d => d.2.competencies.map Node.id) ∧
      rows.Local w.tables.nextId (materialise version docs w).tables.nextId ∧
      rows.Within (fun id => id = version) := by
  induction docs generalizing w with
  | nil =>
      refine ⟨{}, Wrote.refl w, rfl, rfl, ?_, ?_⟩
      · constructor <;> exact fun r hr => absurd hr List.not_mem_nil
      · constructor <;> exact fun r hr => absurd hr List.not_mem_nil
  | cons d docs ih =>
      rcases materialiseStack_wrote version d.1 (hdocs d List.mem_cons_self) w with
        ⟨a, hawrote, hatree, hanames, halocal, hawithin⟩
      rcases ih (fun d hd => hdocs d (List.mem_cons_of_mem _ hd))
        (materialiseStack version d.1 d.2 w) with
        ⟨b, hbwrote, hbtree, hbnames, hblocal, hbwithin⟩
      have hstep : materialise version (d :: docs) w =
          materialise version docs (materialiseStack version d.1 d.2 w) := rfl
      rw [hstep]
      refine ⟨a ++ b, hawrote.trans hbwrote, ?_, ?_, ?_, hawithin.append hbwithin⟩
      · rw [tree_append halocal hblocal, hatree, hbtree]
        rfl
      · rw [competency_append, List.map_append, hanames, hbnames, List.flatMap_cons]
      · exact (halocal.mono (le_refl _) hbwrote.nextId_le).append
          (hblocal.mono hawrote.nextId_le (le_refl _))

end Stacks

section Refusals

variable (version : RowId)

/-- A level can be stored. -/
def Level.Storable (level : Level) : Prop := level.refusal = none

instance (level : Level) : Decidable level.Storable := inferInstanceAs (Decidable (_ = none))

/-- All the levels of the competencies can be stored. -/
def Document.Storable (doc : Document) : Prop :=
  ∀ c ∈ doc.competencies, ∀ level ∈ c.levels, level.Storable

instance (doc : Document) : Decidable doc.Storable :=
  inferInstanceAs (Decidable (∀ c ∈ doc.competencies, ∀ level ∈ c.levels, level.Storable))

theorem insertLevels_refused (competencyId : RowId) (levels : List Level) (w : Writing) :
    (insertLevels version competencyId levels w).refused = none ↔
      w.refused = none ∧ ∀ level ∈ levels, level.Storable := by
  induction levels generalizing w with
  | nil => simp [insertLevels]
  | cons level levels ih =>
      have hstep : (w.insertLevel version competencyId level).refused =
          w.refused.or level.refusal := rfl
      rw [insertLevels, ih, hstep, Option.or_eq_none_iff, List.forall_mem_cons, and_assoc]
      rfl

theorem passBlocks_refused (stackId : RowId) (nodes : List Node) (blockIds : Dict String RowId)
    (w : Writing) : (passBlocks version stackId nodes blockIds w).2.refused = w.refused := by
  induction nodes generalizing blockIds w with
  | nil => rfl
  | cons node nodes ih =>
      cases hp : node.parent with
      | none =>
          rw [passBlocks, hp]
          exact ih _ _
      | some p =>
          rw [passBlocks, hp]
          exact ih _ _

/-- Only the second pass can be refused, for a level of a competency. -/
theorem passCompetencies_refused (blockIds : Dict String RowId) (nodes : List Node)
    (competencyIds : Dict String RowId) (w : Writing) :
    (passCompetencies version blockIds nodes competencyIds w).2.refused = none ↔
      w.refused = none ∧ ∀ n ∈ nodes.filter (fun n => (n.parent.bind blockIds.get?).isSome),
        ∀ level ∈ n.levels, level.Storable := by
  induction nodes generalizing competencyIds w with
  | nil => simp [passCompetencies]
  | cons node nodes ih =>
      cases hp : node.parent.bind blockIds.get? with
      | none =>
          rw [passCompetencies, hp, List.filter_cons_of_neg (by rw [hp]; exact Bool.false_ne_true)]
          exact ih _ _
      | some blockId =>
          rw [passCompetencies, hp, List.filter_cons_of_pos (by rw [hp]; rfl), List.forall_mem_cons]
          refine (ih _ _).trans ?_
          rw [insertLevels_refused, and_assoc]

theorem passTopics_refused (competencyIds : Dict String RowId) (nodes : List Node) (w : Writing) :
    (passTopics version competencyIds nodes w).refused = w.refused := by
  induction nodes generalizing w with
  | nil => rfl
  | cons node nodes ih =>
      cases hp : node.parent.bind competencyIds.get? with
      | none =>
          rw [passTopics, hp]
          exact ih _
      | some competencyId =>
          rw [passTopics, hp]
          exact ih _

theorem materialiseStack_refused (name : String) {doc : Document} (hdoc : doc.UniqueIds)
    (w : Writing) : (materialiseStack version name doc w).refused = none ↔
      w.refused = none ∧ doc.Storable := by
  rcases passBlocks_wrote version w.tables.nextId doc.nodes .empty (w.insertStack version name).2
    hdoc with ⟨blocks, hnodes, _, hentries, _⟩
  have hend : (materialiseStack version name doc w).refused =
      (passCompetencies version
        (passBlocks version w.tables.nextId doc.nodes .empty (w.insertStack version name).2).1
        doc.nodes .empty
        (passBlocks version w.tables.nextId doc.nodes .empty
          (w.insertStack version name).2).2).2.refused := by
    unfold materialiseStack
    rw [Document.values_eq hdoc]
    exact passTopics_refused version _ _ _
  rw [hend, passCompetencies_refused, passBlocks_refused, competencies_eq hnodes hentries]
  rfl

/-- Writing is refused just when some level of some competency is. -/
theorem materialise_refused (docs : List (String × Document)) (hdocs : ∀ d ∈ docs, d.2.UniqueIds)
    (w : Writing) : (materialise version docs w).refused = none ↔
      w.refused = none ∧ ∀ d ∈ docs, d.2.Storable := by
  induction docs generalizing w with
  | nil => simp [materialise]
  | cons d docs ih =>
      have hstep : materialise version (d :: docs) w =
          materialise version docs (materialiseStack version d.1 d.2 w) := rfl
      rw [hstep, ih (fun d hd => hdocs d (List.mem_cons_of_mem _ hd)),
        materialiseStack_refused version d.1 (hdocs d List.mem_cons_self), List.forall_mem_cons,
        and_assoc]

/-- Writing is refused for no other reason than a character. -/
def Writing.Usual (w : Writing) : Prop :=
  w.refused = none ∨ w.refused = some .characterNotInRepertoire

theorem insertLevels_usual (competencyId : RowId) (levels : List Level) (w : Writing)
    (h : w.Usual) : (insertLevels version competencyId levels w).Usual := by
  induction levels generalizing w with
  | nil => exact h
  | cons level levels ih =>
      refine ih _ ?_
      have hstep : (w.insertLevel version competencyId level).refused =
          w.refused.or level.refusal := rfl
      unfold Writing.Usual
      rw [hstep, Level.refusal]
      rcases h with h | h
      · rw [h, Option.none_or]
        by_cases hchar : level.descriptorEn.toList.contains '\x00' = true
        · rw [if_pos hchar]
          exact Or.inr rfl
        · rw [if_neg hchar]
          exact Or.inl rfl
      · rw [h]
        exact Or.inr rfl

theorem passCompetencies_usual (blockIds : Dict String RowId) (nodes : List Node)
    (competencyIds : Dict String RowId) (w : Writing) (h : w.Usual) :
    (passCompetencies version blockIds nodes competencyIds w).2.Usual := by
  induction nodes generalizing competencyIds w with
  | nil => exact h
  | cons node nodes ih =>
      cases hp : node.parent.bind blockIds.get? with
      | none =>
          rw [passCompetencies, hp]
          exact ih _ _ h
      | some blockId =>
          rw [passCompetencies, hp]
          exact ih _ _ (insertLevels_usual version _ _ _ h)

theorem materialise_usual (docs : List (String × Document)) (w : Writing) (h : w.Usual) :
    (materialise version docs w).Usual := by
  induction docs generalizing w with
  | nil => exact h
  | cons d docs ih =>
      refine ih (materialiseStack version d.1 d.2 w) ?_
      unfold materialiseStack Writing.Usual
      simp only [passTopics_refused]
      refine passCompetencies_usual version _ _ _ _ ?_
      unfold Writing.Usual
      rw [passBlocks_refused]
      exact h

end Refusals

end TechScreen.Rubric
