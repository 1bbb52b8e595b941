import Mathlib.Algebra.Order.BigOperators.Group.List
import Mathlib.Algebra.GroupWithZero.Nat
import Mathlib.Algebra.Order.Group.Nat
import TechScreen.Rubric.RoundTrip

/-!
# Whether a Seed Is Complete

The schema takes any parent that looks like an id, any number of nodes with one
id, and levels at any node. The importer does not look further. It keeps the last
of the nodes with one id, stores what it finds a place for, and says nothing about
the rest, so the version that a seed creates has every node and every level only
if each document is layered: no id twice, three generations of nodes, and levels
in the second one.

What a seed says it has written is what it has written, in any case. But when it
fails in the database it does not fail with an error of the importer's own: what
the driver raises leaves it as it is.

## Main definitions

* `Tables.size`: The number of rows of all tables.
* `Document.Layered`: What a document has to be like.
* `Stores`: A version has every node and every level of some documents.
* `Due`: A seed gets to writing a version.
* `ImporterError.typed`: An error of the importer's own.
* `Complete`: A seed stores everything, or raises a typed error.
* `Seedable`: What the documents and the tables have to be like.

## Theorems

* `size_of_seed`: The rows that a seed writes are counted.
* `stores_iff_layered`: Which documents are stored in full.
* `complete_iff_seedable`: When a seed is complete.
* `dangling_skipped`: A node that gets lost.
-/

namespace TechScreen.Rubric

open Lib

section Sizes

/-- The number of rows of the tree. -/
def Rows.size (rows : Rows) : Nat :=
  rows.stack.length + rows.competencyBlock.length + rows.competency.length + rows.topic.length +
    rows.level.length

/-- The number of rows of all tables. -/
def Tables.size (t : Tables) : Nat := t.versions.length + t.rows.size + t.auditLog.length

theorem Rows.size_append (a b : Rows) : (a ++ b).size = a.size + b.size := by
  simp only [Rows.size, stack_append, competencyBlock_append, competency_append, topic_append,
    level_append, List.length_append]
  omega

/-- What has been inserted between is counted. -/
def Counted (w w' : Writing) : Prop :=
  w'.tables.size + w.inserted = w.tables.size + w'.inserted

theorem Counted.trans {a b c : Writing} (hab : Counted a b) (hbc : Counted b c) : Counted a c := by
  unfold Counted at *
  omega

/-- One row is counted once. -/
theorem counted_insert (w : Writing) (row : RowId → Rows) (h : ∀ id, (row id).size = 1) :
    Counted w (w.insert row).2 := by
  have hsize : (w.insert row).2.tables.size = w.tables.size + 1 := by
    change w.tables.versions.length + (w.tables.rows ++ row w.tables.nextId).size +
      w.tables.auditLog.length = _
    rw [Rows.size_append, h, Tables.size]
    omega
  have hinserted : (w.insert row).2.inserted = w.inserted + 1 := rfl
  unfold Counted
  omega

variable (version : RowId)

theorem counted_insertStack (name : String) (w : Writing) :
    Counted w (w.insertStack version name).2 :=
  counted_insert w (fun id => { stack := [⟨id, version, name⟩] }) (fun _ => rfl)

theorem counted_insertBlock (stackId : RowId) (name : String) (w : Writing) :
    Counted w (w.insertBlock version stackId name).2 :=
  counted_insert w (fun id => { competencyBlock := [⟨id, version, stackId, name, 0⟩] })
    (fun _ => rfl)

theorem counted_insertCompetency (blockId : RowId) (name : String) (w : Writing) :
    Counted w (w.insertCompetency version blockId name).2 :=
  counted_insert w (fun id => { competency := [⟨id, version, blockId, name⟩] }) (fun _ => rfl)

theorem counted_insertTopic (competencyId : RowId) (name : String) (w : Writing) :
    Counted w (w.insertTopic version competencyId name).2 :=
  counted_insert w (fun id => { topic := [⟨id, version, competencyId, name⟩] }) (fun _ => rfl)

theorem counted_insertLevel (competencyId : RowId) (level : Level) (w : Writing) :
    Counted w (w.insertLevel version competencyId level) :=
  counted_insert w (fun id =>
    { level := [⟨id, version, competencyId, level.level, level.descriptorEn⟩] }) (fun _ => rfl)

theorem counted_insertLevels (competencyId : RowId) (levels : List Level) (w : Writing) :
    Counted w (insertLevels version competencyId levels w) := by
  induction levels generalizing w with
  | nil => exact rfl
  | cons level levels ih => exact (counted_insertLevel version competencyId level w).trans (ih _)

theorem counted_passBlocks (stackId : RowId) (nodes : List Node) (blockIds : Dict String RowId)
    (w : Writing) : Counted w (passBlocks version stackId nodes blockIds w).2 := by
  induction nodes generalizing blockIds w with
  | nil => exact rfl
  | cons node nodes ih =>
      cases hp : node.parent with
      | none =>
          rw [passBlocks, hp]
          exact (counted_insertBlock version stackId node.id w).trans (ih _ _)
      | some p =>
          rw [passBlocks, hp]
          exact ih _ _

theorem counted_passCompetencies (blockIds : Dict String RowId) (nodes : List Node)
    (competencyIds : Dict String RowId) (w : Writing) :
    Counted w (passCompetencies version blockIds nodes competencyIds w).2 := by
  induction nodes generalizing competencyIds w with
  | nil => exact rfl
  | cons node nodes ih =>
      cases hp : node.parent.bind blockIds.get? with
      | none =>
          rw [passCompetencies, hp]
          exact ih _ _
      | some blockId =>
          have hrow := counted_insertCompetency version blockId node.id w
          have hlevels := counted_insertLevels version w.tables.nextId node.levels
            (w.insertCompetency version blockId node.id).2
          rw [passCompetencies, hp]
          exact (hrow.trans hlevels).trans (ih _ _)

theorem counted_passTopics (competencyIds : Dict String RowId) (nodes : List Node) (w : Writing) :
    Counted w (passTopics version competencyIds nodes w) := by
  induction nodes generalizing w with
  | nil => exact rfl
  | cons node nodes ih =>
      cases hp : node.parent.bind competencyIds.get? with
      | none =>
          rw [passTopics, hp]
          exact ih _
      | some competencyId =>
          rw [passTopics, hp]
          exact (counted_insertTopic version competencyId node.id w).trans (ih _)

theorem counted_materialiseStack (name : String) (doc : Document) (w : Writing) :
    Counted w (materialiseStack version name doc w) := by
  have hstack := counted_insertStack version name w
  have hblocks := counted_passBlocks version w.tables.nextId doc.values .empty
    (w.insertStack version name).2
  have hcompetencies := counted_passCompetencies version
    (passBlocks version w.tables.nextId doc.values .empty (w.insertStack version name).2).1
    doc.values .empty
    (passBlocks version w.tables.nextId doc.values .empty (w.insertStack version name).2).2
  exact ((hstack.trans hblocks).trans hcompetencies).trans (counted_passTopics version _ _ _)

/-- Every row that is written is counted. -/
theorem counted_materialise (docs : List (String × Document)) (w : Writing) :
    Counted w (materialise version docs w) := by
  induction docs generalizing w with
  | nil => exact rfl
  | cons d docs ih => exact (counted_materialiseStack version d.1 d.2 w).trans (ih _)

/-- A seed writes the rows that it says it has written. -/
theorem size_of_seed {kit : Toolkit} {dir : RubricDir} {dryRun : Bool} {now : Instant}
    {t t' : Tables} {result : SeedResult} (h : seed kit dir dryRun now t = .ok (result, t')) :
    t.size + result.rowsInserted = t'.size := by
  obtain ⟨docs, -, htransaction⟩ := seed_ok h
  rcases seedTransaction_cases htransaction with
    ⟨-, rfl, rfl⟩ | ⟨-, -, ⟨-, rfl, rfl⟩ | ⟨-, hwrite⟩⟩
  · rfl
  · rfl
  · unfold writeVersion at hwrite
    split at hwrite
    · cases hwrite
    · have hcounted := counted_materialise t.nextId docs
        (openVersion (computePayloadHash kit dir) now t)
      have hopen : (openVersion (computePayloadHash kit dir) now t).tables.size = t.size + 1 := by
        simp only [openVersion, Tables.size, List.length_append, List.length_singleton]
        omega
      obtain ⟨rows, hwrote, -⟩ := materialise_tree t.nextId docs
        (openVersion (computePayloadHash kit dir) now t)
      have haudit : (materialise t.nextId docs
          (openVersion (computePayloadHash kit dir) now t)).tables.auditLog = t.auditLog := by
        rw [hwrote.tables]
        rfl
      have hone : (openVersion (computePayloadHash kit dir) now t).inserted = 1 := rfl
      dsimp only at hwrite
      split at hwrite
      · cases hwrite
      · cases hwrite
        unfold Counted at hcounted
        simp only [Tables.size, haudit, List.length_append, List.length_singleton] at *
        omega

end Sizes

section Layers

/-- What a document has to be like: no id twice, every parent a block or the child
    of one, and levels at the children of blocks only. -/
structure Document.Layered (doc : Document) : Prop where
  uniqueIds : doc.UniqueIds
  rooted : doc.Rooted
  levels : ∀ n ∈ doc.nodes, n.levels ≠ [] → n ∈ doc.competencies

instance (doc : Document) : Decidable doc.Layered :=
  decidable_of_iff (doc.UniqueIds ∧ (∀ n ∈ doc.nodes, doc.Placed n) ∧
      ∀ n ∈ doc.nodes, n.levels ≠ [] → n ∈ doc.competencies)
    ⟨fun h => ⟨h.1, Document.rooted_iff.mpr h.2.1, h.2.2⟩,
      fun h => ⟨h.uniqueIds, Document.rooted_iff.mp h.rooted, h.levels⟩⟩

variable {doc : Document}

/-- The importer keeps one node for each id. -/
theorem Document.values_subperm (doc : Document) :
    List.Subperm (doc.values.map Node.id) (doc.nodes.map Node.id) := by
  refine List.Nodup.subperm doc.distinct_uniqueIds (fun id hid => ?_)
  obtain ⟨n, hn, rfl⟩ := List.mem_map.mp hid
  obtain ⟨e, he, rfl⟩ := List.mem_map.mp hn
  exact List.mem_map_of_mem (Document.mem_nodesById he).2

theorem Document.values_length_le (doc : Document) : doc.values.length ≤ doc.nodes.length := by
  have hlength := doc.values_subperm.length_le
  rwa [List.length_map, List.length_map] at hlength

theorem Document.uniqueIds_of_length (h : doc.nodes.length ≤ doc.values.length) :
    doc.UniqueIds := by
  have hperm := doc.values_subperm.perm_of_length_le (by rwa [List.length_map, List.length_map])
  exact hperm.nodup_iff.mp doc.distinct_uniqueIds

/-- How many rows the tree of a document has. -/
theorem Document.card_placements (doc : Document) (name : String) :
    Multiset.card (doc.distinct.tree name).placements =
      (doc.values.filter doc.distinct.Placed).length := by
  rw [Document.tree_placements name doc.distinct_uniqueIds, Multiset.card_map]
  rfl

theorem Document.card_placements_le (doc : Document) (name : String) :
    Multiset.card (doc.distinct.tree name).placements ≤ doc.nodes.length := by
  rw [Document.card_placements]
  exact (List.length_filter_le _ _).trans doc.values_length_le

/-- A document has a row for every node only if no id is there twice and every node
    has a place. -/
theorem Document.rooted_of_card {name : String}
    (h : Multiset.card (doc.distinct.tree name).placements = doc.nodes.length) :
    doc.UniqueIds ∧ doc.Rooted := by
  rw [Document.card_placements] at h
  have hfilter := List.length_filter_le (fun n => decide (doc.distinct.Placed n)) doc.values
  have hvalues := doc.values_length_le
  have hids : doc.UniqueIds := Document.uniqueIds_of_length (by omega)
  refine ⟨hids, Document.rooted_iff.mpr (fun n hn => ?_)⟩
  rw [Document.distinct_eq hids, Document.values_eq hids] at h
  exact of_decide_eq_true (List.length_filter_eq_length_iff.mp h n hn)

/-- The levels that a tree has are levels of the document. -/
theorem Document.length_listing_le (doc : Document) :
    (doc.competencies.flatMap Node.listing).length ≤ (doc.nodes.flatMap Node.listing).length :=
  (Document.competencies_sublist.flatMap Node.listing).length_le

/-- The other nodes. -/
def Document.elsewhere (doc : Document) : List Node :=
  doc.nodes.filter (fun n => n ∉ doc.competencies)

/-- The levels of a document are those of its competencies and those that are listed
    elsewhere. -/
theorem Document.listing_split (doc : Document) :
    (doc.competencies.flatMap Node.listing).length +
      (doc.elsewhere.flatMap Node.listing).length = (doc.nodes.flatMap Node.listing).length := by
  have hcompetencies : doc.competencies = doc.nodes.filter (fun n => n ∈ doc.competencies) := by
    refine List.filter_congr (fun n hn => ?_)
    simp only [Document.competencies, List.mem_filter, hn, true_and, decide_eq_true_eq]
  have helsewhere : doc.elsewhere =
      doc.nodes.filter (fun n => !decide (n ∈ doc.competencies)) := by
    simp only [Document.elsewhere, decide_not]
  have hperm := List.filter_append_perm (fun n => decide (n ∈ doc.competencies)) doc.nodes
  rw [← hcompetencies, ← helsewhere] at hperm
  rw [← (hperm.flatMap_right Node.listing).length_eq, List.flatMap_append, List.length_append]

/-- A document has a row for every level only if competencies have them all. -/
theorem Document.levels_iff : (doc.competencies.flatMap Node.listing).length =
      (doc.nodes.flatMap Node.listing).length ↔
    ∀ n ∈ doc.nodes, n.levels ≠ [] → n ∈ doc.competencies := by
  have hsplit := doc.listing_split
  constructor
  · intro h n hn hlevels
    by_contra hother
    have hnone : (doc.elsewhere.flatMap Node.listing).length = 0 := by omega
    have hmem : n ∈ doc.elsewhere := List.mem_filter.mpr ⟨hn, decide_eq_true hother⟩
    have hlisting := List.flatMap_eq_nil_iff.mp (List.length_eq_zero_iff.mp hnone) n hmem
    exact hlevels (List.map_eq_nil_iff.mp hlisting)
  · intro h
    have hnone : doc.elsewhere.flatMap Node.listing = [] := by
      refine List.flatMap_eq_nil_iff.mpr (fun n hmem => ?_)
      obtain ⟨hn, hother⟩ := List.mem_filter.mp hmem
      by_cases hlevels : n.levels = []
      · rw [Node.listing, hlevels, List.map_nil]
      · exact absurd (h n hn hlevels) (of_decide_eq_true hother)
    rw [hnone, List.length_nil] at hsplit
    omega

/-- The tree of a layered document has all of it. -/
theorem Document.Layered.tree (h : doc.Layered) (name : String) :
    (doc.tree name).placements = (doc.nodes.map Node.placement : List Placement) ∧
      (doc.tree name).listing = (doc.nodes.flatMap Node.listing : List Listing) := by
  have hall : doc.nodes.filter doc.Placed = doc.nodes :=
    List.filter_eq_self.mpr (fun n hn =>
      decide_eq_true (Document.rooted_iff.mp h.rooted n hn))
  have hlisting : doc.competencies.flatMap Node.listing = doc.nodes.flatMap Node.listing :=
    (Document.competencies_sublist.flatMap Node.listing).eq_of_length
      (Document.levels_iff.mpr h.levels)
  constructor
  · rw [Document.tree_placements name h.uniqueIds, hall, Multiset.map_coe]
  · rw [Document.tree_listing name h.uniqueIds, hlisting]

end Layers

section Versions

/-- The rows of a version have every node of some documents, once and under the node
    that it names, and every level that a node lists. -/
def Stores (docs : List (String × Document)) (rows : Rows) : Prop :=
  rows.tree.map (fun s => (s.name, s.placements, s.listing)) =
    (docs.map (fun d => (d.1, (d.2.nodes.map Node.placement : Multiset Placement),
      (d.2.nodes.flatMap Node.listing : Multiset Listing))) :
        List (String × Multiset Placement × Multiset Listing))

/-- Numbers that are not above others have their sum only if they are the others. -/
theorem eq_of_sum_eq {α : Type} {f g : α → Nat} {as : List α} (hle : ∀ a ∈ as, f a ≤ g a)
    (h : (as.map f).sum = (as.map g).sum) : ∀ a ∈ as, f a = g a := by
  intro a ha
  by_contra hne
  have hlt : f a < g a := lt_of_le_of_ne (hle a ha) hne
  exact absurd h (List.sum_lt_sum f g hle ⟨a, ha, hlt⟩).ne

/-- The documents that are stored in full are the layered ones. -/
theorem stores_iff_layered {docs : List (String × Document)} {rows : Rows}
    (h : rows.tree = payloadTree (distinctDocs docs)) :
    Stores docs rows ↔ ∀ d ∈ docs, d.2.Layered := by
  unfold Stores
  rw [h, payloadTree, distinctDocs, Multiset.map_coe, List.map_map, List.map_map]
  constructor
  · intro hstores
    -- Nothing is there twice, so what is missing is missed in the numbers.
    have hrows := congrArg (fun m => (m.map (fun s => Multiset.card s.2.1)).sum) hstores
    have hlevels := congrArg (fun m => (m.map (fun s => Multiset.card s.2.2)).sum) hstores
    simp only [Multiset.map_coe, Multiset.sum_coe, List.map_map, Function.comp_def] at hrows hlevels
    have hrooted : ∀ d ∈ docs, d.2.UniqueIds ∧ d.2.Rooted := by
      intro d hd
      refine Document.rooted_of_card ((eq_of_sum_eq (fun d _ => ?_) hrows d hd).trans ?_)
      · rw [Multiset.coe_card, List.length_map]
        exact d.2.card_placements_le d.1
      · rw [Multiset.coe_card, List.length_map]
    intro d hd
    obtain ⟨hids, hroots⟩ := hrooted d hd
    have hone : ∀ d ∈ docs, Multiset.card (d.2.distinct.tree d.1).listing =
        (d.2.competencies.flatMap Node.listing).length := by
      intro d hd
      rw [Document.distinct_eq (hrooted d hd).1, Document.tree_listing d.1 (hrooted d hd).1,
        Multiset.coe_card]
    have hall := eq_of_sum_eq (fun d hd => ?_) hlevels d hd
    · rw [hone d hd, Multiset.coe_card] at hall
      exact ⟨hids, hroots, Document.levels_iff.mp hall⟩
    · rw [hone d hd, Multiset.coe_card]
      exact d.2.length_listing_le
  · intro hlayered
    refine congrArg _ (List.map_congr_left (fun d hd => ?_))
    have htree := (hlayered d hd).tree d.1
    change (d.1, (d.2.distinct.tree d.1).placements, (d.2.distinct.tree d.1).listing) = _
    rw [Document.distinct_eq (hlayered d hd).uniqueIds, htree.1, htree.2]

/-- A seed gets to writing a version of the documents: they are not the latest
    version's, no id has gone, and it is not a dry run. -/
structure Due (docs : List (String × Document)) (newHash : String) (dryRun : Bool) (t : Tables) :
    Prop where
  changed : t.latest?.map VersionRow.payloadHash ≠ some newHash
  kept : disappeared t docs = []
  run : dryRun = false

/-- The error is one of the importer's own, below `RubricImporterError`. -/
def ImporterError.typed : ImporterError → Bool
  | .schemaViolation _ | .renameForbidden _ => true
  | .uniqueViolation | .characterNotInRepertoire | .unreadable _ => false

/-- A seed of documents that pass the schema raises a typed error, and then its
    transaction is rolled back; or it says how much it has stored, and a version
    that it creates has everything. -/
structure Complete (kit : Toolkit) (dir : RubricDir) (dryRun : Bool) (now : Instant)
    (db : Database) : Prop where
  fails : ∀ docs e, loadYamlDir kit dir = .ok docs →
    seed kit dir dryRun now db.1 = .error e → e.typed = true
  succeeds : ∀ docs result t', loadYamlDir kit dir = .ok docs →
    seed kit dir dryRun now db.1 = .ok (result, t') →
      db.1.size + result.rowsInserted = t'.size ∧
        ∀ v, result.newVersionId = some v → Stores docs (t'.rows.of v)

/-- The documents can be written in full: no version has them yet, the database
    takes the texts of their levels, and each of them is layered. -/
structure Seedable (docs : List (String × Document)) (newHash : String) (t : Tables) : Prop where
  fresh : newHash ∉ t.versions.map VersionRow.payloadHash
  storable : ∀ d ∈ docs, d.2.Storable
  layered : ∀ d ∈ docs, d.2.Layered

section Outcomes

variable {docs : List (String × Document)} {newHash : String} {dryRun : Bool} {now : Instant}
  {t t' : Tables} {result : SeedResult}

/-- Writing the documents is refused if the tables do not take a level. -/
theorem openVersion_refused_iff :
    (materialise t.nextId docs (openVersion newHash now t)).refused = none ↔
      ∀ d ∈ distinctDocs docs, d.2.Storable := by
  rw [← materialise_distinctDocs, materialise_refused _ _ distinctDocs_uniqueIds]
  exact ⟨fun h => h.2, fun h => ⟨rfl, h⟩⟩

/-- A transaction that creates a version was due to. -/
theorem due_of_seedTransaction {v : RowId}
    (h : seedTransaction docs newHash dryRun now t = .ok (result, t'))
    (hv : result.newVersionId = some v) : Due docs newHash dryRun t := by
  rcases seedTransaction_cases h with
    ⟨-, rfl, -⟩ | ⟨hchanged, hkept, ⟨-, rfl, -⟩ | ⟨hrun, -⟩⟩
  · cases hv
  · cases hv
  · exact ⟨hchanged, hkept, hrun⟩

/-- One that is due to writes the version. -/
theorem seedTransaction_of_due (h : Due docs newHash dryRun t) :
    seedTransaction docs newHash dryRun now t = writeVersion docs newHash now t := by
  rw [seedTransaction, if_neg h.changed, if_neg (fun hne => hne h.kept), h.run,
    if_neg Bool.false_ne_true]

/-- One that is not raises a typed error only. -/
theorem typed_of_not_due {e : ImporterError} (h : ¬ Due docs newHash dryRun t)
    (he : seedTransaction docs newHash dryRun now t = .error e) : e.typed = true := by
  unfold seedTransaction at he
  split at he
  · cases he
  · next hchanged =>
      split at he
      · cases he
        rfl
      · next hkept =>
          split at he
          · cases he
          · next hrun =>
              exact absurd ⟨hchanged, not_not.mp hkept, Bool.eq_false_of_not_eq_true hrun⟩ h

/-- Writing a version fails with an error of the database only. -/
theorem writeVersion_untyped {e : ImporterError} (h : writeVersion docs newHash now t = .error e) :
    e.typed = false := by
  unfold writeVersion at h
  split at h
  · cases h
    rfl
  · have husual : (materialise t.nextId docs (openVersion newHash now t)).Usual :=
      materialise_usual _ _ _ (Or.inl rfl)
    dsimp only at h
    split at h
    · next hrefused =>
        cases h
        rcases husual with hnone | hchar
        · rw [hnone] at hrefused
          cases hrefused
        · rw [hchar] at hrefused
          cases hrefused
          rfl
    · cases h

/-- It succeeds just when no version has the hash and the tables take the levels. -/
theorem writeVersion_creates_iff :
    (∃ result t', writeVersion docs newHash now t = .ok (result, t') ∧
        result.newVersionId = some t.nextId) ↔
      newHash ∉ t.versions.map VersionRow.payloadHash ∧
        ∀ d ∈ distinctDocs docs, d.2.Storable := by
  rw [← @openVersion_refused_iff docs newHash now t]
  unfold writeVersion
  constructor
  · rintro ⟨result, t', hwrite, -⟩
    split at hwrite
    · cases hwrite
    · next hfresh =>
        refine ⟨hfresh, ?_⟩
        cases hrefused : (materialise t.nextId docs (openVersion newHash now t)).refused with
        | none => rfl
        | some e =>
            simp only [hrefused] at hwrite
            cases hwrite
  · rintro ⟨hfresh, hrefused⟩
    rw [if_neg hfresh]
    simp only [hrefused, Except.ok.injEq, Prod.mk.injEq]
    exact ⟨_, _, ⟨rfl, rfl⟩, rfl⟩

end Outcomes

/-- A seed is complete exactly when the documents are seedable, if it gets to writing
    them. -/
theorem complete_iff_seedable (kit : Toolkit) (dir : RubricDir) (dryRun : Bool) (now : Instant)
    (db : Database) :
    Complete kit dir dryRun now db ↔ ∀ docs, loadYamlDir kit dir = .ok docs →
      Due docs (computePayloadHash kit dir) dryRun db.1 →
        Seedable docs (computePayloadHash kit dir) db.1 := by
  have hseed : ∀ docs, loadYamlDir kit dir = .ok docs → seed kit dir dryRun now db.1 =
      seedTransaction docs (computePayloadHash kit dir) dryRun now db.1 := by
    intro docs hload
    rw [seed, hload]
    rfl
  constructor
  · intro hcomplete docs hload hdue
    have hwrite := (hseed docs hload).trans (seedTransaction_of_due hdue)
    -- A failure would be one of the database.
    cases hx : writeVersion docs (computePayloadHash kit dir) now db.1 with
    | error e =>
        have htyped := hcomplete.fails docs e hload (hwrite.trans hx)
        rw [writeVersion_untyped hx] at htyped
        cases htyped
    | ok r =>
        rcases r with ⟨result, t'⟩
        have hversioned := writeVersion_versioned hx
        have hv : result.newVersionId = some db.1.nextId := hversioned.2.1
        obtain ⟨hfresh, hstorable⟩ := writeVersion_creates_iff.mp ⟨result, t', hx, hv⟩
        have hlayered := (stores_iff_layered (hversioned.1.tree db.2).1).mp
          ((hcomplete.succeeds docs result t' hload (hwrite.trans hx)).2 _ hv)
        rw [distinctDocs_eq (fun d hd => (hlayered d hd).uniqueIds)] at hstorable
        exact ⟨hfresh, hstorable, hlayered⟩
  · intro hseedable
    refine ⟨fun docs e hload he => ?_, fun docs result t' hload hok =>
      ⟨size_of_seed hok, fun v hv => ?_⟩⟩
    · rw [hseed docs hload] at he
      by_cases hdue : Due docs (computePayloadHash kit dir) dryRun db.1
      · have hsound := hseedable docs hload hdue
        have hstorable : ∀ d ∈ distinctDocs docs, d.2.Storable := by
          rw [distinctDocs_eq (fun d hd => (hsound.layered d hd).uniqueIds)]
          exact hsound.storable
        obtain ⟨result, t', hwrite, -⟩ :=
          (@writeVersion_creates_iff docs _ now db.1).mpr ⟨hsound.fresh, hstorable⟩
        rw [seedTransaction_of_due hdue, hwrite] at he
        cases he
      · exact typed_of_not_due hdue he
    · rw [hseed docs hload] at hok
      have hlayered := (hseedable docs hload (due_of_seedTransaction hok hv)).layered
      obtain ⟨rfl, hversioned⟩ := seedTransaction_versioned hok hv
      exact (stores_iff_layered (hversioned.tree db.2).1).mpr hlayered

/-- A block, and a competency whose block is not in the file. -/
def danglingText : Bytes :=
  utf8 ("\x7bversion: 1, nodes: [" ++
    "\x7bid: b, label_en: B, label_uk: B\x7d, " ++
    "\x7bid: c, label_en: C, label_uk: C, parent: x\x7d]\x7d")

def danglingJson : Json :=
  .obj [("version", .int 1), ("nodes", .arr [
    .obj [("id", .str "b"), ("label_en", .str "B"), ("label_uk", .str "B")],
    .obj [("id", .str "c"), ("label_en", .str "C"), ("label_uk", .str "C"),
      ("parent", .str "x")]])]

def danglingKit : Toolkit :=
  .table [(danglingText, danglingJson)]
    [(danglingText, "7930baf4641cfc366f689da176589845a5a0251ec9ba31872649de237541355f")]

def danglingDir : RubricDir where
  path := "configs/rubric"
  files := [("go.yaml", danglingText)]
  sorted := List.pairwise_singleton _ _
  yaml file hfile := by
    rw [List.mem_singleton.mp hfile]
    exact yaml_sample

theorem stableId_b : isStableId "b" = true := by decide +kernel
theorem stableId_c : isStableId "c" = true := by decide +kernel

def danglingDocument : Document where
  nodes := [⟨"b", none, false, [], stableId_b⟩, ⟨"c", some "x", false, [], stableId_c⟩]

/-- The seed succeeds, and the competency is in no table. -/
theorem dangling_skipped : ¬ Complete danglingKit danglingDir false 0 Database.empty := by
  intro hcomplete
  have hload : loadYamlDir danglingKit danglingDir = .ok [("go", danglingDocument)] := by
    decide +kernel
  have hcreates : (seed danglingKit danglingDir false 0 Database.empty.1).toOption.map
      (fun r => r.1.newVersionId) = some (some 0) := by decide +kernel
  cases hseed : seed danglingKit danglingDir false 0 Database.empty.1 with
  | error e =>
      rw [hseed] at hcreates
      cases hcreates
  | ok r =>
      rw [hseed] at hcreates
      have hv : r.1.newVersionId = some 0 := Option.some.inj hcreates
      have hstores := (hcomplete.succeeds _ r.1 r.2 hload hseed).2 0 hv
      obtain ⟨docs, hload', htransaction⟩ := seed_ok hseed
      rw [hload, Except.ok.injEq] at hload'
      subst hload'
      obtain ⟨-, hversioned⟩ := seedTransaction_versioned htransaction hv
      have htree := (hversioned.tree Database.empty.2).1
      have hlayered := (stores_iff_layered htree).mp hstores _ List.mem_cons_self
      exact absurd hlayered (by decide +kernel)

end Versions

end TechScreen.Rubric
