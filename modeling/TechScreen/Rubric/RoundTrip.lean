import TechScreen.Rubric.Placement

/-!
# What a Seed Writes a Snapshot Reads

A seed that creates a version writes the tree of its documents and leaves every
other row alone, and a snapshot of the version reads the tree back. Where every
parent is a block or lies under one, the tree has every node, once.

The importer finds the nodes of a document by their ids, so of a document with an
id twice it takes the later node; that document, with one node for each id, is
what the tables get.

## Main definitions

* `Document.distinct`, `distinctDocs`: The documents as the importer takes them.
* `Versioned`: What writing a version does to the tables.

## Theorems

* `payloadTree_names`: The tree of a payload has every node, once.
* `Versioned.tree`, `Versioned.frame`, `Versioned.sound`: The rows of the new
  version, of the others, and the constraints.
* `seed_then_snapshot`: A snapshot of a new version is the payload.
-/

namespace TechScreen.Rubric

open Lib

section Names

/-- The tree of a payload has every node of every document, once. -/
theorem payloadTree_names {docs : List (String × Document)}
    (hdocs : ∀ d ∈ docs, d.2.UniqueIds ∧ d.2.Rooted) :
    (payloadTree docs).bind StackTree.names =
      (docs.flatMap (fun d => d.2.nodes.map Node.id) : List String) := by
  induction docs with
  | nil => rfl
  | cons d docs ih =>
      have hd := hdocs d List.mem_cons_self
      have htree : payloadTree (d :: docs) = d.2.tree d.1 ::ₘ payloadTree docs := rfl
      rw [htree, Multiset.cons_bind, ih (fun d hd => hdocs d (List.mem_cons_of_mem _ hd)),
        Document.tree_names d.1 hd.1 hd.2, Multiset.coe_add, List.flatMap_cons]

end Names

section Seeding

/-- The document with one node for each id, the later of two. -/
def Document.distinct (doc : Document) : Document := ⟨doc.values⟩

/-- The nodes by their ids have the ids they are found by. -/
theorem Document.mem_nodesById {doc : Document} {e : String × Node}
    (h : e ∈ doc.nodesById.entries) : e.1 = e.2.id ∧ e.2 ∈ doc.nodes := by
  rcases List.mem_map.mp (Dict.mem_of_mem_ofList h) with ⟨n, hn, rfl⟩
  exact ⟨rfl, hn⟩

theorem Document.distinct_uniqueIds (doc : Document) : doc.distinct.UniqueIds := by
  have hkeys : doc.values.map Node.id = doc.nodesById.keys := by
    rw [Document.values, List.map_map]
    exact List.map_congr_left (fun e he => (Document.mem_nodesById he).1.symm)
  rw [Document.UniqueIds, Document.distinct, hkeys]
  exact doc.nodesById.nodup

theorem Document.distinct_eq {doc : Document} (h : doc.UniqueIds) : doc.distinct = doc := by
  rw [Document.distinct, Document.values_eq h]

/-- The documents as the importer takes them. -/
def distinctDocs (docs : List (String × Document)) : List (String × Document) :=
  docs.map (fun d => (d.1, d.2.distinct))

theorem distinctDocs_uniqueIds {docs : List (String × Document)} :
    ∀ d ∈ distinctDocs docs, d.2.UniqueIds := by
  intro d hd
  rcases List.mem_map.mp hd with ⟨e, _, rfl⟩
  exact e.2.distinct_uniqueIds

/-- The ids of the competencies of a payload. -/
def competencyIds (docs : List (String × Document)) : List String :=
  (distinctDocs docs).flatMap (fun d => d.2.competencies.map Node.id)

theorem distinctDocs_eq {docs : List (String × Document)} (h : ∀ d ∈ docs, d.2.UniqueIds) :
    distinctDocs docs = docs := by
  rw [distinctDocs, List.map_congr_left (fun d hd =>
    show (d.1, d.2.distinct) = d by rw [Document.distinct_eq (h d hd)])]
  exact List.map_id' docs

/-- The importer does not see more of a document. -/
theorem materialise_distinctDocs (version : RowId) (docs : List (String × Document)) (w : Writing) :
    materialise version (distinctDocs docs) w = materialise version docs w := by
  have hstack (name : String) (doc : Document) (w : Writing) :
      materialiseStack version name doc.distinct w = materialiseStack version name doc w := by
    unfold materialiseStack
    rw [Document.values_eq doc.distinct_uniqueIds]
    rfl
  unfold materialise distinctDocs
  rw [List.foldl_map]
  exact congrArg (fun f => docs.foldl f w) (funext fun w => funext fun d => hstack d.1 d.2 w)

/-- Every document is written as rows with the trees of the documents. -/
theorem materialise_tree (version : RowId) (docs : List (String × Document)) (w : Writing) :
    ∃ rows : Rows, Wrote w (materialise version docs w) rows ∧
      rows.tree = payloadTree (distinctDocs docs) ∧
      rows.competency.map CompetencyRow.name = competencyIds docs ∧
      rows.Within (fun id => id = version) := by
  rcases materialise_wrote version (distinctDocs docs) distinctDocs_uniqueIds w with
    ⟨rows, hwrote, htree, hnames, _, hwithin⟩
  rw [materialise_distinctDocs] at hwrote
  exact ⟨rows, hwrote, htree, hnames, hwithin⟩

@[simp] theorem of_append (a b : Rows) (version : RowId) :
    (a ++ b).of version = a.of version ++ b.of version := by
  ext1 <;> simp [Rows.of]

/-- Rows of one version are the rows of that version. -/
theorem of_eq_self {rows : Rows} {version : RowId} (h : rows.Within (fun id => id = version)) :
    rows.of version = rows := by
  ext1
  · exact List.filter_eq_self.mpr (fun r hr => decide_eq_true (h.stack r hr))
  · exact List.filter_eq_self.mpr (fun r hr => decide_eq_true (h.competencyBlock r hr))
  · exact List.filter_eq_self.mpr (fun r hr => decide_eq_true (h.competency r hr))
  · exact List.filter_eq_self.mpr (fun r hr => decide_eq_true (h.topic r hr))
  · exact List.filter_eq_self.mpr (fun r hr => decide_eq_true (h.level r hr))

/-- A version that no row names has no rows. -/
theorem of_eq_empty {rows : Rows} {known : RowId → Prop} {version : RowId} (h : rows.Within known)
    (hversion : ¬ known version) : rows.of version = {} := by
  have hnot {i : RowId} (hi : known i) : ¬ decide (i = version) = true :=
    fun he => hversion (of_decide_eq_true he ▸ hi)
  ext1
  · exact List.filter_eq_nil_iff.mpr (fun r hr => hnot (h.stack r hr))
  · exact List.filter_eq_nil_iff.mpr (fun r hr => hnot (h.competencyBlock r hr))
  · exact List.filter_eq_nil_iff.mpr (fun r hr => hnot (h.competency r hr))
  · exact List.filter_eq_nil_iff.mpr (fun r hr => hnot (h.topic r hr))
  · exact List.filter_eq_nil_iff.mpr (fun r hr => hnot (h.level r hr))

theorem Rows.Within.mono {rows : Rows} {known known' : RowId → Prop}
    (h : rows.Within known) (himp : ∀ i, known i → known' i) : rows.Within known' :=
  ⟨fun r hr => himp _ (h.stack r hr), fun r hr => himp _ (h.competencyBlock r hr),
    fun r hr => himp _ (h.competency r hr), fun r hr => himp _ (h.topic r hr),
    fun r hr => himp _ (h.level r hr)⟩

/-- What writing a version that succeeds does: the version has the next
    identifier, its rows have the tree of the documents, and every other row is
    left alone. -/
structure Versioned (docs : List (String × Document)) (newHash : String) (now : Instant)
    (t t' : Tables) : Prop where
  fresh : newHash ∉ t.versions.map VersionRow.payloadHash
  versions : t'.versions = t.versions ++ [newVersion t.nextId newHash now]
  nextId_lt : t.nextId < t'.nextId
  rows : ∃ rows : Rows, t'.rows = t.rows ++ rows ∧ rows.tree = payloadTree (distinctDocs docs) ∧
    rows.competency.map CompetencyRow.name = competencyIds docs ∧
    rows.Within (fun id => id = t.nextId)

theorem writeVersion_versioned {docs : List (String × Document)} {newHash : String} {now : Instant}
    {t t' : Tables} {result : SeedResult} (h : writeVersion docs newHash now t = .ok (result, t')) :
    Versioned docs newHash now t t' ∧ result.newVersionId = some t.nextId ∧
      result.noop = false := by
  by_cases hfresh : newHash ∈ t.versions.map VersionRow.payloadHash
  · rw [writeVersion, if_pos hfresh] at h
    cases h
  · rw [writeVersion, if_neg hfresh] at h
    rcases materialise_tree t.nextId docs (openVersion newHash now t) with
      ⟨rows, hwrote, htree, hnames, hwithin⟩
    generalize materialise t.nextId docs (openVersion newHash now t) = w at h hwrote
    cases hrefused : w.refused with
    | some e =>
        simp only [hrefused] at h
        cases h
    | none =>
        simp only [hrefused, Except.ok.injEq, Prod.mk.injEq] at h
        rcases h with ⟨rfl, rfl⟩
        refine ⟨⟨hfresh, ?_, ?_, rows, ?_, htree, hnames, hwithin⟩, rfl, rfl⟩
        · rw [hwrote.tables]
          rfl
        · exact hwrote.nextId_le
        · rw [hwrote.tables]
          rfl

/-- The new version has the tree of the documents, and their competencies. -/
theorem Versioned.tree {docs : List (String × Document)} {newHash : String} {now : Instant}
    {t t' : Tables} (ht : t.Sound) (h : Versioned docs newHash now t t') :
    (t'.rows.of t.nextId).tree = payloadTree (distinctDocs docs) ∧
      t'.competencyNames t.nextId = competencyIds docs := by
  rcases h.rows with ⟨rows, hrows, htree, hnames, hwithin⟩
  have hunknown : ¬ t.nextId ∈ t.versions.map VersionRow.id := by
    intro hmem
    rcases List.mem_map.mp hmem with ⟨v, hv, hid⟩
    exact absurd (ht.versions_lt v hv) (hid ▸ Nat.lt_irrefl _)
  have hof : t'.rows.of t.nextId = rows := by
    rw [hrows, of_append, of_eq_self hwithin, of_eq_empty ht.rows_within hunknown]
    ext1 <;> simp
  rw [Tables.competencyNames, hof]
  exact ⟨htree, hnames⟩

/-- Every other version keeps its rows. -/
theorem Versioned.frame {docs : List (String × Document)} {newHash : String} {now : Instant}
    {t t' : Tables} (h : Versioned docs newHash now t t') {version : RowId}
    (hne : version ≠ t.nextId) : t'.rows.of version = t.rows.of version := by
  rcases h.rows with ⟨rows, hrows, _, _, hwithin⟩
  rw [hrows, of_append, of_eq_empty hwithin hne, Rows.append_empty]

/-- The constraints hold of the tables with the new version. -/
theorem Versioned.sound {docs : List (String × Document)} {newHash : String} {now : Instant}
    {t t' : Tables} (ht : t.Sound) (h : Versioned docs newHash now t t') : t'.Sound := by
  rcases h.rows with ⟨rows, hrows, _, _, hwithin⟩
  constructor
  · intro v hv
    rw [h.versions] at hv
    rcases List.mem_append.mp hv with hv | hv
    · exact Nat.lt_trans (ht.versions_lt v hv) h.nextId_lt
    · rw [List.mem_singleton.mp hv]
      exact h.nextId_lt
  · rw [h.versions, List.map_append, List.nodup_append]
    refine ⟨ht.versions_nodup, List.nodup_singleton _, ?_⟩
    rintro i hi j hj rfl
    rcases List.mem_map.mp hi with ⟨v, hv, rfl⟩
    have hid : v.id = t.nextId := List.mem_singleton.mp hj
    exact absurd (ht.versions_lt v hv) (hid ▸ Nat.lt_irrefl _)
  · rw [h.versions, List.map_append, List.nodup_append]
    refine ⟨ht.hashes_nodup, List.nodup_singleton _, ?_⟩
    rintro i hi j hj rfl
    have hhash : i = newHash := List.mem_singleton.mp hj
    exact h.fresh (hhash ▸ hi)
  · rw [hrows, h.versions]
    refine Rows.Within.append (ht.rows_within.mono fun i hi => ?_) (hwithin.mono fun i hi => ?_)
    · rw [List.map_append]
      exact List.mem_append_left _ hi
    · rw [List.map_append, hi]
      exact List.mem_append_right _ List.mem_cons_self

/-- What a transaction that succeeds has done. -/
theorem seedTransaction_cases {docs : List (String × Document)} {newHash : String} {dryRun : Bool}
    {now : Instant} {t t' : Tables} {result : SeedResult}
    (h : seedTransaction docs newHash dryRun now t = .ok (result, t')) :
    (t.latest?.map VersionRow.payloadHash = some newHash ∧
      result = ⟨true, none, newHash, 0⟩ ∧ t' = t) ∨
    (t.latest?.map VersionRow.payloadHash ≠ some newHash ∧ disappeared t docs = [] ∧
      ((dryRun = true ∧ result = ⟨false, none, newHash, 0⟩ ∧ t' = t) ∨
        (dryRun = false ∧ writeVersion docs newHash now t = .ok (result, t')))) := by
  unfold seedTransaction at h
  by_cases hsame : t.latest?.map VersionRow.payloadHash = some newHash
  · rw [if_pos hsame] at h
    cases h
    exact Or.inl ⟨hsame, rfl, rfl⟩
  · rw [if_neg hsame] at h
    by_cases hgone : disappeared t docs = []
    · rw [if_neg (fun hne => hne hgone)] at h
      refine Or.inr ⟨hsame, hgone, ?_⟩
      cases dryRun with
      | true =>
          cases h
          exact Or.inl ⟨rfl, rfl, rfl⟩
      | false => exact Or.inr ⟨rfl, h⟩
    · rw [if_pos hgone] at h
      cases h

/-- A transaction that creates a version writes it. -/
theorem seedTransaction_versioned {docs : List (String × Document)} {newHash : String}
    {dryRun : Bool} {now : Instant} {t t' : Tables} {result : SeedResult} {v : RowId}
    (h : seedTransaction docs newHash dryRun now t = .ok (result, t'))
    (hv : result.newVersionId = some v) : v = t.nextId ∧ Versioned docs newHash now t t' := by
  rcases seedTransaction_cases h with ⟨_, rfl, _⟩ | ⟨_, _, ⟨_, rfl, _⟩ | ⟨_, hwrite⟩⟩
  · cases hv
  · cases hv
  · rcases writeVersion_versioned hwrite with ⟨hversioned, hid, _⟩
    rw [hid, Option.some.injEq] at hv
    exact ⟨hv.symm, hversioned⟩

/-- A call that gets as far as its transaction has read its directory. -/
theorem seed_ok {kit : Toolkit} {dir : RubricDir} {dryRun : Bool} {now : Instant} {t : Tables}
    {r : SeedResult × Tables} (h : seed kit dir dryRun now t = .ok r) :
    ∃ docs, loadYamlDir kit dir = .ok docs ∧
      seedTransaction docs (computePayloadHash kit dir) dryRun now t = .ok r := by
  unfold seed at h
  cases hload : loadYamlDir kit dir with
  | error e =>
      rw [hload] at h
      cases h
  | ok docs =>
      rw [hload] at h
      exact ⟨docs, rfl, h⟩

/-- What every step of a traversal keeps the whole traversal keeps. -/
theorem map_of_mapM_ok {α β γ err : Type} {f : α → Except err β} {p : β → γ} {q : α → γ}
    (hf : ∀ a b, f a = .ok b → p b = q a) {as : List α} {bs : List β} (h : as.mapM f = .ok bs) :
    bs.map p = as.map q := by
  induction as generalizing bs with
  | nil =>
      cases h
      rfl
  | cons a as ih =>
      rw [List.mapM_cons] at h
      cases ha : f a with
      | error e => simp only [ha, bind, Except.bind, reduceCtorEq] at h
      | ok b =>
          cases has : as.mapM f with
          | error e => simp only [ha, has, bind, Except.bind, reduceCtorEq] at h
          | ok rest =>
              simp only [ha, has, bind, Except.bind, pure, Except.pure, Except.ok.injEq] at h
              rw [← h, List.map_cons, List.map_cons, hf a b ha, ih has]

/-- There is a document for every file, under the name of its stack. -/
theorem loadYamlDir_names {kit : Toolkit} {dir : RubricDir} {docs : List (String × Document)}
    (h : loadYamlDir kit dir = .ok docs) :
    docs.map Prod.fst = dir.files.map (fun file => stem file.1) := by
  refine map_of_mapM_ok (fun file d hd => ?_) h
  cases hdoc : loadDocument kit (dir.path ++ "/" ++ file.1) file.2 with
  | error e => simp only [hdoc, bind, Except.bind, reduceCtorEq] at hd
  | ok doc =>
      simp only [hdoc, bind, Except.bind, pure, Except.pure, Except.ok.injEq] at hd
      rw [← hd]

/-- A snapshot of a version that exists can be taken. -/
theorem snapshotRubric_ok (collation : String → String → Bool) {t : Tables} {v : VersionRow}
    (hv : v ∈ t.versions) :
    ∃ snapshot, snapshotRubric collation t v.id = .ok snapshot ∧
      snapshot.rubricTreeVersionId = v.id := by
  cases hfind : t.versions.find? (fun w => w.id = v.id) with
  | none => exact absurd (decide_eq_true rfl) (List.find?_eq_none.mp hfind v hv)
  | some row =>
      unfold snapshotRubric
      rw [hfind]
      exact ⟨_, rfl, rfl⟩

/-- The snapshot of a version that a seed has created is the tree of the
    documents: one stack for each file, named by its stem, and every node once. -/
theorem seed_then_snapshot (kit : Toolkit) (collation : String → String → Bool) (dir : RubricDir)
    (dryRun : Bool) (now : Instant) (db : Database) (docs : List (String × Document))
    (result : SeedResult) (t' : Tables) (v : RowId) (hload : loadYamlDir kit dir = .ok docs)
    (hdocs : ∀ d ∈ docs, d.2.UniqueIds ∧ d.2.Rooted)
    (hseed : seed kit dir dryRun now db.1 = .ok (result, t'))
    (hv : result.newVersionId = some v) :
    ∃ snapshot, snapshotRubric collation t' v = .ok snapshot ∧ snapshot.rubricTreeVersionId = v ∧
      snapshot.tree = payloadTree docs ∧
      snapshot.tree.map StackTree.name = (dir.files.map (fun file => stem file.1) : List String) ∧
      snapshot.tree.bind StackTree.names =
        (docs.flatMap (fun d => d.2.nodes.map Node.id) : List String) := by
  rcases seed_ok hseed with ⟨docs', hload', htransaction⟩
  rw [hload, Except.ok.injEq] at hload'
  subst hload'
  rcases seedTransaction_versioned htransaction hv with ⟨rfl, hversioned⟩
  have hmem : newVersion db.1.nextId (computePayloadHash kit dir) now ∈ t'.versions := by
    rw [hversioned.versions]
    exact List.mem_append_right _ List.mem_cons_self
  rcases snapshotRubric_ok collation hmem with ⟨snapshot, hsnapshot, hid⟩
  have htree : snapshot.tree = payloadTree docs := by
    rw [snapshotRubric_tree collation hsnapshot]
    refine (hversioned.tree db.2).1.trans ?_
    rw [distinctDocs_eq (fun d hd => (hdocs d hd).1)]
  refine ⟨snapshot, hsnapshot, hid, htree, ?_, ?_⟩
  · rw [htree, ← loadYamlDir_names hload, payloadTree, Multiset.map_coe, List.map_map]
    rfl
  · rw [htree, payloadTree_names hdocs]

/-- A toolkit for texts and digests that are written down. -/
def Toolkit.table (texts : List (Bytes × Json)) (digests : List (Bytes × String)) : Toolkit where
  safeLoad content :=
    if 0 ∈ content then .error "special characters are not allowed"
    else if content = [] then .ok .null
    else match texts.lookup content with
      | some doc => .ok doc
      | none => .error "no such text"
  violation _ := ""
  sha256 content := (digests.lookup content).getD ""
  safeLoad_zero := fun _ h => ⟨_, if_pos h⟩
  safeLoad_nil := rfl

/-- The bytes of a text. -/
def utf8 (s : String) : Bytes := s.toUTF8.data.toList

/-- A matrix with a topic under a competency under a block. -/
def sampleText (descriptor : String) : Bytes :=
  utf8 ("\x7bversion: 1, nodes: [" ++
    "\x7bid: b, label_en: B, label_uk: B\x7d, " ++
    "\x7bid: b.c, label_en: C, label_uk: C, parent: b, " ++
      "levels: [\x7blevel: 1, label_uk: L, descriptor_en: " ++ descriptor ++ "\x7d]\x7d, " ++
    "\x7bid: t, label_en: T, label_uk: T, parent: b.c\x7d]\x7d")

def sampleJson (descriptor : String) : Json :=
  .obj [("version", .int 1), ("nodes", .arr [
    .obj [("id", .str "b"), ("label_en", .str "B"), ("label_uk", .str "B")],
    .obj [("id", .str "b.c"), ("label_en", .str "C"), ("label_uk", .str "C"),
      ("parent", .str "b"), ("levels", .arr [
        .obj [("level", .int 1), ("label_uk", .str "L"), ("descriptor_en", .str descriptor)]])],
    .obj [("id", .str "t"), ("label_en", .str "T"), ("label_uk", .str "T"),
      ("parent", .str "b.c")]])]

def sampleKit : Toolkit :=
  .table [(sampleText "D", sampleJson "D"), (sampleText "E", sampleJson "E")]
    [(sampleText "D", "1e283ea10db16f4b4fbc81b8a26fc54ffd98a673a133095f6d54328371458e6e"),
     (sampleText "E", "e895b22eb9cd4d2d42c9d02c58e948d71877d00d489a9a871ff43f795c104945")]

theorem yaml_sample : ".yaml".toList <:+ "go.yaml".toList := by decide +kernel

def sampleDir (descriptor : String) : RubricDir where
  path := "configs/rubric"
  files := [("go.yaml", sampleText descriptor)]
  sorted := List.pairwise_singleton _ _
  yaml file hfile := by
    rw [List.mem_singleton.mp hfile]
    exact yaml_sample

theorem stableId_sample : isStableId "b" = true ∧ isStableId "b.c" = true ∧
    isStableId "t" = true := by
  decide +kernel

def sampleDocument (descriptor : String) (h : descriptor ≠ "") : Document where
  nodes := [⟨"b", none, false, [], stableId_sample.1⟩,
    ⟨"b.c", some "b", false, [⟨1, descriptor, ⟨le_refl 1, Nat.le_add_left 1 4⟩, h⟩],
      stableId_sample.2.1⟩,
    ⟨"t", some "b.c", false, [], stableId_sample.2.2⟩]

theorem sampleD_ne : "D" ≠ "" := by decide

theorem sampleE_ne : "E" ≠ "" := by decide

theorem loads_sampleD :
    loadYamlDir sampleKit (sampleDir "D") = .ok [("go", sampleDocument "D" sampleD_ne)] := by
  decide +kernel

theorem loads_sampleE :
    loadYamlDir sampleKit (sampleDir "E") = .ok [("go", sampleDocument "E" sampleE_ne)] := by
  decide +kernel

theorem seed_then_snapshot_sample : ∃ t' snapshot,
    snapshotRubric (fun a b => decide (a ≤ b)) t' 0 = .ok snapshot ∧
      snapshot.tree = payloadTree [("go", sampleDocument "D" sampleD_ne)] := by
  have hcreates : (seed sampleKit (sampleDir "D") false 0 Database.empty.1).toOption.map
      (fun r => r.1.newVersionId) = some (some 0) := by decide +kernel
  cases hseed : seed sampleKit (sampleDir "D") false 0 Database.empty.1 with
  | error e =>
      rw [hseed] at hcreates
      cases hcreates
  | ok r =>
      rw [hseed] at hcreates
      rcases seed_then_snapshot sampleKit (fun a b => decide (a ≤ b)) (sampleDir "D") false 0
        Database.empty [("go", sampleDocument "D" sampleD_ne)] r.1 r.2 0 loads_sampleD
        (by decide +kernel) hseed (Option.some.inj hcreates) with ⟨snapshot, hsnapshot, _, htree, _⟩
      exact ⟨r.2, snapshot, hsnapshot, htree⟩

end Seeding

end TechScreen.Rubric
