import TechScreen.Rubric.ConcurrentSeeds
import TechScreen.Rubric.GateIndex
import TechScreen.Rubric.PayloadHash

/-!
# Stable Ids Are Forever

Two checks keep a stable id from disappearing. The gate compares the documents of
two directories and reports every id that is gone. The importer compares the
names of the competencies of the latest version with the ids of the new payload,
and refuses the payload if one is gone; it looks at no block and no topic, it
makes no difference between competencies that were active and those that were
retired, and it passes over every new id that is spelled like a block's.

On documents that satisfy the schema the gate always returns, and what it reports
of active ids is just what is gone. So the two agree on two directories where a
missing id comes with a missing competency, and the other way round.

## Main definitions

* `loadPayload`: What the gate reads of a directory.
* `ValidDir`: A directory that satisfies the schema.
* `ValidDir.Active`, `ValidDir.Loses`: The active ids, and one that is gone.
* `IdsForever`: A seed refuses a payload that has lost an active id, and no other.
* `Screened`: The competencies speak for all ids.

## Theorems

* `index_of_valid`: The gate's index of a valid directory.
* `renames_iff`: When a seed raises the error.
* `idsForever_iff`: When a seed does what it ought to.
-/

namespace TechScreen.Rubric

open Lib

section Reading
variable (kit : Toolkit)

/-- What the gate reads of a file, before any schema. -/
def loadPayloadFile (path : String) (file : String × Bytes) : Except String (String × Json) := do
  match orEmpty (← kit.safeLoad file.2) with
  | .obj fields => return (file.1, .obj fields)
  | _ => throw (path ++ "/" ++ file.1 ++ ": expected a YAML mapping at top level")

def loadPayload (dir : RubricDir) : Except String Gate.Payload := do
  return Dict.ofList (← dir.files.mapM (loadPayloadFile kit dir.path))

/-- A directory whose documents satisfy the schema. -/
structure ValidDir where
  dir : RubricDir
  docs : List (String × Document)
  loads : loadYamlDir kit dir = .ok docs

/-- The ids of a document that satisfies the schema, and whether each is retired,
    by itself or with its file. -/
def nodeStates (j : Json) : List (String × Bool) :=
  match Document.ofJson j with
  | some doc => doc.nodes.map (fun n => (n.id, fileRetired j || n.retired))
  | none => []

/-- One list is made from another, element by element. -/
theorem mapM_ok_of_mapM_ok {α β γ err err' : Type} {f : α → Except err β} {g : α → Except err' γ}
    {R : γ → β → Prop} (hstep : ∀ a b, f a = .ok b → ∃ c, g a = .ok c ∧ R c b)
    {as : List α} {bs : List β} (h : as.mapM f = .ok bs) :
    ∃ cs, as.mapM g = .ok cs ∧ List.Forall₂ R cs bs := by
  induction as generalizing bs with
  | nil =>
      cases h
      exact ⟨[], rfl, List.Forall₂.nil⟩
  | cons a as ih =>
      rw [List.mapM_cons] at h
      cases ha : f a with
      | error e => simp only [ha, bind, Except.bind, reduceCtorEq] at h
      | ok b =>
          cases has : as.mapM f with
          | error e => simp only [ha, has, bind, Except.bind, reduceCtorEq] at h
          | ok rest =>
              simp only [ha, has, bind, Except.bind, pure, Except.pure, Except.ok.injEq] at h
              subst h
              obtain ⟨c, hc, hrel⟩ := hstep a b ha
              obtain ⟨cs, hcs, hrels⟩ := ih has
              refine ⟨c :: cs, ?_, List.Forall₂.cons hrel hrels⟩
              simp only [List.mapM_cons, hc, hcs, bind, Except.bind, pure, Except.pure]

/-- The gate reads a document that the importer accepts. -/
theorem loadPayloadFile_of_valid {path : String} {file : String × Bytes}
    {doc : String × Document}
    (h : (do
      let doc ← loadDocument kit (path ++ "/" ++ file.1) file.2
      return (stem file.1, doc) : Except ImporterError (String × Document)) = .ok doc) :
    ∃ e, loadPayloadFile kit path file = .ok e ∧ Document.ofJson e.2 = some doc.2 := by
  obtain ⟨hdoc, -⟩ := loadYamlDir_step h
  unfold loadDocument at hdoc
  unfold loadPayloadFile
  cases hload : kit.safeLoad file.2 with
  | error e => simp only [hload, Except.mapError, bind, Except.bind, reduceCtorEq] at hdoc
  | ok j =>
      simp only [hload, Except.mapError, bind, Except.bind] at hdoc ⊢
      cases hj : orEmpty j with
      | obj fields =>
          simp only [hj] at hdoc ⊢
          refine ⟨_, rfl, ?_⟩
          cases hof : Document.ofJson (.obj fields) with
          | none => simp only [hof, reduceCtorEq] at hdoc
          | some d =>
              simp only [hof, Except.ok.injEq] at hdoc
              rw [hdoc]
      | _ => simp only [hj, reduceCtorEq] at hdoc

theorem name_of_loadPayloadFile {path : String} {file : String × Bytes} {e : String × Json}
    (h : loadPayloadFile kit path file = .ok e) : e.1 = file.1 := by
  unfold loadPayloadFile at h
  cases hload : kit.safeLoad file.2 with
  | error x => simp only [hload, bind, Except.bind, reduceCtorEq] at h
  | ok j =>
      simp only [hload, bind, Except.bind] at h
      split at h
      · simp only [pure, Except.pure, Except.ok.injEq] at h
        rw [← h]
      · simp only [throw, throwThe, MonadExceptOf.throw, reduceCtorEq] at h

/-- The gate reads every directory that the importer accepts. -/
theorem loadPayload_of_valid (d : ValidDir kit) :
    ∃ p, loadPayload kit d.dir = .ok p ∧
      List.Forall₂ (fun (e : String × Json) (doc : String × Document) =>
        Document.ofJson e.2 = some doc.2) p.entries d.docs := by
  obtain ⟨es, hes, hrel⟩ := mapM_ok_of_mapM_ok (g := loadPayloadFile kit d.dir.path)
    (fun file doc hdoc => loadPayloadFile_of_valid kit hdoc) d.loads
  -- The names of the files are different, so no document replaces another.
  have hnames : es.map Prod.fst = d.dir.files.map Prod.fst :=
    map_of_mapM_ok (fun file e he => name_of_loadPayloadFile kit he) hes
  have hnodup : (es.map Prod.fst).Nodup := by
    rw [hnames]
    exact d.dir.sorted.imp (fun h => ne_of_lt h)
  have hentries : (Dict.ofList es).entries = es :=
    (Dict.foldl_set_entries es Dict.empty hnodup).trans (List.nil_append es)
  refine ⟨Dict.ofList es, ?_, hentries.symm ▸ hrel⟩
  unfold loadPayload
  rw [hes]
  rfl

end Reading

section Indexing
variable (conv : Gate.Conversions)

theorem nodeStates_eq (j : Json) :
    nodeStates j = (docEntries j).map (fun e => (e.1, e.2.retired)) := by
  unfold nodeStates docEntries
  cases Document.ofJson j with
  | none => rfl
  | some doc =>
      rw [List.map_map]
      rfl

/-- The ids of a payload, and whether each node is retired. -/
def payloadStates (p : Gate.Payload) : List (String × Bool) :=
  p.entries.flatMap (fun e => nodeStates e.2)

/-- The gate's index of a valid payload: of two nodes with one id the last counts. -/
theorem index_of_valid {p : Gate.Payload}
    (h : ∀ e ∈ p.entries, (Document.ofJson e.2).isSome = true) :
    ∃ index, Gate.indexNodes conv p = .ok index ∧
      ∀ id, (index.get? id).map Gate.Node.retired = (payloadStates p).reverse.lookup id := by
  refine ⟨_, indexNodes_of_valid conv h, fun id => ?_⟩
  have hstates : payloadStates p = (payloadEntries p).map (fun e => (e.1, e.2.retired)) := by
    unfold payloadStates payloadEntries
    rw [List.map_flatMap]
    exact List.flatMap_congr (fun e _ => nodeStates_eq e.2)
  rw [get?_index, hstates, ← List.map_reverse]
  exact (lookup_map_snd Gate.Node.retired id _).symm

end Indexing

section Ids
variable {kit : Toolkit}

/-- The parsed documents of a valid directory. -/
def ValidDir.payload (d : ValidDir kit) : Gate.Payload :=
  match loadPayload kit d.dir with
  | .ok p => p
  | .error _ => .empty

/-- Every stable id of a directory. -/
def ValidDir.ids (d : ValidDir kit) : List String := (payloadStates d.payload).map Prod.fst

/-- A stable id is active when its node, the last one with that id, is not retired
    and is not in a file that is. -/
def ValidDir.Active (d : ValidDir kit) (id : String) : Prop :=
  (payloadStates d.payload).reverse.lookup id = some false

/-- An active id of one directory that another one lacks. -/
def ValidDir.Loses (prior new : ValidDir kit) (id : String) : Prop :=
  prior.Active id ∧ id ∉ new.ids

theorem payload_of_valid (d : ValidDir kit) : loadPayload kit d.dir = .ok d.payload ∧
    List.Forall₂ (fun (e : String × Json) (doc : String × Document) =>
      Document.ofJson e.2 = some doc.2) d.payload.entries d.docs := by
  obtain ⟨p, hp, hrel⟩ := loadPayload_of_valid kit d
  unfold ValidDir.payload
  rw [hp]
  exact ⟨rfl, hrel⟩

theorem payload_valid (d : ValidDir kit) :
    ∀ e ∈ d.payload.entries, (Document.ofJson e.2).isSome = true := by
  have hrel := (payload_of_valid d).2
  generalize d.payload.entries = es, d.docs = docs at hrel
  induction hrel with
  | nil => exact fun _ he => absurd he List.not_mem_nil
  | cons h _ ih =>
      intro e he
      rcases List.mem_cons.mp he with rfl | he
      · rw [h]
        rfl
      · exact ih e he

/-- The ids are those of the documents. -/
theorem ids_eq (d : ValidDir kit) : d.ids = Edition.ids ⟨computePayloadHash kit d.dir, d.docs⟩ := by
  unfold ValidDir.ids payloadStates Edition.ids
  have hrel := (payload_of_valid d).2
  generalize d.payload.entries = es, d.docs = docs at hrel ⊢
  induction hrel with
  | nil => rfl
  | cons h _ ih =>
      rw [List.flatMap_cons, List.flatMap_cons, List.map_append, ih]
      unfold nodeStates
      rw [h, List.map_map]
      rfl

end Ids

section Reports

/-- How the gate tells that an id is gone. -/
def removedDetail (id : String) : String :=
  s!"stable id '{id}' disappeared from the payload — ids are never " ++
    "deleted or renamed; set 'retired: true' instead (specs/010 FR-009)"

/-- The findings have one that an id is gone. -/
def Reports (found : List Gate.Finding) (id : String) : Prop :=
  ∃ f ∈ found, f.kind = .nodeRemoved ∧ f.detail = removedDetail id

theorem removedDetail_inj {a b : String} (h : removedDetail a = removedDetail b) : a = b := by
  unfold removedDetail at h
  exact (String.append_right_inj _).mp ((String.append_left_inj _).mp
    ((String.append_left_inj _).mp h))

/-- A node that is still there is not reported as gone. -/
theorem kind_of_mem_nodeFindings {id : String} {old new : Gate.Node} {f : Gate.Finding}
    (h : f ∈ Gate.nodeFindings id old (some new)) : f.kind ≠ .nodeRemoved := by
  unfold Gate.nodeFindings at h
  rcases List.mem_append.mp h with h | h
  · unfold Gate.retiredFindings at h
    split at h
    · rw [List.mem_singleton.mp h]
      exact fun hc => by cases hc
    · split at h
      · rw [List.mem_singleton.mp h]
        exact fun hc => by cases hc
      · exact absurd h List.not_mem_nil
  · split at h
    · exact absurd h List.not_mem_nil
    · obtain ⟨p, -, hp⟩ := List.mem_flatMap.mp h
      unfold Gate.levelFindings at hp
      split at hp
      · rw [List.mem_singleton.mp hp]
        exact fun hc => by cases hc
      · split at hp
        · rw [List.mem_singleton.mp hp]
          exact fun hc => by cases hc
        · exact absurd hp List.not_mem_nil

/-- What is reported as gone is what one index has and the other one lacks. -/
theorem reports_iff (old new : Gate.Index) (id : String) :
    Reports (Gate.findings old new) id ↔ (old.get? id).isSome = true ∧ new.get? id = none := by
  unfold Reports Gate.findings
  constructor
  · rintro ⟨f, hf, hkind, hdetail⟩
    obtain ⟨⟨id', node⟩, hp, hf⟩ := List.mem_flatMap.mp hf
    have hold := (Dict.get?_eq_some_iff old id' node).mpr ((Gate.mem_sortedEntries _ _).mp hp)
    cases hnew : new.get? id' with
    | some node' =>
        rw [hnew] at hf
        exact absurd hkind (kind_of_mem_nodeFindings hf)
    | none =>
        rw [hnew] at hf
        rw [List.mem_singleton.mp hf] at hdetail
        cases removedDetail_inj hdetail
        rw [hold]
        exact ⟨rfl, hnew⟩
  · rintro ⟨hsome, hnone⟩
    obtain ⟨node, hold⟩ := Option.isSome_iff_exists.mp hsome
    refine ⟨⟨.forbidden, .nodeRemoved, removedDetail id⟩, List.mem_flatMap.mpr ⟨(id, node), ?_, ?_⟩,
      rfl, rfl⟩
    · exact (Gate.mem_sortedEntries _ _).mpr ((Dict.get?_eq_some_iff old id node).mp hold)
    · dsimp only
      rw [hnone]
      exact List.mem_singleton.mpr rfl

variable {kit : Toolkit} (conv : Gate.Conversions)

/-- The gate, on the two directories, reports an active id as gone. -/
def GateObjects (prior new : ValidDir kit) : Prop :=
  ∃ p q found, loadPayload kit prior.dir = .ok p ∧ loadPayload kit new.dir = .ok q ∧
    Gate.detectDestructiveChanges conv p q = .ok found ∧
      ∃ id, prior.Active id ∧ Reports found id

theorem gateObjects_iff (prior new : ValidDir kit) :
    GateObjects conv prior new ↔ ∃ id, prior.Loses new id := by
  obtain ⟨old, hold, holdStates⟩ := index_of_valid conv (payload_valid prior)
  obtain ⟨cur, hcur, hcurStates⟩ := index_of_valid conv (payload_valid new)
  have hreports : ∀ id, prior.Active id →
      (Reports (Gate.findings old cur) id ↔ id ∉ new.ids) := by
    intro id hactive
    have hsome : (old.get? id).isSome = true := by
      have hstate := (holdStates id).trans hactive
      obtain ⟨node, hnode, -⟩ := Option.map_eq_some_iff.mp hstate
      rw [hnode]
      rfl
    have hnone : cur.get? id = none ↔ id ∉ new.ids := by
      rw [← Option.map_eq_none_iff (f := Gate.Node.retired), hcurStates, List.lookup_eq_none_iff]
      unfold ValidDir.ids
      simp only [List.mem_reverse, List.mem_map, not_exists, not_and, bne_iff_ne]
      exact ⟨fun h e he heq => h e he heq.symm, fun h e he heq => h e he heq.symm⟩
    rw [reports_iff, hnone]
    exact and_iff_right hsome
  unfold GateObjects
  constructor
  · rintro ⟨p, q, found, hp, hq, hfound, id, hactive, hreport⟩
    rw [(payload_of_valid prior).1] at hp
    rw [(payload_of_valid new).1] at hq
    cases hp
    cases hq
    rw [Gate.detect_of_index conv hold hcur] at hfound
    cases hfound
    exact ⟨id, hactive, (hreports id hactive).mp hreport⟩
  · rintro ⟨id, hactive, hgone⟩
    exact ⟨_, _, _, (payload_of_valid prior).1, (payload_of_valid new).1,
      Gate.detect_of_index conv hold hcur, id, hactive, (hreports id hactive).mpr hgone⟩

end Reports

section Seeds
variable {kit : Toolkit} (conv : Gate.Conversions) (prior new : ValidDir kit) (dryRun : Bool)
  (now : Instant) (t : Tables)

/-- The seed raises the error for renames. -/
def Refuses : Prop := ∃ m, seed kit new.dir dryRun now t = .error (.renameForbidden m)

/-- A seed refuses a payload that has lost an active id, and no other; a refusal
    leaves the tables as they are; and the gate objects to the same payloads. -/
structure IdsForever : Prop where
  refuses : Refuses new dryRun now t ↔ ∃ id, prior.Loses new id
  unchanged : Refuses new dryRun now t → conclude t (seed kit new.dir dryRun now t) = t
  agrees : Refuses new dryRun now t ↔ GateObjects conv prior new

/-- The rename check does not find the competency of the prior version: its id is
    gone, or it is spelled like a block's. -/
def Unfound (c : String) : Prop := c ∉ new.ids ∨ isBlockId c = true

/-- The competencies speak for all ids: if an active id is gone, some competency is
    not found and the hashes tell the directories apart; and if they do and some
    competency is not found, retired or not, an active id is gone. -/
structure Screened : Prop where
  caught : (∃ id, prior.Loses new id) →
    computePayloadHash kit prior.dir ≠ computePayloadHash kit new.dir ∧
      ∃ c ∈ competencyIds prior.docs, Unfound new c
  earned : computePayloadHash kit prior.dir ≠ computePayloadHash kit new.dir →
    (∃ c ∈ competencyIds prior.docs, Unfound new c) → ∃ id, prior.Loses new id

variable {prior new t}

/-- Writing a version raises other errors only. -/
theorem writeVersion_ne_rename (e : Edition) (m : String) :
    writeVersion e.docs e.hash now t ≠ .error (.renameForbidden m) := by
  intro h
  have hanswer := answerOf_writeVersion e now t
  rw [h] at hanswer
  have herror : (.error (.renameForbidden m) : Answer) = _ := hanswer
  split at herror
  · cases herror
  · split at herror <;> cases herror

/-- A seed raises the error when the hashes differ and a competency of the prior
    version is not found. -/
theorem renames_iff {v : VersionRow} (hlatest : t.latest? = some v)
    (hholds : t.Holds v ⟨computePayloadHash kit prior.dir, prior.docs⟩) :
    Refuses new dryRun now t ↔
      computePayloadHash kit prior.dir ≠ computePayloadHash kit new.dir ∧
        ∃ c ∈ competencyIds prior.docs, Unfound new c := by
  have hfound : ∀ c, c ∉ payloadIds new.docs ↔ Unfound new c := by
    intro c
    have hmem := mem_payloadIds_iff ⟨computePayloadHash kit new.dir, new.docs⟩ c
    unfold Unfound
    rw [hmem, ← ids_eq, not_and_or, Bool.not_eq_false]
  have hgone : disappeared t new.docs ≠ [] ↔ ∃ c ∈ competencyIds prior.docs, Unfound new c := by
    unfold disappeared
    rw [hlatest]
    simp only [hholds.names, Edition.names, ne_eq, List.filter_eq_nil_iff, not_forall,
      Bool.not_eq_true', Bool.not_eq_false, List.contains_iff_mem, exists_prop, hfound]
  have hseed : seed kit new.dir dryRun now t
      = seedTransaction new.docs (computePayloadHash kit new.dir) dryRun now t := by
    unfold seed
    rw [new.loads]
    rfl
  have hnoop : t.latest?.map VersionRow.payloadHash = some (computePayloadHash kit new.dir) ↔
      computePayloadHash kit prior.dir = computePayloadHash kit new.dir := by
    rw [hlatest, Option.map_some, hholds.hash, Option.some.injEq]
  unfold Refuses
  rw [hseed]
  unfold seedTransaction
  by_cases hsame : computePayloadHash kit prior.dir = computePayloadHash kit new.dir
  · rw [if_pos (hnoop.mpr hsame)]
    exact iff_of_false (fun ⟨m, hm⟩ => by cases hm) (fun h => h.1 hsame)
  · rw [if_neg (fun h => hsame (hnoop.mp h)), ← hgone]
    by_cases hnil : disappeared t new.docs = []
    · rw [if_neg (fun h => h hnil)]
      refine iff_of_false ?_ (fun h => h.2 hnil)
      rintro ⟨m, hm⟩
      cases dryRun with
      | true => cases hm
      | false => exact writeVersion_ne_rename now ⟨computePayloadHash kit new.dir, new.docs⟩ m hm
    · rw [if_pos hnil]
      exact iff_of_true ⟨_, rfl⟩ ⟨hsame, hnil⟩

/-- A seed does what it ought to just where the competencies speak for all ids. -/
theorem idsForever_iff {v : VersionRow} (hlatest : t.latest? = some v)
    (hholds : t.Holds v ⟨computePayloadHash kit prior.dir, prior.docs⟩) :
    IdsForever conv prior new dryRun now t ↔ Screened prior new := by
  have hrefuses : Refuses new dryRun now t ↔ _ := renames_iff dryRun now hlatest hholds
  constructor
  · intro h
    exact ⟨fun hloses => hrefuses.mp (h.refuses.mpr hloses),
      fun hhash hunfound => h.refuses.mp (hrefuses.mpr ⟨hhash, hunfound⟩)⟩
  · intro h
    have hiff : Refuses new dryRun now t ↔ ∃ id, prior.Loses new id :=
      ⟨fun hr => h.earned (hrefuses.mp hr).1 (hrefuses.mp hr).2,
        fun hl => hrefuses.mpr (h.caught hl)⟩
    refine ⟨hiff, ?_, hiff.trans (gateObjects_iff conv prior new).symm⟩
    rintro ⟨m, hm⟩
    rw [hm]
    rfl

end Seeds

section SmallForests

/-- A node with its parent, and whether it is retired. -/
structure Sprig where
  id : String
  parent : Option String := none
  retired : Bool := false

def Sprig.text (s : Sprig) : String :=
  "\x7bid: " ++ s.id ++ ", label_en: N, label_uk: N" ++
    (match s.parent with
      | none => ""
      | some p => ", parent: " ++ p) ++
    (if s.retired then ", retired: true" else "") ++ "\x7d"

def Sprig.json (s : Sprig) : Json :=
  .obj ([("id", .str s.id), ("label_en", .str "N"), ("label_uk", .str "N")] ++
    (s.parent.toList.map (fun p => ("parent", .str p))) ++
    (if s.retired then [("retired", .bool true)] else []))

def forestText (nodes : List Sprig) : Bytes :=
  utf8 ("\x7bversion: 1, nodes: [" ++ ", ".intercalate (nodes.map Sprig.text) ++ "]\x7d")

def forestJson (nodes : List Sprig) : Json :=
  .obj [("version", .int 1), ("nodes", .arr (nodes.map Sprig.json))]

def plain : List Sprig := [⟨"b", none, false⟩, ⟨"b.c", some "b", false⟩]
def competencyRenamed : List Sprig := [⟨"b", none, false⟩, ⟨"b.e", some "b", false⟩]
def withTopic : List Sprig := plain ++ [⟨"t", some "b.c", false⟩]
def topicRenamed : List Sprig := plain ++ [⟨"u", some "b.c", false⟩]
def withRetired : List Sprig := plain ++ [⟨"b.d", some "b", true⟩]

def forestKit : Toolkit :=
  .table ([plain, competencyRenamed, withTopic, topicRenamed, withRetired].map
      (fun nodes => (forestText nodes, forestJson nodes)))
    [(forestText plain, "b457b0e78f9924e36775983eeb0efe4b4a3998e6e278d1875215b4c43490b0ef"),
      (forestText competencyRenamed,
        "ccb39bdcf8da13991a70945bf09845a2b341de209a204135787c9652e68dba7e"),
      (forestText withTopic, "289f4df174373812a06f5b6b9d8573839f9fd85b8904e2e494cec152e8e771f5"),
      (forestText topicRenamed,
        "1aacfc1d7fdd03b6917f1076c42571e18eb26f17af9ceefb9059812cd4deb226"),
      (forestText withRetired,
        "a844b3b208a25be020aa07dc69cbd20bc0352bf0dbabb020bfbe5a214361295e")]

def forestDir (nodes : List Sprig) : RubricDir where
  path := "configs/rubric"
  files := [("go.yaml", forestText nodes)]
  sorted := List.pairwise_singleton _ _
  yaml file hfile := by
    rw [List.mem_singleton.mp hfile]
    exact yaml_sample

theorem ok_get {α ε : Type} (x : Except ε α) (h : x.toOption.isSome = true) :
    x = .ok (x.toOption.get h) := by
  cases x with
  | error e => cases h
  | ok a => rfl

/-- A directory that the importer accepts. -/
def ValidDir.of (kit : Toolkit) (dir : RubricDir)
    (h : (loadYamlDir kit dir).toOption.isSome = true) : ValidDir kit where
  dir := dir
  docs := (loadYamlDir kit dir).toOption.get h
  loads := ok_get _ h

theorem loads_plain : (loadYamlDir forestKit (forestDir plain)).toOption.isSome = true := by
  decide +kernel
theorem loads_competencyRenamed :
    (loadYamlDir forestKit (forestDir competencyRenamed)).toOption.isSome = true := by
  decide +kernel
theorem loads_withTopic : (loadYamlDir forestKit (forestDir withTopic)).toOption.isSome = true := by
  decide +kernel
theorem loads_topicRenamed :
    (loadYamlDir forestKit (forestDir topicRenamed)).toOption.isSome = true := by
  decide +kernel
theorem loads_withRetired :
    (loadYamlDir forestKit (forestDir withRetired)).toOption.isSome = true := by
  decide +kernel

/-- The first seed of a valid directory leaves a version that holds it. -/
theorem exists_seeded {kit : Toolkit} (d : ValidDir kit)
    (h : (seed kit d.dir false 0 {}).toOption.map (fun r => r.1.newVersionId) = some (some 0)) :
    ∃ (t : Tables) (v : VersionRow), t.latest? = some v ∧
      t.Holds v ⟨computePayloadHash kit d.dir, d.docs⟩ := by
  cases hseed : seed kit d.dir false 0 {} with
  | error e =>
      rw [hseed] at h
      cases h
  | ok r =>
      rw [hseed] at h
      have hnew : r.1.newVersionId = some 0 := Option.some.inj h
      obtain ⟨docs, hload, htransaction⟩ := seed_ok hseed
      rw [d.loads] at hload
      cases hload
      obtain ⟨-, hversioned⟩ := seedTransaction_versioned htransaction hnew
      have harchives : Archives r.2 ([] ++ [⟨computePayloadHash kit d.dir, d.docs⟩]) :=
        archives_empty.versioned (fun v hv => absurd hv List.not_mem_nil) hversioned
      rcases harchives.latest with ⟨-, hnil⟩ | ⟨v, e, -, hlatest, hlast, hholds⟩
      · cases hnil
      · cases hlast
        exact ⟨r.2, v, hlatest, hholds⟩

theorem seeds_plain : (seed forestKit (forestDir plain) false 0 {}).toOption.map
    (fun r => r.1.newVersionId) = some (some 0) := by
  decide +kernel
theorem seeds_withTopic : (seed forestKit (forestDir withTopic) false 0 {}).toOption.map
    (fun r => r.1.newVersionId) = some (some 0) := by
  decide +kernel
theorem seeds_withRetired : (seed forestKit (forestDir withRetired) false 0 {}).toOption.map
    (fun r => r.1.newVersionId) = some (some 0) := by
  decide +kernel

/-- A directory of the examples. -/
def forest (nodes : List Sprig)
    (h : (loadYamlDir forestKit (forestDir nodes)).toOption.isSome = true) : ValidDir forestKit :=
  .of forestKit (forestDir nodes) h

instance {kit : Toolkit} (d : ValidDir kit) (id : String) : Decidable (d.Active id) :=
  inferInstanceAs (Decidable ((payloadStates d.payload).reverse.lookup id = some false))

theorem mem_ids_of_active {kit : Toolkit} {d : ValidDir kit} {id : String} (h : d.Active id) :
    id ∈ d.ids := by
  obtain ⟨before, after, hsplit, -⟩ := List.lookup_eq_some_iff.mp h
  have hmem : (id, false) ∈ (payloadStates d.payload).reverse := by
    rw [hsplit]
    exact List.mem_append_right _ List.mem_cons_self
  exact List.mem_map_of_mem (List.mem_reverse.mp hmem)

/-- The competency `b.c` is renamed, and the seed refuses it as it ought to. -/
theorem idsForever_iff_competency : ∃ t, ∀ conv dryRun now,
    IdsForever conv (forest plain loads_plain) (forest competencyRenamed loads_competencyRenamed)
      dryRun now t := by
  obtain ⟨t, v, hlatest, hholds⟩ := exists_seeded (forest plain loads_plain) seeds_plain
  refine ⟨t, fun conv dryRun now => (idsForever_iff conv dryRun now hlatest hholds).mpr ⟨?_, ?_⟩⟩
  · intro _
    refine ⟨by decide +kernel, "b.c", by decide +kernel, Or.inl ?_⟩
    decide +kernel
  · intro _ _
    refine ⟨"b.c", ?_, ?_⟩ <;> decide +kernel

/-- No competency is gone when a topic is renamed. -/
theorem found_topicRenamed :
    ∀ c ∈ competencyIds (forest withTopic loads_withTopic).docs,
      c ∈ (forest topicRenamed loads_topicRenamed).ids ∧ isBlockId c = false := by
  decide +kernel

/-- All that is gone is retired. -/
theorem kept_plain : ∀ id ∈ (forest withRetired loads_withRetired).ids,
    (forest withRetired loads_withRetired).Active id → id ∈ (forest plain loads_plain).ids := by
  decide +kernel

/-- A seed takes a payload that renames a topic, and it refuses one that only drops
    a competency retired before. -/
theorem not_idsForever :
    (∃ t v, t.latest? = some v ∧
      t.Holds v ⟨computePayloadHash forestKit (forestDir withTopic),
        (forest withTopic loads_withTopic).docs⟩ ∧
      ∀ conv dryRun now, ¬ IdsForever conv (forest withTopic loads_withTopic)
        (forest topicRenamed loads_topicRenamed) dryRun now t) ∧
    (∃ t v, t.latest? = some v ∧
      t.Holds v ⟨computePayloadHash forestKit (forestDir withRetired),
        (forest withRetired loads_withRetired).docs⟩ ∧
      ∀ conv dryRun now, ¬ IdsForever conv (forest withRetired loads_withRetired)
        (forest plain loads_plain) dryRun now t) := by
  constructor
  · obtain ⟨t, v, hlatest, hholds⟩ :=
      exists_seeded (forest withTopic loads_withTopic) seeds_withTopic
    refine ⟨t, v, hlatest, hholds, fun conv dryRun now h => ?_⟩
    have hloses : (forest withTopic loads_withTopic).Loses
        (forest topicRenamed loads_topicRenamed) "t" := by
      constructor <;> decide +kernel
    have hrefuses := h.refuses.mpr ⟨"t", hloses⟩
    obtain ⟨-, c, hc, hunfound⟩ := (renames_iff dryRun now hlatest hholds).mp hrefuses
    obtain ⟨hmem, hblock⟩ := found_topicRenamed c hc
    rcases hunfound with hgone | hspelled
    · exact hgone hmem
    · rw [hblock] at hspelled
      cases hspelled
  · obtain ⟨t, v, hlatest, hholds⟩ :=
      exists_seeded (forest withRetired loads_withRetired) seeds_withRetired
    refine ⟨t, v, hlatest, hholds, fun conv dryRun now h => ?_⟩
    have hgone : "b.d" ∉ (forest plain loads_plain).ids := by
      decide +kernel
    have hrefuses : Refuses (forest plain loads_plain) dryRun now t :=
      (renames_iff dryRun now hlatest hholds).mpr
        ⟨by decide +kernel, "b.d", by decide +kernel, Or.inl hgone⟩
    obtain ⟨id, hactive, hmissing⟩ := h.refuses.mp hrefuses
    exact hmissing (kept_plain id (mem_ids_of_active hactive) hactive)

end SmallForests

end TechScreen.Rubric
