import TechScreen.Rubric.GateIndex

/-!
# Changes the Gate Does Not See

The gate is there to see every destructive change of a file. It compares two
indexes of all files, in which the last node with an id counts, and of a node the
last level with a rank. A change is masked if the nodes that count are the same as
before: another file has the id as well, or has taken it over, or a rank is there
twice. No schema forbids any of these.

Every change that is not masked draws a finding with the id. None is masked where
the node is the only one with its id, keeps to its file and has no rank twice.

## Main definitions

* `Changes`: A file no longer has an active node as it was.
* `namedNode`: The id that a finding names.
* `Masked`: The nodes that count for an id are as they were.
* `Alone`: Nothing else has the id of a node.

## Theorems

* `named_iff`: Which ids the findings name.
* `gate_sound_iff`: The gate sees all changes just if none is masked.
* `not_masked_of_alone`: A change to a node that is alone is not masked.
-/

namespace TechScreen.Rubric

open Lib

section Changes

/-- The nodes of a file, each with whether it is retired, by itself or with the
    file. -/
def fileNodes (p : Gate.Payload) (file : String) : List (Bool × Node) :=
  match p.get? file with
  | some j =>
      match Document.ofJson j with
      | some doc => doc.nodes.map (fun n => (fileRetired j || n.retired, n))
      | none => []
  | none => []

/-- A level of a node is not among those of another, with its rank and its
    descriptor. -/
def Loses (n m : Node) : Prop :=
  ∃ l ∈ n.levels, ∀ l' ∈ m.levels, l'.level = l.level → l'.descriptorEn ≠ l.descriptorEn

/-- A file has an active node with an id, which is dropped from the file, retired
    there, or loses a level. -/
def Changes (baseline current : Gate.Payload) (file id : String) : Prop :=
  ∃ n, (false, n) ∈ fileNodes baseline file ∧ n.id = id ∧
    ∀ e ∈ fileNodes current file, e.2.id = id → e.1 = true ∨ Loses n e.2

/-- The last nodes with an id are as they were, and so are their last levels. -/
def Masked (baseline current : Gate.Payload) (id : String) : Prop :=
  ∃ old new, (payloadEntries baseline).reverse.lookup id = some old ∧
    (payloadEntries current).reverse.lookup id = some new ∧ old.Kept new

def notQuote (c : Char) : Bool := c != '\''

/-- What is between the first two apostrophes. -/
def quoted (s : List Char) : List Char := ((s.dropWhile notQuote).drop 1).takeWhile notQuote

/-- The id that a finding names. -/
def namedNode (finding : Gate.Finding) : String := String.ofList (quoted finding.detail.toList)

end Changes

section Names

theorem quoted_append {pre id : List Char} (rest : List Char) (hpre : '\'' ∉ pre)
    (hid : '\'' ∉ id) : quoted (pre ++ '\'' :: id ++ '\'' :: rest) = id := by
  have hall : ∀ s : List Char, '\'' ∉ s → ∀ c ∈ s, notQuote c = true := by
    intro s hs c hc
    rw [notQuote, bne_iff_ne]
    rintro rfl
    exact hs hc
  have hquote : ¬ notQuote '\'' = true := by decide
  rw [quoted, List.append_assoc, List.dropWhile_append_of_pos (hall pre hpre), List.cons_append,
    List.dropWhile_cons_of_neg hquote, List.drop_one, List.tail_cons,
    List.takeWhile_append_of_pos (hall id hid), List.takeWhile_cons_of_neg hquote, List.append_nil]

/-- What is cut at dots consists of the pieces and the dots. -/
theorem mem_cutAtDots {c : Char} {chars : List Char} (h : c ∈ chars) :
    c = '.' ∨ ∃ segment ∈ cutAtDots chars, c ∈ segment := by
  induction chars with
  | nil => exact absurd h List.not_mem_nil
  | cons d chars ih =>
      unfold cutAtDots
      by_cases hd : d = '.'
      · rw [if_pos hd]
        rcases List.mem_cons.mp h with rfl | h
        · exact Or.inl hd
        · exact (ih h).imp_right (fun ⟨w, hw, hc⟩ => ⟨w, List.mem_cons_of_mem _ hw, hc⟩)
      · rw [if_neg hd]
        cases hcut : cutAtDots chars with
        | nil =>
            rcases List.mem_cons.mp h with rfl | h
            · exact Or.inr ⟨[c], List.mem_cons_self, List.mem_cons_self⟩
            · rcases ih h with hdot | ⟨w, hw, -⟩
              · exact Or.inl hdot
              · rw [hcut] at hw
                exact absurd hw List.not_mem_nil
        | cons segment segments =>
            rcases List.mem_cons.mp h with rfl | h
            · exact Or.inr ⟨c :: segment, List.mem_cons_self, List.mem_cons_self⟩
            · rcases ih h with hdot | ⟨w, hw, hc⟩
              · exact Or.inl hdot
              · rw [hcut] at hw
                rcases List.mem_cons.mp hw with rfl | hw
                · exact Or.inr ⟨d :: w, List.mem_cons_self, List.mem_cons_of_mem d hc⟩
                · exact Or.inr ⟨w, List.mem_cons_of_mem _ hw, hc⟩

theorem mem_of_segments {p : List Char → Bool} {c : Char} {chars : List Char}
    (h : (cutAtDots chars).all p = true) (hc : c ∈ chars) :
    c = '.' ∨ ∃ w, p w = true ∧ c ∈ w :=
  (mem_cutAtDots hc).imp_right (fun ⟨w, hw, hcw⟩ => ⟨w, List.all_eq_true.mp h w hw, hcw⟩)

/-- A stable id has no apostrophe in it. -/
theorem quote_notMem_of_stable {id : String} (h : isStableId id = true) : '\'' ∉ id.toList := by
  intro hmem
  unfold isStableId at h
  dsimp only at h
  have hmem' : '\'' ∈ (if id.toList.getLast? = some '\n' then id.toList.dropLast
      else id.toList) := by
    split
    · next hlast =>
        have hsplit := List.dropLast_append_getLast? '\n' hlast
        rw [← hsplit, List.mem_append, List.mem_singleton] at hmem
        exact hmem.resolve_right (by decide)
    · exact hmem
  rcases mem_of_segments h hmem' with hdot | ⟨w, hw, hc⟩
  · exact absurd hdot (by decide)
  · cases w with
    | nil => cases hw
    | cons d ds =>
        rw [Bool.and_eq_true, List.all_eq_true] at hw
        rcases List.mem_cons.mp hc with rfl | hc
        · exact absurd hw.1 (by decide)
        · exact absurd (hw.2 _ hc) (by decide)

/-- The text of a finding has the id between its first apostrophes. -/
theorem namedNode_of_detail {id : String} {finding : Gate.Finding} (hid : '\'' ∉ id.toList)
    (h : ∃ pre rest, '\'' ∉ pre ∧
      finding.detail.toList = pre ++ '\'' :: id.toList ++ '\'' :: rest) :
    namedNode finding = id := by
  obtain ⟨pre, rest, hpre, hdetail⟩ := h
  rw [namedNode, hdetail, quoted_append rest hpre hid, String.ofList_toList]

theorem namedNode_of_mem_levels {id : String} {rank : Int} {desc : String} {new : Option String}
    {finding : Gate.Finding} (hid : '\'' ∉ id.toList)
    (h : finding ∈ Gate.levelFindings id rank desc new) : namedNode finding = id := by
  refine namedNode_of_detail hid ⟨[], ?_⟩
  cases new with
  | none =>
      rw [Gate.levelFindings, List.mem_singleton] at h
      refine ⟨(" level " ++ toString rank ++ " removed").toList, List.not_mem_nil, ?_⟩
      rw [h]
      simp [toString]
  | some new =>
      unfold Gate.levelFindings at h
      dsimp only at h
      split at h
      · rw [List.mem_singleton] at h
        refine ⟨(" level " ++ toString rank ++ " descriptor_en changed " ++
          "(assessment semantics shift going forward)").toList, List.not_mem_nil, ?_⟩
        rw [h]
        simp [toString]
      · exact absurd h List.not_mem_nil

theorem namedNode_of_mem_retired {id : String} {old new : Gate.Node} {finding : Gate.Finding}
    (hid : '\'' ∉ id.toList) (h : finding ∈ Gate.retiredFindings id old new) :
    namedNode finding = id := by
  refine namedNode_of_detail hid ⟨[], ?_⟩
  unfold Gate.retiredFindings at h
  split at h
  · rw [List.mem_singleton] at h
    refine ⟨" goes active -> retired".toList, List.not_mem_nil, ?_⟩
    rw [h]
    simp [toString]
  · split at h
    · rw [List.mem_singleton] at h
      refine ⟨" goes retired -> active (ids are never reused after retire)".toList,
        List.not_mem_nil, ?_⟩
      rw [h]
      simp [toString]
    · exact absurd h List.not_mem_nil

/-- Each finding about a node names it. -/
theorem namedNode_of_mem {id : String} {old : Gate.Node} {new : Option Gate.Node}
    {finding : Gate.Finding} (hid : '\'' ∉ id.toList)
    (h : finding ∈ Gate.nodeFindings id old new) : namedNode finding = id := by
  cases new with
  | none =>
      rw [Gate.nodeFindings, List.mem_singleton] at h
      refine namedNode_of_detail hid ⟨"stable id ".toList,
        (" disappeared from the payload — ids are never " ++
          "deleted or renamed; set 'retired: true' instead (specs/010 FR-009)").toList,
        by decide, ?_⟩
      rw [h]
      simp [toString]
  | some new =>
      rw [Gate.nodeFindings, List.mem_append] at h
      rcases h with h | h
      · exact namedNode_of_mem_retired hid h
      · split at h
        · exact absurd h List.not_mem_nil
        · obtain ⟨e, -, he⟩ := List.mem_flatMap.mp h
          exact namedNode_of_mem_levels hid he

/-- The ids that the findings name are those of nodes that are not kept. -/
theorem named_iff {old new : Gate.Index} (hids : ∀ e ∈ old.entries, '\'' ∉ e.1.toList)
    (id : String) : (∃ finding ∈ Gate.findings old new, namedNode finding = id) ↔
      ∃ node, old.get? id = some node ∧ ¬ ∃ node', new.get? id = some node' ∧ node.Kept node' := by
  unfold Gate.findings
  constructor
  · rintro ⟨finding, hfinding, hname⟩
    obtain ⟨e, he, hmem⟩ := List.mem_flatMap.mp hfinding
    have he' := (Gate.mem_sortedEntries old.entries e).mp he
    obtain rfl : e.1 = id := (namedNode_of_mem (hids e he') hmem).symm.trans hname
    refine ⟨e.2, (Dict.get?_eq_some_iff old e.1 e.2).mpr he', fun hkept => ?_⟩
    rw [(Gate.nodeFindings_eq_nil_iff e.1 e.2 _).mpr hkept] at hmem
    exact absurd hmem List.not_mem_nil
  · rintro ⟨node, hnode, hnot⟩
    have hmem := (Dict.get?_eq_some_iff old id node).mp hnode
    obtain ⟨finding, hfinding⟩ := List.exists_mem_of_ne_nil _
      (fun hnil => hnot ((Gate.nodeFindings_eq_nil_iff id node (new.get? id)).mp hnil))
    exact ⟨finding,
      List.mem_flatMap.mpr ⟨(id, node), (Gate.mem_sortedEntries _ _).mpr hmem, hfinding⟩,
      namedNode_of_mem (hids (id, node) hmem) hfinding⟩

end Names

section Seen
variable {conv : Gate.Conversions} {baseline current : Gate.Payload} {file id : String}

theorem mem_docEntries {j : Json} {e : String × Gate.Node} :
    e ∈ docEntries j ↔ ∃ doc n, Document.ofJson j = some doc ∧ n ∈ doc.nodes ∧
      e = (n.id, gateNode (fileRetired j) n) := by
  unfold docEntries
  cases hdoc : Document.ofJson j with
  | none =>
      refine ⟨fun h => absurd h List.not_mem_nil, ?_⟩
      rintro ⟨doc, n, hnone, -⟩
      cases hnone
  | some doc =>
      dsimp only
      rw [List.mem_map]
      constructor
      · rintro ⟨n, hn, rfl⟩
        exact ⟨doc, n, rfl, hn, rfl⟩
      · rintro ⟨doc', n, hdoc', hn, rfl⟩
        cases hdoc'
        exact ⟨n, hn, rfl⟩

theorem mem_fileNodes {p : Gate.Payload} {e : Bool × Node} :
    e ∈ fileNodes p file ↔ ∃ j doc, p.get? file = some j ∧ Document.ofJson j = some doc ∧
      e.2 ∈ doc.nodes ∧ e.1 = (fileRetired j || e.2.retired) := by
  unfold fileNodes
  cases hget : p.get? file with
  | none =>
      refine ⟨fun h => absurd h List.not_mem_nil, ?_⟩
      rintro ⟨j, doc, hnone, -⟩
      cases hnone
  | some j =>
      dsimp only
      cases hdoc : Document.ofJson j with
      | none =>
          refine ⟨fun h => absurd h List.not_mem_nil, ?_⟩
          rintro ⟨j', doc, hj, hnone, -⟩
          cases hj
          rw [hdoc] at hnone
          cases hnone
      | some doc =>
          dsimp only
          rw [List.mem_map]
          constructor
          · rintro ⟨n, hn, rfl⟩
            exact ⟨j, doc, rfl, hdoc, hn, rfl⟩
          · rintro ⟨j', doc', hj, hdoc', hn, hretired⟩
            cases hj
            rw [hdoc] at hdoc'
            cases hdoc'
            exact ⟨e.2, hn, Prod.ext hretired.symm rfl⟩

/-- The nodes of all files are the entries of the payload. -/
theorem mem_payloadEntries {p : Gate.Payload} {e : String × Gate.Node} :
    e ∈ payloadEntries p ↔ ∃ file j doc n, p.get? file = some j ∧
      Document.ofJson j = some doc ∧ n ∈ doc.nodes ∧ e = (n.id, gateNode (fileRetired j) n) := by
  unfold payloadEntries
  rw [List.mem_flatMap]
  constructor
  · rintro ⟨⟨file, j⟩, hfile, he⟩
    obtain ⟨doc, n, hdoc, hn, rfl⟩ := mem_docEntries.mp he
    exact ⟨file, j, doc, n, (Dict.get?_eq_some_iff p file j).mpr hfile, hdoc, hn, rfl⟩
  · rintro ⟨file, j, doc, n, hfile, hdoc, hn, rfl⟩
    exact ⟨(file, j), (Dict.get?_eq_some_iff p file j).mp hfile,
      mem_docEntries.mpr ⟨doc, n, hdoc, hn, rfl⟩⟩

/-- A node of a file is in the index of the payload, with its id. -/
theorem exists_last {p : Gate.Payload} {e : Bool × Node} (h : e ∈ fileNodes p file) :
    ∃ node, (payloadEntries p).reverse.lookup e.2.id = some node := by
  obtain ⟨j, doc, hj, hdoc, hn, -⟩ := mem_fileNodes.mp h
  have hmem : (e.2.id, gateNode (fileRetired j) e.2) ∈ payloadEntries p :=
    mem_payloadEntries.mpr ⟨file, j, doc, e.2, hj, hdoc, hn, rfl⟩
  cases hlookup : (payloadEntries p).reverse.lookup e.2.id with
  | some node => exact ⟨node, rfl⟩
  | none =>
      have hnone := List.lookup_eq_none_iff.mp hlookup _ (List.mem_reverse.mpr hmem)
      rw [bne_self_eq_false] at hnone
      cases hnone

/-- A change is seen just if it is not masked. -/
theorem seen_iff (hchange : Changes baseline current file id) :
    (∃ finding ∈ Gate.findings (Dict.ofList (payloadEntries baseline))
        (Dict.ofList (payloadEntries current)), namedNode finding = id) ↔
      ¬ Masked baseline current id := by
  have hids : ∀ e ∈ (Dict.ofList (payloadEntries baseline)).entries, '\'' ∉ e.1.toList := by
    intro e he
    obtain ⟨_, j, doc, n, -, -, -, rfl⟩ := mem_payloadEntries.mp (Dict.mem_of_mem_ofList he)
    exact quote_notMem_of_stable n.id_stable
  obtain ⟨n, hn, rfl, -⟩ := hchange
  obtain ⟨node, hnode⟩ := exists_last hn
  rw [named_iff hids, get?_index, get?_index]
  unfold Masked
  constructor
  · rintro ⟨old, hold, hnot⟩ ⟨old', new, hold', hnew, hkept⟩
    rw [hold, Option.some.injEq] at hold'
    exact hnot ⟨new, hnew, hold' ▸ hkept⟩
  · intro hnot
    exact ⟨node, hnode, fun ⟨new, hnew, hkept⟩ => hnot ⟨node, new, hnode, hnew, hkept⟩⟩

/-- A node that nothing else gets mixed up with: it is the only one with its id in the
    baseline, its ranks are different, and no other file has the id afterwards. -/
structure Alone (baseline current : Gate.Payload) (file : String) (n : Node) : Prop where
  only : ∀ file' e, e ∈ fileNodes baseline file' → e.2.id = n.id → file' = file ∧ e.2 = n
  ranks : (n.levels.map Level.level).Nodup
  stays : ∀ file' e, e ∈ fileNodes current file' → e.2.id = n.id → file' = file

/-- The last node with an id is in a file. -/
theorem exists_file_of_last {p : Gate.Payload} {node : Gate.Node}
    (h : (payloadEntries p).reverse.lookup id = some node) :
    ∃ file' j e, e ∈ fileNodes p file' ∧ p.get? file' = some j ∧ e.2.id = id ∧
      e.1 = node.retired ∧ node = gateNode (fileRetired j) e.2 := by
  obtain ⟨us, vs, hsplit, -⟩ := List.lookup_eq_some_iff.mp h
  have hmem : (id, node) ∈ (payloadEntries p).reverse := by
    rw [hsplit]
    exact List.mem_append_right _ List.mem_cons_self
  obtain ⟨file', j, doc, n, hj, hdoc, hn, heq⟩ := mem_payloadEntries.mp (List.mem_reverse.mp hmem)
  obtain ⟨rfl, rfl⟩ := Prod.mk.inj heq
  exact ⟨file', j, (fileRetired j || n.retired, n),
    mem_fileNodes.mpr ⟨j, doc, hj, hdoc, hn, rfl⟩, hj, rfl, rfl, rfl⟩

/-- Where the ranks are different each level is found by its rank. -/
theorem get?_levels {n : Node} (hranks : (n.levels.map Level.level).Nodup) {l : Level}
    (hl : l ∈ n.levels) (stackRetired : Bool) :
    (gateNode stackRetired n).levels.get? l.level = some l.descriptorEn := by
  have hnodup : ((n.levels.map levelEntry).map Prod.fst).Nodup := by
    have hmap : (n.levels.map levelEntry).map Prod.fst
        = (n.levels.map Level.level).map (fun k : Nat => (k : Int)) := by
      rw [List.map_map, List.map_map]
      rfl
    rw [hmap]
    exact hranks.map (fun _ _ h => Int.ofNat.inj h)
  have hentries : (Dict.ofList (n.levels.map levelEntry)).entries = n.levels.map levelEntry :=
    (Dict.foldl_set_entries _ Dict.empty hnodup).trans (List.nil_append _)
  refine (Dict.get?_eq_some_iff _ _ _).mpr ?_
  rw [gateNode, hentries]
  exact List.mem_map_of_mem hl

/-- A change to a node that is alone is not masked. -/
theorem not_masked_of_alone {n : Node} (hn : (false, n) ∈ fileNodes baseline file)
    (halone : Alone baseline current file n)
    (hchange : ∀ e ∈ fileNodes current file, e.2.id = n.id → e.1 = true ∨ Loses n e.2) :
    ¬ Masked baseline current n.id := by
  rintro ⟨old, new, hold, hnew, hkept⟩
  obtain ⟨file₁, j, e, he, hj, hid, hretired, rfl⟩ := exists_file_of_last hold
  obtain ⟨rfl, heq⟩ := halone.only file₁ e he hid
  obtain ⟨file₂, j', e', he', -, hid', hretired', rfl⟩ := exists_file_of_last hnew
  obtain rfl := halone.stays file₂ e' he' hid'
  have hactive : (gateNode (fileRetired j) e.2).retired = false := by
    obtain ⟨j₂, -, hj₂, -, -, hflag⟩ := mem_fileNodes.mp hn
    rw [hj, Option.some.injEq] at hj₂
    rw [gateNode, heq, hj₂]
    exact hflag.symm
  rcases hchange e' he' hid' with hgone | ⟨l, hl, hlost⟩
  · rw [hkept.retired, hactive] at hretired'
    rw [hretired'] at hgone
    cases hgone
  · -- The level is found by its rank before, so it is found after.
    rw [← heq] at hl
    have hbefore := get?_levels (heq ▸ halone.ranks) hl (fileRetired j)
    have hafter := hkept.levels hactive _ _ hbefore
    have hmem := Dict.mem_of_mem_ofList ((Dict.get?_eq_some_iff _ _ _).mp hafter)
    obtain ⟨l', hl', hentry⟩ := List.mem_map.mp hmem
    obtain ⟨hrank, hdesc⟩ := Prod.mk.inj hentry
    exact hlost l' hl' (Int.ofNat.inj hrank) hdesc

end Seen

/-- On payloads whose files satisfy the schema the gate returns. It names every id
    that a file has changed just if none of these changes is masked. -/
theorem gate_sound_iff (conv : Gate.Conversions) (baseline current : Gate.Payload)
    (hbaseline : ∀ e ∈ baseline.entries, (Document.ofJson e.2).isSome = true)
    (hcurrent : ∀ e ∈ current.entries, (Document.ofJson e.2).isSome = true) :
    ∃ found, Gate.detectDestructiveChanges conv baseline current = .ok found ∧
      ((∀ file id, Changes baseline current file id →
          ∃ finding ∈ found, namedNode finding = id) ↔
        ∀ file id, Changes baseline current file id → ¬ Masked baseline current id) := by
  refine ⟨_, Gate.detect_of_index conv (indexNodes_of_valid conv hbaseline)
    (indexNodes_of_valid conv hcurrent), ?_⟩
  constructor
  · intro h file id hchange
    exact (seen_iff hchange).mp (h file id hchange)
  · intro h file id hchange
    exact (seen_iff hchange).mpr (h file id hchange)

section Sample

/-- A file with one competency with one level. -/
def oneNode (retired : Bool) (descriptor : String) : Json :=
  .obj [("version", .int 1), ("nodes", .arr [.obj [("id", .str "sql.joins"),
    ("label_en", .str "Joins"), ("label_uk", .str "Joins"), ("retired", .bool retired),
    ("levels", .arr [.obj [("level", .int 1), ("label_uk", .str "Basics"),
      ("descriptor_en", .str descriptor)]])]])]

/-- The competency is described anew. -/
def describedBefore : Gate.Payload := Dict.ofList [("sql.yaml", oneNode false "reads")]
def describedAfter : Gate.Payload := Dict.ofList [("sql.yaml", oneNode false "writes")]

/-- Two files have the competency, and the first of them retires it. -/
def twiceBefore : Gate.Payload :=
  Dict.ofList [("a.yaml", oneNode false "reads"), ("b.yaml", oneNode false "reads")]
def twiceAfter : Gate.Payload :=
  Dict.ofList [("a.yaml", oneNode true "reads"), ("b.yaml", oneNode false "reads")]

end Sample

theorem gate_sound_iff_described :
    ∃ found, Gate.detectDestructiveChanges ⟨fun _ => none, fun _ => ""⟩ describedBefore
        describedAfter = .ok found ∧
      ((∀ file id, Changes describedBefore describedAfter file id →
          ∃ finding ∈ found, namedNode finding = id) ↔
        ∀ file id, Changes describedBefore describedAfter file id →
          ¬ Masked describedBefore describedAfter id) :=
  gate_sound_iff ⟨fun _ => none, fun _ => ""⟩ describedBefore describedAfter
    (by decide +kernel) (by decide +kernel)

/-- Nothing is reported of the competency that one of two files retires. -/
theorem retirement_masked :
    ¬ ∀ (conv : Gate.Conversions) (baseline current : Gate.Payload),
      (∀ e ∈ baseline.entries, (Document.ofJson e.2).isSome = true) →
      (∀ e ∈ current.entries, (Document.ofJson e.2).isSome = true) →
      ∃ found, Gate.detectDestructiveChanges conv baseline current = .ok found ∧
        ∀ file id, Changes baseline current file id →
          ∃ finding ∈ found, namedNode finding = id := by
  intro h
  obtain ⟨found, hfound, hnamed⟩ := h ⟨fun _ => none, fun _ => ""⟩ twiceBefore twiceAfter
    (by decide +kernel) (by decide +kernel)
  have hempty : Gate.detectDestructiveChanges ⟨fun _ => none, fun _ => ""⟩ twiceBefore twiceAfter
      = .ok [] := by
    rfl
  rw [hempty, Except.ok.injEq] at hfound
  subst hfound
  have hactive : ∃ e ∈ fileNodes twiceBefore "a.yaml", e.1 = false ∧ e.2.id = "sql.joins" := by
    decide +kernel
  have hretired : ∀ e ∈ fileNodes twiceAfter "a.yaml", e.1 = true := by decide +kernel
  obtain ⟨⟨flag, n⟩, hn, rfl, hid⟩ := hactive
  obtain ⟨finding, hfinding, -⟩ := hnamed "a.yaml" "sql.joins"
    ⟨n, hn, hid, fun e he _ => Or.inl (hretired e he)⟩
  exact absurd hfinding List.not_mem_nil

end TechScreen.Rubric
