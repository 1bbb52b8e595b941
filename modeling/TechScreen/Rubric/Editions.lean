import TechScreen.Rubric.RoundTrip

/-!
# Editions of the Rubric

What the tables keep of a rubric's history is a list of editions: the payloads
that became versions, oldest first. The importer revises that list. A payload
with the hash of the last edition is no revision; a payload that keeps the
competencies of the last edition, that can be stored, and whose hash no edition
has, becomes the next one; anything else is refused.

The tables archive a list of editions when their versions, in the order of their
time stamps, are the editions. On such tables a seed does what the revision does,
as long as its own time stamp is the latest.

## Main definitions

* `Edition`: A payload with its hash.
* `revise`: What a seed makes of the editions.
* `Archives`: The tables hold these editions.

## Theorems

* `Archives.latest`: The latest version is the last edition.
* `Archives.versioned`: A new version is a new edition.
* `seedTransaction_of_archives`: What a seed has done when it succeeds.
* `seedTransaction_isOk_iff`: When it does.
* `keeps_iff`: What the rename check comes to where no id is missing.
-/

namespace TechScreen.Rubric

open Lib

section Revising

/-- A payload with its hash. -/
structure Edition where
  hash : String
  docs : List (String × Document)
  deriving DecidableEq

def Edition.tree (e : Edition) : RubricTree := payloadTree (distinctDocs e.docs)

/-- The ids of its competencies. -/
def Edition.names (e : Edition) : List String := competencyIds e.docs

/-- The ids of all its nodes. -/
def Edition.ids (e : Edition) : List String := e.docs.flatMap (fun d => d.2.nodes.map Node.id)

def Edition.Storable (e : Edition) : Prop := ∀ d ∈ distinctDocs e.docs, d.2.Storable

instance (e : Edition) : Decidable e.Storable :=
  inferInstanceAs (Decidable (∀ d ∈ distinctDocs e.docs, d.2.Storable))

/-- The rename check finds every competency of another edition. -/
def Edition.Keeps (e last : Edition) : Prop := ∀ name ∈ last.names, name ∈ payloadIds e.docs

instance (e last : Edition) : Decidable (e.Keeps last) :=
  inferInstanceAs (Decidable (∀ name ∈ last.names, name ∈ payloadIds e.docs))

/-- A payload can be the next edition. -/
def Edition.Follows (e : Edition) (past : List Edition) : Prop :=
  (∀ last ∈ past.getLast?, e.Keeps last) ∧ e.hash ∉ past.map Edition.hash ∧ e.Storable

instance (e : Edition) (past : List Edition) : Decidable (e.Follows past) :=
  inferInstanceAs (Decidable ((∀ last ∈ past.getLast?, e.Keeps last) ∧
    e.hash ∉ past.map Edition.hash ∧ e.Storable))

/-- The editions after a payload, or nothing if it is refused. -/
def revise (past : List Edition) (e : Edition) : Option (List Edition) :=
  if past.getLast?.map Edition.hash = some e.hash then some past
  else if e.Follows past then some (past ++ [e])
  else none

end Revising

section Archiving

/-- A version holds an edition. -/
structure Tables.Holds (t : Tables) (v : VersionRow) (e : Edition) : Prop where
  active : v.isActive = true
  hash : v.payloadHash = e.hash
  tree : (t.rows.of v.id).tree = e.tree
  names : t.competencyNames v.id = e.names

/-- The versions of the tables, oldest first, are the editions. -/
structure Archives (t : Tables) (past : List Edition) : Prop where
  sound : t.Sound
  holds : List.Forall₂ t.Holds t.versions past
  ordered : t.versions.Pairwise (fun v w => v.createdAt < w.createdAt)

theorem archives_empty : Archives {} [] :=
  ⟨Database.empty.2, List.Forall₂.nil, List.Pairwise.nil⟩

/-- A version that no other is newer than. -/
def Tables.Newest (t : Tables) (v : VersionRow) : Prop :=
  v ∈ t.versions ∧ ∀ w ∈ t.versions, w.createdAt ≤ v.createdAt

/-- The latest version is a newest one, and there is one if there is any. -/
theorem latest?_cases (t : Tables) :
    (t.versions = [] ∧ t.latest? = none) ∨ ∃ v, t.latest? = some v ∧ t.Newest v := by
  unfold Tables.latest? Tables.Newest
  have hsorted : (t.versions.mergeSort (fun a b => decide (b.createdAt ≤ a.createdAt))).Pairwise
      (fun a b => decide (b.createdAt ≤ a.createdAt) = true) := by
    refine List.pairwise_mergeSort (fun a b c hab hbc => ?_) (fun a b => ?_) _
    · exact decide_eq_true (le_trans (of_decide_eq_true hbc) (of_decide_eq_true hab))
    · rw [Bool.or_eq_true, decide_eq_true_iff, decide_eq_true_iff]
      exact le_total _ _
  have hmem (w : VersionRow) :
      w ∈ t.versions.mergeSort (fun a b => decide (b.createdAt ≤ a.createdAt)) ↔
        w ∈ t.versions := List.mem_mergeSort
  generalize t.versions.mergeSort _ = sorted at hsorted hmem
  cases sorted with
  | nil => exact Or.inl ⟨List.eq_nil_iff_forall_not_mem.mpr fun w hw => by
      exact absurd ((hmem w).mpr hw) List.not_mem_nil, rfl⟩
  | cons v rest =>
      refine Or.inr ⟨v, rfl, (hmem v).mp List.mem_cons_self, fun w hw => ?_⟩
      rcases List.mem_cons.mp ((hmem w).mpr hw) with rfl | hw
      · exact le_refl _
      · exact of_decide_eq_true ((List.pairwise_cons.mp hsorted).1 w hw)

/-- The version newer than every other is the latest. -/
theorem latest?_of_newest {t : Tables} {v : VersionRow} (hv : v ∈ t.versions)
    (hnewest : ∀ w ∈ t.versions, w ≠ v → w.createdAt < v.createdAt) : t.latest? = some v := by
  rcases latest?_cases t with ⟨hnil, _⟩ | ⟨w, hlatest, hw, hle⟩
  · rw [hnil] at hv
    exact absurd hv List.not_mem_nil
  · by_cases hwv : w = v
    · rw [hlatest, hwv]
    · exact absurd (hle v hv) (not_le_of_gt (hnewest w hw hwv))

theorem latest?_eq_none {t : Tables} (h : t.versions = []) : t.latest? = none := by
  rw [Tables.latest?, h, List.mergeSort_nil, List.head?_nil]

/-- The latest version is the last edition. -/
theorem Archives.latest {t : Tables} {past : List Edition} (h : Archives t past) :
    (t.latest? = none ∧ past = []) ∨
      ∃ v e, v ∈ t.versions ∧ t.latest? = some v ∧ past.getLast? = some e ∧ t.Holds v e := by
  rcases List.eq_nil_or_concat' t.versions with hnil | ⟨init, v, hlast⟩
  · have hpast : past = [] := by
      have := h.holds
      rw [hnil] at this
      exact List.forall₂_nil_left_iff.mp this
    exact Or.inl ⟨latest?_eq_none hnil, hpast⟩
  · right
    have hholds := h.holds
    have hordered := h.ordered
    rw [hlast] at hholds hordered
    have hv := List.forall₂_drop_append past init [v] hholds.flip
    rcases List.forall₂_cons_right_iff.mp hv with ⟨e, rest, he, hrest, hpast⟩
    rw [List.forall₂_nil_right_iff.mp hrest] at hpast
    have hlastEdition : past.getLast? = some e := by
      rw [← List.take_append_drop init.length past, hpast, List.getLast?_concat]
    have hmem : v ∈ t.versions := hlast ▸ List.mem_append_right _ List.mem_cons_self
    refine ⟨v, e, hmem, latest?_of_newest hmem (fun w hw hne => ?_), hlastEdition, he⟩
    rw [hlast, List.mem_append] at hw
    rcases hw with hw | hw
    · exact (List.pairwise_append.mp hordered).2.2 w hw v List.mem_cons_self
    · exact absurd (List.mem_singleton.mp hw) hne

theorem Archives.latest_hash {t : Tables} {past : List Edition} (h : Archives t past) :
    t.latest?.map VersionRow.payloadHash = past.getLast?.map Edition.hash := by
  rcases h.latest with ⟨hlatest, rfl⟩ | ⟨v, e, _, hlatest, hlast, hholds⟩
  · rw [hlatest]
    rfl
  · rw [hlatest, hlast, Option.map_some, Option.map_some, hholds.hash]

/-- The rename check is made against the last edition. -/
theorem Archives.disappeared_iff {t : Tables} {past : List Edition} (h : Archives t past)
    (e : Edition) : disappeared t e.docs = [] ↔ ∀ last ∈ past.getLast?, e.Keeps last := by
  rcases h.latest with ⟨hlatest, rfl⟩ | ⟨v, last, _, hlatest, hlast, hholds⟩
  · simp [disappeared, hlatest]
  · unfold disappeared
    rw [hlatest, hlast]
    simp only [hholds.names, List.filter_eq_nil_iff, Option.mem_some_iff, forall_eq', Edition.Keeps,
      Bool.not_eq_true', Bool.not_eq_false, List.contains_iff_mem]

theorem Archives.hashes {t : Tables} {past : List Edition} (h : Archives t past) :
    t.versions.map VersionRow.payloadHash = past.map Edition.hash := by
  have hforall (versions : List VersionRow) (past : List Edition)
      (h : List.Forall₂ t.Holds versions past) :
      versions.map VersionRow.payloadHash = past.map Edition.hash := by
    induction h with
    | nil => rfl
    | cons hv _ ih => rw [List.map_cons, List.map_cons, hv.hash, ih]
  exact hforall _ _ h.holds

/-- A new version, the newest of all, is a new edition. -/
theorem Archives.versioned {t t' : Tables} {past : List Edition} {e : Edition} {now : Instant}
    (h : Archives t past) (hnow : ∀ v ∈ t.versions, v.createdAt < now)
    (hversioned : Versioned e.docs e.hash now t t') : Archives t' (past ++ [e]) := by
  have hnew : t'.Holds (newVersion t.nextId e.hash now) e :=
    ⟨rfl, rfl, (hversioned.tree h.sound).1, (hversioned.tree h.sound).2⟩
  refine ⟨hversioned.sound h.sound, ?_, ?_⟩
  · rw [hversioned.versions]
    refine List.rel_append (R := t'.Holds) ?_ (List.Forall₂.cons hnew List.Forall₂.nil)
    -- An older version has another identifier, so its rows are left alone.
    have hkeep (versions : List VersionRow) (hsub : versions ⊆ t.versions) (past : List Edition)
        (hholds : List.Forall₂ t.Holds versions past) : List.Forall₂ t'.Holds versions past := by
      induction hholds with
      | nil => exact List.Forall₂.nil
      | @cons v e versions past hv _ ih =>
          have hid : v.id ≠ t.nextId :=
            Nat.ne_of_lt (h.sound.versions_lt v (hsub List.mem_cons_self))
          refine List.Forall₂.cons ⟨hv.active, hv.hash, ?_, ?_⟩
            (ih (fun w hw => hsub (List.mem_cons_of_mem _ hw)))
          · rw [hversioned.frame hid, hv.tree]
          · rw [Tables.competencyNames, hversioned.frame hid]
            exact hv.names
    exact hkeep _ (List.Subset.refl _) _ h.holds
  · rw [hversioned.versions, List.pairwise_append]
    refine ⟨h.ordered, List.pairwise_singleton _ _, fun v hv w hw => ?_⟩
    rw [List.mem_singleton.mp hw]
    exact hnow v hv

end Archiving

section Seeds

variable {t t' : Tables} {past : List Edition} {e : Edition} {now : Instant}

/-- Writing an edition is refused just when it cannot be stored. -/
theorem materialise_storable (e : Edition) (now : Instant) (t : Tables) :
    (materialise t.nextId e.docs (openVersion e.hash now t)).refused = none ↔ e.Storable := by
  rw [← materialise_distinctDocs, materialise_refused _ _ distinctDocs_uniqueIds]
  exact ⟨fun h => h.2, fun h => ⟨rfl, h⟩⟩

theorem writeVersion_isOk_iff (h : Archives t past) :
    (∃ r, writeVersion e.docs e.hash now t = .ok r) ↔
      e.hash ∉ past.map Edition.hash ∧ e.Storable := by
  unfold writeVersion
  rw [h.hashes, ← materialise_storable e now t]
  by_cases hhash : e.hash ∈ past.map Edition.hash
  · rw [if_pos hhash]
    constructor
    · rintro ⟨r, hr⟩
      cases hr
    · exact fun hr => absurd hhash hr.1
  · rw [if_neg hhash]
    cases hw : (materialise t.nextId e.docs (openVersion e.hash now t)).refused with
    | none => simp [hw, hhash]
    | some err => simp [hw]

/-- A seed succeeds just when the editions can be revised. -/
theorem seedTransaction_isOk_iff (e : Edition) (now : Instant) (h : Archives t past) :
    (∃ r, seedTransaction e.docs e.hash false now t = .ok r) ↔ (revise past e).isSome := by
  unfold seedTransaction revise
  rw [h.latest_hash]
  by_cases hsame : past.getLast?.map Edition.hash = some e.hash
  · rw [if_pos hsame, if_pos hsame]
    exact ⟨fun _ => rfl, fun _ => ⟨_, rfl⟩⟩
  · rw [if_neg hsame, if_neg hsame]
    by_cases hgone : disappeared t e.docs = []
    · have hkeeps := (h.disappeared_iff e).mp hgone
      rw [if_neg (fun hne => hne hgone), if_neg Bool.false_ne_true, writeVersion_isOk_iff h]
      by_cases hfollows : e.hash ∉ past.map Edition.hash ∧ e.Storable
      · rw [if_pos ⟨hkeeps, hfollows⟩]
        exact ⟨fun _ => rfl, fun _ => hfollows⟩
      · rw [if_neg (fun hc => hfollows hc.2)]
        exact ⟨fun hc => absurd hc hfollows, fun hc => absurd hc Bool.false_ne_true⟩
    · rw [if_pos hgone, if_neg (fun hc => hgone ((h.disappeared_iff e).mpr hc.1))]
      constructor
      · rintro ⟨r, hr⟩
        cases hr
      · exact fun hc => absurd hc Bool.false_ne_true

/-- What a seed that succeeds has done to the editions. -/
theorem seedTransaction_of_archives {dryRun : Bool} {result : SeedResult} (h : Archives t past)
    (hnow : ∀ v ∈ t.versions, v.createdAt < now)
    (hseed : seedTransaction e.docs e.hash dryRun now t = .ok (result, t')) :
    (past.getLast?.map Edition.hash = some e.hash ∧ result.noop = true ∧
      result.newVersionId = none ∧ t' = t) ∨
    (past.getLast?.map Edition.hash ≠ some e.hash ∧ result.noop = false ∧
      ((dryRun = true ∧ result.newVersionId = none ∧ t' = t) ∨
        (dryRun = false ∧ result.newVersionId = some t.nextId ∧
          Versioned e.docs e.hash now t t' ∧ Archives t' (past ++ [e])))) := by
  have hcases := seedTransaction_cases hseed
  rw [h.latest_hash] at hcases
  rcases hcases with ⟨hsame, rfl, rfl⟩ | ⟨hsame, _, ⟨rfl, rfl, rfl⟩ | ⟨rfl, hwrite⟩⟩
  · exact Or.inl ⟨hsame, rfl, rfl, rfl⟩
  · exact Or.inr ⟨hsame, rfl, Or.inl ⟨rfl, rfl, rfl⟩⟩
  · rcases writeVersion_versioned hwrite with ⟨hversioned, hid, hnoop⟩
    exact Or.inr ⟨hsame, hnoop, Or.inr ⟨rfl, hid, hversioned, h.versioned hnow hversioned⟩⟩

end Seeds

section Renames

/-- An id that the rename check passes over. -/
def isBlockId (id : String) : Bool := "block.".toList.isPrefixOf id.toList

theorem mem_payloadIds_iff (e : Edition) (id : String) :
    id ∈ payloadIds e.docs ↔ id ∈ e.ids ∧ isBlockId id = false := by
  unfold payloadIds Edition.ids isBlockId
  simp only [List.mem_flatMap, List.mem_map, List.mem_filter, Bool.not_eq_true']
  constructor
  · rintro ⟨d, hd, n, ⟨hn, hblock⟩, rfl⟩
    exact ⟨⟨d, hd, n, hn, rfl⟩, hblock⟩
  · rintro ⟨⟨d, hd, n, hn, rfl⟩, hblock⟩
    exact ⟨d, hd, n, ⟨hn, hblock⟩, rfl⟩

theorem names_subset (e : Edition) : e.names ⊆ e.ids := by
  intro id hid
  unfold Edition.names competencyIds distinctDocs at hid
  rcases List.mem_flatMap.mp hid with ⟨d, hd, hid⟩
  rcases List.mem_map.mp hd with ⟨c, hc, rfl⟩
  rcases List.mem_map.mp hid with ⟨n, hn, rfl⟩
  rcases List.mem_map.mp (List.mem_of_mem_filter hn) with ⟨p, hp, rfl⟩
  exact List.mem_flatMap.mpr ⟨c, hc, List.mem_map_of_mem (Document.mem_nodesById hp).2⟩

/-- Where no id is missing, what the rename check objects to are competencies
    whose ids it passes over. -/
theorem keeps_iff {e last : Edition} (h : last.ids ⊆ e.ids) :
    e.Keeps last ↔ ∀ name ∈ last.names, isBlockId name = false := by
  constructor
  · intro hkeeps name hname
    exact ((mem_payloadIds_iff e name).mp (hkeeps name hname)).2
  · intro hblock name hname
    exact (mem_payloadIds_iff e name).mpr ⟨h (names_subset last hname), hblock name hname⟩

end Renames

end TechScreen.Rubric
