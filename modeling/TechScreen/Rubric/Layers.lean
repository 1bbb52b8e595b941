import TechScreen.Rubric.History

/-!
# The Versions Side by Side

The importer writes a version in one transaction: first its stacks, then the
blocks under them, then the competencies under those. Identifiers are handed out
in turn, so the rows of a version refer to one another only, and no two rows of a
table share an identifier. A version that has been written is never written to
again.

So a snapshot of a version is the last word on its stacks: a competency is under
one of them in the tables exactly if the snapshot lists it there, however many
versions have been seeded since.

## Main definitions

* `Rows.Layered`: References stay within a version.
* `Rows.Under`: A competency of a stack, through its block.
* `SnapshotStack.listed`: The competencies that a snapshot lists under a stack.

## Theorems

* `materialise_keeps`: What every insert keeps, the importer keeps.
* `layered_step`: A seed keeps the versions apart.
* `mem_listed_iff`: What a snapshot lists is what the tables have.
* `snapshot_step`: A snapshot stays what it was.
-/

namespace TechScreen.Rubric

open Lib

section Inserting
variable (version : RowId) {P : Writing → Prop}

/-- A property of the tables that no insert breaks. -/
structure Writing.Keeps (P : Writing → Prop) : Prop where
  stack : ∀ w name, P w → P (w.insertStack version name).2
  block : ∀ w stackId name, P w → P (w.insertBlock version stackId name).2
  competency : ∀ w blockId name, P w → P (w.insertCompetency version blockId name).2
  topic : ∀ w competencyId name, P w → P (w.insertTopic version competencyId name).2
  level : ∀ w competencyId level, P w → P (w.insertLevel version competencyId level)

variable {version} (h : Writing.Keeps version P)

include h

theorem passBlocks_keeps (stackId : RowId) (nodes : List Node) (blockIds : Dict String RowId)
    (w : Writing) (hw : P w) : P (passBlocks version stackId nodes blockIds w).2 := by
  induction nodes generalizing blockIds w with
  | nil => exact hw
  | cons node nodes ih =>
      rw [passBlocks]
      cases node.parent with
      | none => exact ih _ _ (h.block w stackId node.id hw)
      | some _ => exact ih _ _ hw

theorem insertLevels_keeps (competencyId : RowId) (levels : List Level) (w : Writing) (hw : P w) :
    P (insertLevels version competencyId levels w) := by
  induction levels generalizing w with
  | nil => exact hw
  | cons level levels ih => exact ih _ (h.level w competencyId level hw)

theorem passCompetencies_keeps (blockIds : Dict String RowId) (nodes : List Node)
    (competencyIds : Dict String RowId) (w : Writing) (hw : P w) :
    P (passCompetencies version blockIds nodes competencyIds w).2 := by
  induction nodes generalizing competencyIds w with
  | nil => exact hw
  | cons node nodes ih =>
      rw [passCompetencies]
      cases node.parent.bind blockIds.get? with
      | none => exact ih _ _ hw
      | some blockId =>
          exact ih _ _ (insertLevels_keeps h _ _ _ (h.competency w blockId node.id hw))

theorem passTopics_keeps (competencyIds : Dict String RowId) (nodes : List Node) (w : Writing)
    (hw : P w) : P (passTopics version competencyIds nodes w) := by
  induction nodes generalizing w with
  | nil => exact hw
  | cons node nodes ih =>
      rw [passTopics]
      cases node.parent.bind competencyIds.get? with
      | none => exact ih _ hw
      | some competencyId => exact ih _ (h.topic w competencyId node.id hw)

/-- What every insert keeps, the importer keeps. -/
theorem materialise_keeps (docs : List (String × Document)) (w : Writing) (hw : P w) :
    P (materialise version docs w) := by
  induction docs generalizing w with
  | nil => exact hw
  | cons d docs ih =>
      refine ih (materialiseStack version d.1 d.2 w) ?_
      have hstack := h.stack w d.1 hw
      have hblocks := passBlocks_keeps h (w.insertStack version d.1).1 d.2.values .empty _ hstack
      exact passTopics_keeps h _ _ _ (passCompetencies_keeps h _ d.2.values .empty _ hblocks)

end Inserting

section Identifiers

theorem Allotted.snoc {lo hi : Nat} {ids : List Nat} (h : Allotted lo hi ids) (hle : lo ≤ hi) :
    Allotted lo (hi + 1) (ids ++ [hi]) := by
  constructor
  · refine List.nodup_append.mpr ⟨h.1, List.nodup_singleton _, ?_⟩
    intro a ha b hb hab
    have hlt := (h.2 a ha).2
    rw [hab, List.mem_singleton.mp hb] at hlt
    exact Nat.lt_irrefl _ hlt
  · intro id hid
    rcases List.mem_append.mp hid with hid | hid
    · have := h.2 id hid
      omega
    · rw [List.mem_singleton.mp hid]
      omega

theorem Allotted.mono {lo hi hi' : Nat} {ids : List Nat} (h : Allotted lo hi ids)
    (hle : hi ≤ hi') : Allotted lo hi' ids :=
  ⟨h.1, fun id hid => ⟨(h.2 id hid).1, Nat.lt_of_lt_of_le (h.2 id hid).2 hle⟩⟩

/-- Blocks and competencies have identifiers of their own. -/
def Tables.Keyed (t : Tables) : Prop :=
  Allotted 0 t.nextId (t.rows.competencyBlock.map BlockRow.id) ∧
    Allotted 0 t.nextId (t.rows.competency.map CompetencyRow.id)

theorem keyed_insert (w : Writing) (row : RowId → Rows) (hw : w.tables.Keyed)
    (hblock : (row w.tables.nextId).competencyBlock.map BlockRow.id = [] ∨
      (row w.tables.nextId).competencyBlock.map BlockRow.id = [w.tables.nextId])
    (hcomp : (row w.tables.nextId).competency.map CompetencyRow.id = [] ∨
      (row w.tables.nextId).competency.map CompetencyRow.id = [w.tables.nextId]) :
    (w.insert row).2.tables.Keyed := by
  have hnext (ids : List RowId) (more : List RowId) (h : Allotted 0 w.tables.nextId ids)
      (hmore : more = [] ∨ more = [w.tables.nextId]) :
      Allotted 0 (w.tables.nextId + 1) (ids ++ more) := by
    rcases hmore with rfl | rfl
    · rw [List.append_nil]
      exact h.mono (Nat.le_succ _)
    · exact h.snoc (Nat.zero_le _)
  constructor
  · change Allotted 0 (w.tables.nextId + 1)
      ((w.tables.rows ++ row w.tables.nextId).competencyBlock.map BlockRow.id)
    rw [competencyBlock_append, List.map_append]
    exact hnext _ _ hw.1 hblock
  · change Allotted 0 (w.tables.nextId + 1)
      ((w.tables.rows ++ row w.tables.nextId).competency.map CompetencyRow.id)
    rw [competency_append, List.map_append]
    exact hnext _ _ hw.2 hcomp

theorem keyed_keeps (version : RowId) :
    Writing.Keeps version (fun w => w.tables.Keyed) where
  stack w _ hw := keyed_insert w _ hw (.inl rfl) (.inl rfl)
  block w _ _ hw := keyed_insert w _ hw (.inr rfl) (.inl rfl)
  competency w _ _ hw := keyed_insert w _ hw (.inl rfl) (.inr rfl)
  topic w _ _ hw := keyed_insert w _ hw (.inl rfl) (.inl rfl)
  level w competencyId level hw := keyed_insert w
    (fun id => { level := [⟨id, version, competencyId, level.level, level.descriptorEn⟩] }) hw
    (.inl rfl) (.inl rfl)

end Identifiers

section Layers

/-- References stay within a version, and identifiers are below a bound. -/
structure Rows.Layered (rows : Rows) (hi : Nat) : Prop where
  below : rows.Local 0 hi
  block : ∀ b ∈ rows.competencyBlock, ∀ s ∈ rows.stack, b.stackId = s.id →
    b.rubricTreeVersionId = s.rubricTreeVersionId
  competency : ∀ c ∈ rows.competency, ∀ b ∈ rows.competencyBlock, c.competencyBlockId = b.id →
    c.rubricTreeVersionId = b.rubricTreeVersionId

/-- Rows of a new version refer to no older ones, and no older ones to them. -/
theorem Rows.Layered.append {a b : Rows} {lo hi : Nat} {version : RowId} (ha : a.Layered lo)
    (hle : lo ≤ hi) (hlocal : b.Local lo hi) (hwithin : b.Within (fun id => id = version)) :
    (a ++ b).Layered hi := by
  have hbelow := (ha.below.mono (Nat.le_refl 0) hle).append
    (hlocal.mono (Nat.zero_le lo) (Nat.le_refl hi))
  refine ⟨hbelow, ?_, ?_⟩
  · intro x hx s hs href
    rw [competencyBlock_append, List.mem_append] at hx
    rw [stack_append, List.mem_append] at hs
    rcases hx with hx | hx
    · have hlt := (ha.below.competencyBlock x hx).2.2
      rcases hs with hs | hs
      · exact ha.block x hx s hs href
      · rw [href] at hlt
        exact absurd (hlocal.stack s hs).1 (Nat.not_le_of_lt hlt)
    · have hge := (hlocal.competencyBlock x hx).2.1
      rcases hs with hs | hs
      · rw [href] at hge
        exact absurd (ha.below.stack s hs).2 (Nat.not_lt_of_le hge)
      · rw [hwithin.competencyBlock x hx, hwithin.stack s hs]
  · intro c hc x hx href
    rw [competency_append, List.mem_append] at hc
    rw [competencyBlock_append, List.mem_append] at hx
    rcases hc with hc | hc
    · have hlt := (ha.below.competency c hc).2.2
      rcases hx with hx | hx
      · exact ha.competency c hc x hx href
      · rw [href] at hlt
        exact absurd (hlocal.competencyBlock x hx).1.1 (Nat.not_le_of_lt hlt)
    · have hge := (hlocal.competency c hc).2.1
      rcases hx with hx | hx
      · rw [href] at hge
        exact absurd (ha.below.competencyBlock x hx).1.2 (Nat.not_lt_of_le hge)
      · rw [hwithin.competency c hc, hwithin.competencyBlock x hx]

/-- The tables as the importer leaves them. -/
structure Tables.Layered (t : Tables) : Prop where
  sound : t.Sound
  rows : t.rows.Layered t.nextId
  keyed : t.Keyed

theorem layered_empty : Tables.Layered {} where
  sound := Database.empty.property
  rows := by constructor <;> (try constructor) <;> simp
  keyed := ⟨allotted_nil 0 0, allotted_nil 0 0⟩

variable {docs : List (String × Document)} {newHash : String} {now : Instant} {t t' : Tables}
  {result : SeedResult}

/-- The rows of a version on top of the ones before it. -/
theorem layered_materialise (ht : t.Layered) (docs : List (String × Document)) (newHash : String)
    (now : Instant) {w : Writing}
    (hw : materialise t.nextId docs (openVersion newHash now t) = w) :
    w.tables.rows.Layered w.tables.nextId ∧ w.tables.Keyed := by
  obtain ⟨rows, hwrote, -, -, hlocal, hwithin⟩ := materialise_wrote t.nextId (distinctDocs docs)
    distinctDocs_uniqueIds (openVersion newHash now t)
  have hkeyed := materialise_keeps (keyed_keeps t.nextId) docs (openVersion newHash now t)
    ⟨ht.keyed.1.mono (Nat.le_succ _), ht.keyed.2.mono (Nat.le_succ _)⟩
  rw [materialise_distinctDocs, hw] at hwrote hlocal
  rw [hw] at hkeyed
  refine ⟨?_, hkeyed⟩
  have hrows : w.tables.rows = t.rows ++ rows := congrArg Tables.rows hwrote.tables
  rw [hrows]
  exact ht.rows.append (Nat.le_trans (Nat.le_succ _) hwrote.nextId_le)
    (hlocal.mono (Nat.le_succ _) (Nat.le_refl _)) hwithin

theorem layered_writeVersion (ht : t.Layered)
    (h : writeVersion docs newHash now t = .ok (result, t')) : t'.Layered := by
  have hversioned := (writeVersion_versioned h).1
  have hsound := hversioned.sound ht.sound
  rw [writeVersion, if_neg hversioned.fresh] at h
  cases hw : materialise t.nextId docs (openVersion newHash now t) with
  | mk tables inserted refused =>
      have hrows := layered_materialise ht docs newHash now hw
      rw [hw] at h
      cases refused with
      | some e => cases h
      | none =>
          cases h
          exact ⟨hsound, hrows.1, hrows.2⟩

theorem layered_seed {dryRun : Bool} (ht : t.Layered)
    (h : seedTransaction docs newHash dryRun now t = .ok (result, t')) : t'.Layered := by
  rcases seedTransaction_cases h with ⟨-, -, rfl⟩ | ⟨-, -, ⟨-, -, rfl⟩ | ⟨-, hwrite⟩⟩
  · exact ht
  · exact ht
  · exact layered_writeVersion ht hwrite

/-- A seed keeps the versions apart. -/
theorem layered_step {kit : Toolkit} {s s' : Store} {c : SeedCall} {out : List SeedResult}
    (hs : s.tables.Layered) (h : historyStep kit s c = .ok (s', out)) : s'.tables.Layered := by
  obtain ⟨docs, result, -, -, -, hseed⟩ := historyStep_ok h
  exact layered_seed hs hseed

end Layers

section Offering
variable (collation : String → String → Bool)

/-- A competency of a stack, through its block. -/
def Rows.Under (rows : Rows) (stackId competencyId : RowId) : Prop :=
  ∃ c ∈ rows.competency, c.id = competencyId ∧
    ∃ b ∈ rows.competencyBlock, c.competencyBlockId = b.id ∧ b.stackId = stackId

theorem Rows.Under.grow {rows : Rows} {stackId c : RowId} (h : rows.Under stackId c)
    (more : Rows) : (rows ++ more).Under stackId c := by
  obtain ⟨row, hrow, hid, b, hb, hblock, hstack⟩ := h
  exact ⟨row, List.mem_append_left _ hrow, hid, b, List.mem_append_left _ hb, hblock, hstack⟩

/-- The competencies that a snapshot lists under a stack. -/
def SnapshotStack.listed (s : SnapshotStack) : List RowId :=
  s.competencyBlocks.flatMap (fun b => b.competencies.map SnapshotCompetency.id)

theorem mem_competenciesByBlock (rows : Rows) (blockId competencyId : RowId) :
    competencyId ∈ (((competenciesByBlock collation rows).get? blockId).getD []).map
        SnapshotCompetency.id
      ↔ ∃ c ∈ rows.competency, c.id = competencyId ∧ c.competencyBlockId = blockId := by
  unfold competenciesByBlock
  rw [getD_group]
  simp only [List.mem_map, List.mem_filter, List.mem_mergeSort, decide_eq_true_eq]
  constructor
  · rintro ⟨_, ⟨c, ⟨hc, hblock⟩, rfl⟩, rfl⟩
    exact ⟨c, hc, rfl, hblock⟩
  · rintro ⟨c, hc, rfl, hblock⟩
    exact ⟨_, ⟨c, ⟨hc, hblock⟩, rfl⟩, rfl⟩

/-- A snapshot of rows has a stack for each row, with what is under it. -/
theorem mem_snapshotStacks {rows : Rows} {st : SnapshotStack}
    (h : st ∈ snapshotStacks collation rows) :
    (∃ r ∈ rows.stack, r.id = st.id) ∧ ∀ c, c ∈ st.listed ↔ rows.Under st.id c := by
  unfold snapshotStacks at h
  obtain ⟨r, hr, rfl⟩ := List.mem_map.mp h
  refine ⟨⟨r, List.mem_mergeSort.mp hr, rfl⟩, fun c => ?_⟩
  unfold SnapshotStack.listed blocksByStack Rows.Under
  rw [getD_group]
  simp only [List.mem_flatMap, List.mem_map, List.mem_filter, List.mem_mergeSort,
    decide_eq_true_eq]
  constructor
  · rintro ⟨_, ⟨b, ⟨hb, hstack⟩, rfl⟩, hc⟩
    obtain ⟨row, hrow, hid, hblock⟩ :=
      (mem_competenciesByBlock collation rows b.id c).mp (List.mem_map.mpr hc)
    exact ⟨row, hrow, hid, b, hb, hblock, hstack⟩
  · rintro ⟨row, hrow, hid, b, hb, hblock, hstack⟩
    have hc := (mem_competenciesByBlock collation rows b.id c).mpr ⟨row, hrow, hid, hblock⟩
    exact ⟨_, ⟨b, ⟨hb, hstack⟩, rfl⟩, List.mem_map.mp hc⟩

/-- What is under a stack of a version is in that version. -/
theorem Rows.Layered.under_of_iff {rows : Rows} {hi : Nat} (h : rows.Layered hi) {version : RowId}
    {r : StackRow} (hr : r ∈ (rows.of version).stack) (c : RowId) :
    (rows.of version).Under r.id c ↔ rows.Under r.id c := by
  have hversion : r.rubricTreeVersionId = version := of_decide_eq_true (List.mem_filter.mp hr).2
  have hmem : r ∈ rows.stack := List.mem_of_mem_filter hr
  constructor
  · rintro ⟨row, hrow, hid, b, hb, hblock, hstack⟩
    exact ⟨row, List.mem_of_mem_filter hrow, hid, b, List.mem_of_mem_filter hb, hblock, hstack⟩
  · rintro ⟨row, hrow, hid, b, hb, hblock, hstack⟩
    have hb' : b.rubricTreeVersionId = version := (h.block b hb r hmem hstack).trans hversion
    have hrow' : row.rubricTreeVersionId = version :=
      (h.competency row hrow b hb hblock).trans hb'
    exact ⟨row, List.mem_filter.mpr ⟨hrow, decide_eq_true hrow'⟩, hid, b,
      List.mem_filter.mpr ⟨hb, decide_eq_true hb'⟩, hblock, hstack⟩

variable {collation} {t : Tables} {version : RowId} {snapshot : RubricSnapshot}

theorem stackList_of_ok (h : snapshotRubric collation t version = .ok snapshot) :
    snapshot.stackList = snapshotStacks collation (t.rows.of version) := by
  unfold snapshotRubric at h
  split at h
  · cases h
  · cases h
    rfl

/-- What a snapshot lists is what the tables have. -/
theorem mem_listed_iff (ht : t.Layered) (h : snapshotRubric collation t version = .ok snapshot)
    {st : SnapshotStack} (hst : st ∈ snapshot.stackList) (c : RowId) :
    c ∈ st.listed ↔ t.rows.Under st.id c := by
  rw [stackList_of_ok h] at hst
  obtain ⟨⟨r, hr, hid⟩, hlisted⟩ := mem_snapshotStacks collation hst
  rw [hlisted c, ← hid]
  exact ht.rows.under_of_iff hr c

theorem exists_stackRow (h : snapshotRubric collation t version = .ok snapshot)
    {st : SnapshotStack} (hst : st ∈ snapshot.stackList) : ∃ r ∈ t.rows.stack, r.id = st.id := by
  rw [stackList_of_ok h] at hst
  obtain ⟨⟨r, hr, hid⟩, -⟩ := mem_snapshotStacks collation hst
  exact ⟨r, List.mem_of_mem_filter hr, hid⟩

/-- A competency is under one stack at most. -/
theorem Tables.Keyed.under_unique (ht : t.Keyed) {stackId stackId' c : RowId}
    (h : t.rows.Under stackId c) (h' : t.rows.Under stackId' c) : stackId = stackId' := by
  obtain ⟨row, hrow, hid, b, hb, hblock, rfl⟩ := h
  obtain ⟨row', hrow', hid', b', hb', hblock', rfl⟩ := h'
  have hrows : row = row' := List.inj_on_of_nodup_map ht.2.1 hrow hrow' (hid.trans hid'.symm)
  subst hrows
  have hblocks : b = b' := List.inj_on_of_nodup_map ht.1.1 hb hb' (hblock.symm.trans hblock')
  rw [hblocks]

/-- Rows that are there stay there. -/
theorem rows_step {kit : Toolkit} {s s' : Store} {c : SeedCall} {out : List SeedResult}
    (h : historyStep kit s c = .ok (s', out)) :
    (∃ more, s'.tables.rows = s.tables.rows ++ more) ∧ s.tables.nextId ≤ s'.tables.nextId := by
  obtain ⟨docs, result, -, -, -, hseed⟩ := historyStep_ok h
  have hsame : s'.tables = s.tables → (∃ more, s'.tables.rows = s.tables.rows ++ more) ∧
      s.tables.nextId ≤ s'.tables.nextId := by
    intro htables
    rw [htables]
    exact ⟨⟨{}, (Rows.append_empty _).symm⟩, Nat.le_refl _⟩
  rcases seedTransaction_cases hseed with ⟨-, -, hs⟩ | ⟨-, -, ⟨-, -, hs⟩ | ⟨-, hwrite⟩⟩
  · exact hsame hs
  · exact hsame hs
  · have hversioned := (writeVersion_versioned hwrite).1
    obtain ⟨rows, hrows, -⟩ := hversioned.rows
    exact ⟨⟨rows, hrows⟩, Nat.le_of_lt hversioned.nextId_lt⟩

/-- A snapshot stays what it was. -/
theorem snapshot_step {kit : Toolkit} {s s' : Store} {c : SeedCall} {out : List SeedResult}
    (hs : s.tables.Layered) (h : historyStep kit s c = .ok (s', out))
    (hsnap : snapshotRubric collation s.tables version = .ok snapshot) :
    snapshotRubric collation s'.tables version = .ok snapshot := by
  obtain ⟨docs, result, -, -, -, hseed⟩ := historyStep_ok h
  rcases seedTransaction_cases hseed with ⟨-, -, htables⟩ | ⟨-, -, ⟨-, -, htables⟩ | ⟨-, hwrite⟩⟩
  · rw [htables]
    exact hsnap
  · rw [htables]
    exact hsnap
  · have hversioned := (writeVersion_versioned hwrite).1
    unfold snapshotRubric at hsnap ⊢
    split at hsnap
    · cases hsnap
    · next row hrow =>
        -- The new version is another one, so the rows of this one are as they were.
        have hne : version ≠ s.tables.nextId := by
          have hid : row.id = version := by simpa using List.find?_some hrow
          exact hid ▸ Nat.ne_of_lt (hs.sound.versions_lt row (List.mem_of_find?_eq_some hrow))
        rw [hversioned.versions, List.find?_append, hrow, hversioned.frame hne]
        exact hsnap

end Offering

end TechScreen.Rubric
