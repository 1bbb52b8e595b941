import TechScreen.Services.PositionTemplate

/-!
# The Consistency of Position Templates

Whatever is created, updated and archived, one request after another and with
the rubric growing meanwhile, a stored template selects what its schema and the
rubric allow. An update that is refused leaves every row as it is, and one that
gets through changes only what its fields name.

An update that names one of the two selections is checked against the stored
other one, so the checks see the selection that is stored in the end.

## Main definitions

* `Selection.WellFormed`: What a template may select.
* `Store.Sound`: The invariant.

## Theorems

* `onlyNamed_of_apply`: An update writes what its fields name.
* `sound_step`: Every request keeps the invariant.
* `templates_consistent`: The templates of every run.
-/

namespace TechScreen.Positions

open Lib Rubric

section Selections

/-- What a template may select: some stacks, and some competencies of them, each
    at most once, and must-haves among these. -/
structure Selection.WellFormed (rubric : Rows) (sel : Selection) : Prop where
  stackIds_ne : sel.stackIds ≠ []
  stackIds_nodup : sel.stackIds.Nodup
  competencyIds_ne : sel.competencyIds ≠ []
  competencyIds_nodup : sel.competencyIds.Nodup
  mustHave_selected : ∀ c ∈ sel.mustHaveIds, c ∈ sel.competencyIds
  belong : ∀ c ∈ sel.competencyIds, BelongsTo rubric sel.stackIds c

/-- The must-haves are flagged rows, so they are selected in any case. -/
theorem mustHave_selected (s : Store) (id : RowId) :
    ∀ c ∈ (s.currentSelection id).mustHaveIds, c ∈ (s.currentSelection id).competencyIds := by
  intro c hc
  obtain ⟨p, hp, rfl⟩ := List.mem_map.mp hc
  exact List.mem_map_of_mem (List.mem_of_mem_filter hp)

theorem BelongsTo.grow {rubric : Rows} {stackIds : List RowId} {c : RowId}
    (h : BelongsTo rubric stackIds c) (more : Rows) : BelongsTo (rubric ++ more) stackIds c := by
  obtain ⟨row, hrow, hid, cb, hcb, hblock, hsid⟩ := h
  exact ⟨row, List.mem_append_left _ hrow, hid, cb, List.mem_append_left _ hcb, hblock, hsid⟩

theorem Selection.WellFormed.grow {rubric : Rows} {sel : Selection} (h : sel.WellFormed rubric)
    (more : Rows) : sel.WellFormed (rubric ++ more) :=
  { h with belong := fun c hc => (h.belong c hc).grow more }

/-- A selection is well formed when a template with it passes both checks. -/
theorem wellFormed_of_fields {s : Store} {id : RowId} {f : CreateFields} {rubric : Rows}
    (hvalid : f.Valid) (hfits : f.Fits rubric) (hs : (s.currentSelection id).stackIds = f.stackIds)
    (hc : (s.currentSelection id).competencyIds = f.competencyIds) :
    (s.currentSelection id).WellFormed rubric where
  stackIds_ne := hs ▸ hvalid.stackIds_ne
  stackIds_nodup := hs ▸ hvalid.stackIds_nodup
  competencyIds_ne := hc ▸ hvalid.competencyIds_ne
  competencyIds_nodup := hc ▸ hvalid.competencyIds_nodup
  mustHave_selected := mustHave_selected s id
  belong := by
    intro c hmem
    rw [hs]
    exact hfits.competencyIds_belong c (hc ▸ hmem)

end Selections

section Applying
variable {id : RowId} {now : Instant} {s s' : Store}

/-- The rows of one template stand among the rows of all but another one. -/
theorem filter_of_others {ρ : Type} (template : ρ → RowId) {u : RowId} (hu : u ≠ id)
    {rows rows' : List ρ}
    (h : rows'.filter (fun r => template r ≠ id) = rows.filter (fun r => template r ≠ id)) :
    rows'.filter (fun r => template r = u) = rows.filter (fun r => template r = u) := by
  have hsub : ∀ l : List ρ, l.filter (fun r => template r = u)
      = (l.filter (fun r => template r ≠ id)).filter (fun r => template r = u) := by
    intro l
    rw [List.filter_filter]
    refine List.filter_congr (fun r _ => ?_)
    by_cases hr : template r = u
    · simp [hr, hu]
    · simp [hr]
  rw [hsub, h, ← hsub]

/-- The rows of all templates but one are as they were. -/
structure SameOthers (id : RowId) (s s' : Store) : Prop where
  stackRows : s'.positionTemplateStack.filter (fun r => r.positionTemplateId ≠ id)
    = s.positionTemplateStack.filter (fun r => r.positionTemplateId ≠ id)
  competencyRows : s'.positionTemplateCompetency.filter (fun r => r.positionTemplateId ≠ id)
    = s.positionTemplateCompetency.filter (fun r => r.positionTemplateId ≠ id)

theorem OnlyNamed.others {patch : UpdateFields} (h : OnlyNamed patch id s s') :
    SameOthers id s s' := ⟨h.otherStacks, h.otherCompetencies⟩

theorem SameOthers.trans {s'' : Store} (h : SameOthers id s s') (h' : SameOthers id s' s'') :
    SameOthers id s s'' :=
  ⟨h'.stackRows.trans h.stackRows, h'.competencyRows.trans h.competencyRows⟩

theorem SameOthers.currentSelection (h : SameOthers id s s') {u : RowId} (hu : u ≠ id) :
    s'.currentSelection u = s.currentSelection u := by
  have hstacks := filter_of_others TemplateStackRow.positionTemplateId hu h.stackRows
  have hcomps := filter_of_others TemplateCompetencyRow.positionTemplateId hu h.competencyRows
  unfold Store.currentSelection Store.stackIds Store.competencies
  rw [hstacks, hcomps]

theorem insertStacks_keeps {β : Type} (part : Store → β)
    (h : ∀ (s : Store) (stackId : RowId), part (Store.insertStack now id s stackId) = part s)
    (ids : List RowId) (s : Store) : part (ids.foldl (Store.insertStack now id) s) = part s :=
  foldl_keeps _ part h ids s

theorem insertCompetencies_keeps {β : Type} {must : List RowId} (part : Store → β)
    (h : ∀ (s : Store) (c : RowId), part (Store.insertCompetency now id must s c) = part s)
    (ids : List RowId) (s : Store) :
    part (ids.foldl (Store.insertCompetency now id must) s) = part s :=
  foldl_keeps _ part h ids s

theorem sameOthers_insertStacks (ids : List RowId) (s : Store) :
    SameOthers id s (ids.foldl (Store.insertStack now id) s) := by
  constructor
  · refine insertStacks_keeps (fun s => s.positionTemplateStack.filter _) (fun s stackId => ?_)
      ids s
    change (s.positionTemplateStack ++ _).filter _ = _
    rw [List.filter_append, List.filter_singleton]
    simp
  · exact insertStacks_keeps (fun s => s.positionTemplateCompetency.filter _) (fun _ _ => rfl) ids s

theorem sameOthers_insertCompetencies (must ids : List RowId) (s : Store) :
    SameOthers id s (ids.foldl (Store.insertCompetency now id must) s) := by
  constructor
  · exact insertCompetencies_keeps (fun s => s.positionTemplateStack.filter _) (fun _ _ => rfl)
      ids s
  · refine insertCompetencies_keeps (fun s => s.positionTemplateCompetency.filter _)
      (fun s c => ?_) ids s
    change (s.positionTemplateCompetency ++ _).filter _ = _
    rw [List.filter_append, List.filter_singleton]
    simp

theorem sameOthers_deleteStacks (s : Store) : SameOthers id s (s.deleteStacks id) := by
  refine ⟨?_, rfl⟩
  change (s.positionTemplateStack.filter _).filter _ = _
  rw [List.filter_filter]
  exact List.filter_congr (fun r _ => Bool.and_self _)

theorem sameOthers_deleteCompetencies (s : Store) :
    SameOthers id s (s.deleteCompetencies id) := by
  refine ⟨rfl, ?_⟩
  change (s.positionTemplateCompetency.filter _).filter _ = _
  rw [List.filter_filter]
  exact List.filter_congr (fun r _ => Bool.and_self _)

/-- After an update a template selects what the update was checked to leave. -/
theorem OnlyNamed.currentSelection_self {patch : UpdateFields} (h : OnlyNamed patch id s s')
    (tmpl : TemplateRow) :
    (s'.currentSelection id).stackIds
        = (resultingTemplate tmpl (s.currentSelection id) patch).stackIds ∧
      (s'.currentSelection id).competencyIds
        = (resultingTemplate tmpl (s.currentSelection id) patch).competencyIds := by
  have hstacks := h.ownStacks
  have hcomps := h.ownCompetencies
  unfold resultingTemplate
  constructor
  · cases hp : patch.stackIds.value? with
    | none =>
        rw [hp] at hstacks
        change s'.stackIds id = s.stackIds id
        unfold Store.stackIds
        rw [hstacks]
    | some ids =>
        rw [hp] at hstacks
        exact hstacks
  · cases hp : patch.competencyIds.value? with
    | none =>
        rw [hp] at hcomps
        change (s'.competencies id).map Prod.fst = (s.competencies id).map Prod.fst
        unfold Store.competencies
        rw [hcomps]
    | some ids =>
        rw [hp] at hcomps
        change (s'.competencies id).map Prod.fst = ids
        rw [hcomps, List.map_map]
        exact List.map_id ids

/-- Replacing the stacks of a template, if the update names them. -/
def writeStacks (id : RowId) (patch : UpdateFields) (f : CreateFields) (now : Instant)
    (s : Store) : Store :=
  if patch.stackIds.value?.isSome then
    f.stackIds.foldl (Store.insertStack now id) (s.deleteStacks id)
  else s

def writeCompetencies (id : RowId) (patch : UpdateFields) (f : CreateFields) (now : Instant)
    (s : Store) : Store :=
  if patch.competencyIds.value?.isSome then
    f.competencyIds.foldl (Store.insertCompetency now id f.mustHaveCompetencyIds)
      (s.deleteCompetencies id)
  else s

theorem applyUpdate_eq (id : RowId) (patch : UpdateFields) (f : CreateFields) (now : Instant)
    (s : Store) : applyUpdate id patch f now s
      = writeCompetencies id patch f now (writeStacks id patch f now (s.setColumns id f)) := rfl

/-- What replacing the stacks does not touch. -/
theorem writeStacks_keeps {β : Type} (part : Store → β) (patch : UpdateFields) (f : CreateFields)
    (hdel : ∀ s : Store, part (s.deleteStacks id) = part s)
    (hins : ∀ (s : Store) (stackId : RowId), part (s.insertStack now id stackId) = part s)
    (s : Store) : part (writeStacks id patch f now s) = part s := by
  unfold writeStacks
  split
  · rw [foldl_keeps _ part hins, hdel]
  · rfl

theorem writeCompetencies_keeps {β : Type} (part : Store → β) (patch : UpdateFields)
    (f : CreateFields) (hdel : ∀ s : Store, part (s.deleteCompetencies id) = part s)
    (hins : ∀ (s : Store) (c : RowId),
      part (s.insertCompetency now id f.mustHaveCompetencyIds c) = part s)
    (s : Store) : part (writeCompetencies id patch f now s) = part s := by
  unfold writeCompetencies
  split
  · rw [foldl_keeps _ part hins, hdel]
  · rfl

theorem sameOthers_writeStacks (patch : UpdateFields) (f : CreateFields) (s : Store) :
    SameOthers id s (writeStacks id patch f now s) := by
  unfold writeStacks
  split
  · exact (sameOthers_deleteStacks s).trans (sameOthers_insertStacks f.stackIds _)
  · exact ⟨rfl, rfl⟩

theorem sameOthers_writeCompetencies (patch : UpdateFields) (f : CreateFields) (s : Store) :
    SameOthers id s (writeCompetencies id patch f now s) := by
  unfold writeCompetencies
  split
  · exact (sameOthers_deleteCompetencies s).trans
      (sameOthers_insertCompetencies f.mustHaveCompetencyIds f.competencyIds _)
  · exact ⟨rfl, rfl⟩

theorem id_of_template? {tmpl : TemplateRow} (h : s.template? id = some tmpl) : tmpl.id = id := by
  unfold Store.template? at h
  simpa using List.find?_some h

/-- An update writes what its fields name. -/
theorem onlyNamed_of_apply {tmpl : TemplateRow} (htmpl : s.template? id = some tmpl)
    (hids : (s.positionTemplate.map TemplateRow.id).Nodup) (patch : UpdateFields) :
    OnlyNamed patch id s
      (applyUpdate id patch (resultingTemplate tmpl (s.currentSelection id) patch) now s) := by
  set f := resultingTemplate tmpl (s.currentSelection id) patch with hf
  have hcolumns : SameOthers id s (s.setColumns id f) := ⟨rfl, rfl⟩
  have hothers : SameOthers id s (writeStacks id patch f now (s.setColumns id f)) :=
    hcolumns.trans (sameOthers_writeStacks patch f (s.setColumns id f))
  rw [applyUpdate_eq]
  constructor
  · rw [writeCompetencies_keeps Store.rubric _ _ (fun _ => rfl) (fun _ _ => rfl),
      writeStacks_keeps Store.rubric _ _ (fun _ => rfl) (fun _ _ => rfl)]
    rfl
  · rw [writeCompetencies_keeps Store.users _ _ (fun _ => rfl) (fun _ _ => rfl),
      writeStacks_keeps Store.users _ _ (fun _ => rfl) (fun _ _ => rfl)]
    rfl
  · rw [writeCompetencies_keeps Store.positionTemplate _ _ (fun _ => rfl) (fun _ _ => rfl),
      writeStacks_keeps Store.positionTemplate _ _ (fun _ => rfl) (fun _ _ => rfl)]
    refine List.map_congr_left (fun r hr => ?_)
    by_cases hrid : r.id = id
    · -- The only row with this identifier is the one that the update has read.
      have hmem := List.mem_of_find?_eq_some htmpl
      have hid : tmpl.id = id := id_of_template? htmpl
      have hsame : r = tmpl := List.inj_on_of_nodup_map hids hr hmem (hrid.trans hid.symm)
      rw [if_pos hrid, if_pos hrid, hsame]
      rfl
    · rw [if_neg hrid, if_neg hrid]
  · exact (hothers.trans (sameOthers_writeCompetencies patch f _)).stackRows
  · exact (hothers.trans (sameOthers_writeCompetencies patch f _)).competencyRows
  · -- The stacks: kept, or replaced by those that the update names.
    cases hp : patch.stackIds.value? with
    | none =>
        change _ = s.positionTemplateStack
        rw [writeCompetencies_keeps Store.positionTemplateStack _ _ (fun _ => rfl)
          (fun _ _ => rfl)]
        unfold writeStacks
        rw [hp, if_neg (by simp)]
        rfl
    | some ids =>
        change Store.stackIds _ id = ids
        rw [writeCompetencies_keeps (fun s => s.stackIds id) _ _ (fun _ => rfl) (fun _ _ => rfl)]
        have hids : f.stackIds = ids := by
          rw [hf]
          unfold resultingTemplate
          rw [hp]
          rfl
        unfold writeStacks
        rw [hp, if_pos (by rfl), Store.stackIds_replaceStacks, hids]
  · -- The competencies, with their marks: likewise.
    cases hp : patch.competencyIds.value? with
    | none =>
        change _ = s.positionTemplateCompetency
        unfold writeCompetencies
        rw [hp, if_neg (by simp), writeStacks_keeps Store.positionTemplateCompetency _ _
          (fun _ => rfl) (fun _ _ => rfl)]
        rfl
    | some ids =>
        change Store.competencies _ id = _
        have hids : f.competencyIds = ids ∧
            f.mustHaveCompetencyIds = patch.mustHaveCompetencyIds.value?.getD [] := by
          rw [hf]
          unfold resultingTemplate
          rw [hp]
          exact ⟨rfl, rfl⟩
        unfold writeCompetencies
        rw [hp, if_pos (by rfl), Store.competencies_replaceCompetencies, hids.1, hids.2]

end Applying

section Invariant
variable (kit : IdKit) {id : RowId} {now : Instant} {s s' : Store}

def Store.ids (s : Store) : List RowId := s.positionTemplate.map TemplateRow.id

/-- The identifiers in use have been handed out, no two templates have the same one,
    and every template selects what it may. -/
structure Store.Sound (s : Store) : Prop where
  ids_lt : ∀ i ∈ s.ids, i < s.nextId
  ids_nodup : s.ids.Nodup
  stackRows_lt : ∀ r ∈ s.positionTemplateStack, r.positionTemplateId < s.nextId
  competencyRows_lt : ∀ r ∈ s.positionTemplateCompetency, r.positionTemplateId < s.nextId
  wellFormed : ∀ i ∈ s.ids, (s.currentSelection i).WellFormed s.rubric

theorem nextId_le_foldl {α : Type} (insert : Store → α → Store)
    (h : ∀ s a, s.nextId ≤ (insert s a).nextId) (l : List α) (s : Store) :
    s.nextId ≤ (l.foldl insert s).nextId := by
  induction l generalizing s with
  | nil => exact Nat.le_refl _
  | cons a l ih => exact Nat.le_trans (h s a) (ih (insert s a))

theorem nextId_le_insertStacks (ids : List RowId) (s : Store) :
    s.nextId ≤ (ids.foldl (Store.insertStack now id) s).nextId :=
  nextId_le_foldl _ (fun _ _ => Nat.le_succ _) ids s

theorem nextId_le_insertCompetencies (must ids : List RowId) (s : Store) :
    s.nextId ≤ (ids.foldl (Store.insertCompetency now id must) s).nextId :=
  nextId_le_foldl _ (fun _ _ => Nat.le_succ _) ids s

theorem nextId_le_apply (patch : UpdateFields) (f : CreateFields) (s : Store) :
    s.nextId ≤ (applyUpdate id patch f now s).nextId := by
  rw [applyUpdate_eq]
  have hstacks : s.nextId ≤ (writeStacks id patch f now (s.setColumns id f)).nextId := by
    unfold writeStacks
    split
    · exact nextId_le_insertStacks f.stackIds ((s.setColumns id f).deleteStacks id)
    · exact Nat.le_refl _
  refine Nat.le_trans hstacks ?_
  unfold writeCompetencies
  split
  · exact nextId_le_insertCompetencies f.mustHaveCompetencyIds f.competencyIds
      (Store.deleteCompetencies id _)
  · exact Nat.le_refl _

theorem OnlyNamed.ids {patch : UpdateFields} (h : OnlyNamed patch id s s') : s'.ids = s.ids := by
  unfold Store.ids
  rw [h.columns, List.map_map]
  refine List.map_congr_left (fun r _ => ?_)
  change (if r.id = id then patch.patched r else r).id = r.id
  split <;> rfl

/-- A row of a template, or one that was there before. -/
theorem mem_of_others {ρ : Type} {template : ρ → RowId} {rows rows' : List ρ}
    (h : rows'.filter (fun r => template r ≠ id) = rows.filter (fun r => template r ≠ id)) {r : ρ}
    (hr : r ∈ rows') : template r = id ∨ r ∈ rows := by
  by_cases hid : template r = id
  · exact .inl hid
  · refine .inr (List.mem_of_mem_filter (p := fun r => template r ≠ id) ?_)
    rw [← h]
    exact List.mem_filter.mpr ⟨hr, decide_eq_true hid⟩

theorem sound_of_onlyNamed {tmpl : TemplateRow} {patch : UpdateFields} (hs : s.Sound)
    (htmpl : s.template? id = some tmpl)
    (hvalid : (resultingTemplate tmpl (s.currentSelection id) patch).Valid)
    (hfits : (resultingTemplate tmpl (s.currentSelection id) patch).Fits s.rubric)
    (h : OnlyNamed patch id s s') (hnext : s.nextId ≤ s'.nextId) : s'.Sound := by
  -- The template is one that exists, so no identifier is new.
  have hmem : id ∈ s.ids :=
    id_of_template? htmpl ▸ List.mem_map_of_mem (List.mem_of_find?_eq_some htmpl)
  have hlt : id < s'.nextId := Nat.lt_of_lt_of_le (hs.ids_lt id hmem) hnext
  constructor
  · intro i hi
    rw [h.ids] at hi
    exact Nat.lt_of_lt_of_le (hs.ids_lt i hi) hnext
  · rw [h.ids]
    exact hs.ids_nodup
  · intro r hr
    rcases mem_of_others h.otherStacks hr with heq | hold
    · exact heq ▸ hlt
    · exact Nat.lt_of_lt_of_le (hs.stackRows_lt r hold) hnext
  · intro r hr
    rcases mem_of_others h.otherCompetencies hr with heq | hold
    · exact heq ▸ hlt
    · exact Nat.lt_of_lt_of_le (hs.competencyRows_lt r hold) hnext
  · intro i hi
    rw [h.rubric]
    rw [h.ids] at hi
    -- Its own selection has been checked, and the others are as before.
    by_cases hid : i = id
    · subst hid
      obtain ⟨hstacks, hcomps⟩ := h.currentSelection_self tmpl
      exact wellFormed_of_fields hvalid hfits hstacks hcomps
    · rw [h.others.currentSelection hid]
      exact hs.wellFormed i hi

/-- What a new template is stored as. -/
theorem created_of_ok {payload : PositionTemplateCreate kit} {createdBy : Option RowId}
    {read : PositionTemplateRead}
    (h : createPositionTemplate kit payload createdBy now s = .ok (read, s')) :
    payload.val.Fits s.rubric ∧ ∃ tmpl : TemplateRow, tmpl.id = s.nextId ∧
      s' = payload.val.competencyIds.foldl
        (Store.insertCompetency now s.nextId payload.val.mustHaveCompetencyIds)
        (payload.val.stackIds.foldl (Store.insertStack now s.nextId)
          { s with
            nextId := s.nextId + 1
            positionTemplate := s.positionTemplate ++ [tmpl] }) := by
  unfold createPositionTemplate at h
  simp only [bind_ok_iff, mapError_ok_iff] at h
  obtain ⟨⟨⟩, hfits, _, -, _, -, hpure⟩ := h
  cases hpure
  exact ⟨(validate_ok_iff kit _ _).mp hfits, _, rfl, rfl⟩

/-- Rows of a template that does not exist yet are nowhere. -/
theorem Store.Sound.currentSelection_next (hs : s.Sound) :
    s.stackIds s.nextId = [] ∧ s.competencies s.nextId = [] := by
  unfold Store.stackIds Store.competencies
  rw [List.map_eq_nil_iff, List.map_eq_nil_iff, List.filter_eq_nil_iff, List.filter_eq_nil_iff]
  constructor
  · intro r hr heq
    exact Nat.lt_irrefl _ (of_decide_eq_true heq ▸ hs.stackRows_lt r hr)
  · intro r hr heq
    exact Nat.lt_irrefl _ (of_decide_eq_true heq ▸ hs.competencyRows_lt r hr)

theorem sound_create {payload : PositionTemplateCreate kit} {createdBy : Option RowId}
    {read : PositionTemplateRead} (hs : s.Sound)
    (h : createPositionTemplate kit payload createdBy now s = .ok (read, s')) : s'.Sound := by
  obtain ⟨hfits, tmpl, htmpl, heq⟩ := created_of_ok kit h
  obtain ⟨hnoStacks, hnoComps⟩ := hs.currentSelection_next
  have hvalid := (check_create_iff kit _).mp payload.property
  set s₀ : Store :=
    { s with nextId := s.nextId + 1, positionTemplate := s.positionTemplate ++ [tmpl] } with hs₀
  set s₁ := payload.val.stackIds.foldl (Store.insertStack now s.nextId) s₀ with hs₁
  -- The tables, one after another: the new template is the only one that gets rows.
  have hrow : SameOthers s.nextId s s₀ := ⟨rfl, rfl⟩
  have hothers : SameOthers s.nextId s s' := by
    rw [heq]
    exact (hrow.trans (sameOthers_insertStacks _ s₀)).trans (sameOthers_insertCompetencies _ _ s₁)
  have hnext : s.nextId + 1 ≤ s'.nextId := by
    rw [heq]
    exact Nat.le_trans (nextId_le_insertStacks payload.val.stackIds s₀)
      (nextId_le_insertCompetencies _ _ s₁)
  have hids : s'.ids = s.ids ++ [s.nextId] := by
    rw [heq, insertCompetencies_keeps Store.ids (fun _ _ => rfl), hs₁,
      insertStacks_keeps Store.ids (fun _ _ => rfl), ← htmpl]
    exact List.map_append
  have hrubric : s'.rubric = s.rubric := by
    rw [heq, insertCompetencies_keeps Store.rubric (fun _ _ => rfl), hs₁,
      insertStacks_keeps Store.rubric (fun _ _ => rfl)]
  constructor
  · intro i hi
    rw [hids, List.mem_append, List.mem_singleton] at hi
    rcases hi with hold | rfl
    · exact Nat.lt_trans (hs.ids_lt i hold) hnext
    · exact hnext
  · rw [hids]
    refine List.nodup_append.mpr ⟨hs.ids_nodup, List.nodup_singleton _, ?_⟩
    rintro i hi j hj rfl
    exact Nat.lt_irrefl _ (List.mem_singleton.mp hj ▸ hs.ids_lt i hi)
  · intro r hr
    rcases mem_of_others hothers.stackRows hr with hnew | hold
    · exact hnew ▸ hnext
    · exact Nat.lt_trans (hs.stackRows_lt r hold) hnext
  · intro r hr
    rcases mem_of_others hothers.competencyRows hr with hnew | hold
    · exact hnew ▸ hnext
    · exact Nat.lt_trans (hs.competencyRows_lt r hold) hnext
  · intro i hi
    rw [hrubric]
    rw [hids, List.mem_append, List.mem_singleton] at hi
    by_cases hid : i = s.nextId
    · -- The new template selects what its request asked for.
      subst hid
      refine wellFormed_of_fields hvalid hfits ?_ ?_
      · change s'.stackIds s.nextId = _
        rw [heq, insertCompetencies_keeps (fun s => s.stackIds _) (fun _ _ => rfl), hs₁,
          Store.stackIds_insertStacks, if_pos rfl]
        exact (congrArg (· ++ _) hnoStacks).trans (List.nil_append _)
      · change (s'.competencies s.nextId).map Prod.fst = _
        rw [heq, Store.competencies_insertCompetencies, if_pos rfl, hs₁,
          insertStacks_keeps (fun s => s.competencies _) (fun _ _ => rfl), List.map_append,
          List.map_map]
        refine (congrArg (fun l => l.map Prod.fst ++ _) hnoComps).trans ?_
        exact List.map_id _
    · rw [hothers.currentSelection hid]
      exact hs.wellFormed i (hi.resolve_right hid)

theorem sound_update {patch : PositionTemplateUpdate kit} {read : Option PositionTemplateRead}
    (hs : s.Sound) (h : updatePositionTemplate kit id patch now s = .ok (read, s')) :
    s'.Sound := by
  rcases update_cases kit h with ⟨-, -, rfl⟩ | ⟨tmpl, htmpl, hvalid, hfits, rfl⟩
  · exact hs
  · exact sound_of_onlyNamed hs htmpl hvalid hfits (onlyNamed_of_apply htmpl hs.ids_nodup patch.val)
      (nextId_le_apply _ _ s)

/-- Archiving a template touches a column that no selection depends on. -/
theorem sound_archive (hs : s.Sound) : (archivePositionTemplate id now s).2.Sound := by
  unfold archivePositionTemplate
  cases s.template? id with
  | none => exact hs
  | some tmpl =>
      have hids : (s.positionTemplate.map (fun r =>
          if r.id = id then { r with archivedAt := r.archivedAt.or (some now) } else r)).map
            TemplateRow.id = s.ids := by
        rw [List.map_map]
        refine List.map_congr_left (fun r _ => ?_)
        change (if r.id = id then { r with archivedAt := r.archivedAt.or (some now) } else r).id
          = r.id
        split <;> rfl
      exact ⟨fun i hi => hs.ids_lt i (hids ▸ hi),
        Eq.subst (motive := List.Nodup) hids.symm hs.ids_nodup, hs.stackRows_lt,
        hs.competencyRows_lt, fun i hi => hs.wellFormed i (hids ▸ hi)⟩

theorem sound_grow (hs : s.Sound) (rubric : Rows) (users : List RowId) :
    ({ s with rubric := s.rubric ++ rubric, users := s.users ++ users } : Store).Sound :=
  { hs with wellFormed := fun i hi => (hs.wellFormed i hi).grow rubric }

/-- Every request keeps the invariant. -/
theorem sound_step {request : Request} {out : List Response} (hs : s.Sound)
    (h : Store.step kit s request = .ok (s', out)) : s'.Sound := by
  unfold Store.step at h
  cases request with
  | create body createdBy now =>
      dsimp only at h
      split at h
      · cases h
        exact hs
      · next payload _ =>
          split at h
          · cases h
            exact hs
          · next template s₁ hcreate =>
              cases h
              exact sound_create kit hs hcreate
  | update id body now =>
      dsimp only at h
      split at h
      · cases h
        exact hs
      · next patch _ =>
          split at h
          · cases h
            exact hs
          · next template s₁ hupdate =>
              cases h
              exact sound_update kit hs hupdate
  | archive id now =>
      cases h
      exact sound_archive hs
  | grow rubric users =>
      cases h
      exact sound_grow hs rubric users

theorem sound_of_run {ts : List (Taken Store Request Response)}
    (h : Run (Store.step kit) {} ts s) : s.Sound := by
  refine Run.invariant Store.Sound ?_ (fun a e b out hs hstep => sound_step kit hs hstep) h
  constructor <;> simp [Store.ids]

end Invariant

section Consistency
variable (kit : IdKit)

/-- In every run each stored template selects what it may; an update that is
    refused leaves the tables as they are, and one that gets through changes only
    what its fields name. -/
theorem templates_consistent {ts : List (Taken Store Request Response)} {s : Store}
    (h : Run (Store.step kit) {} ts s) :
    (∀ r ∈ s.positionTemplate, (s.currentSelection r.id).WellFormed s.rubric) ∧
      ∀ t ∈ ts, ∀ id body now, t.event = .update id body now →
        (∀ e, t.out = [.unprocessable e] → t.after = t.before) ∧
        (∀ read, t.out = [.ok read] → ∃ patch, readUpdate kit body = .ok patch ∧
          OnlyNamed patch.val id t.before t.after) := by
  refine ⟨fun r hr => (sound_of_run kit h).wellFormed r.id (List.mem_map_of_mem hr), ?_⟩
  intro t ht id body now hevent
  obtain ⟨us, -, hus, hstep⟩ := h.of_mem t ht
  have hsound := sound_of_run kit hus
  rw [hevent] at hstep
  generalize t.before = a, t.after = b, t.out = out at hstep hsound
  unfold Store.step at hstep
  dsimp only at hstep
  split at hstep
  · -- The schema refuses the body.
    cases hstep
    exact ⟨fun _ _ => rfl, fun _ hout => by cases hout⟩
  · next patch hpatch =>
      split at hstep
      · next f _ =>
          -- The service raises, and what it wrote is rolled back.
          cases hstep
          refine ⟨fun _ _ => rfl, fun _ hout => ?_⟩
          cases f <;> cases hout
      · next found? s₁ hupdate =>
          cases hstep
          rcases update_cases kit hupdate with ⟨-, rfl, rfl⟩ | ⟨tmpl, htmpl, -, -, rfl⟩
          · exact ⟨fun _ _ => rfl, fun _ hout => by cases hout⟩
          · refine ⟨fun _ hout => ?_, fun _ _ => ⟨patch, hpatch, ?_⟩⟩
            · cases found? <;> cases hout
            · exact onlyNamed_of_apply htmpl hsound.ids_nodup patch.val

/-- Identifiers below ten, read and shown as UUIDs. -/
def smallKit : IdKit where
  read
    | .str s => (List.range 10).find? (fun n => (Uuid.mk (BitVec.ofNat 128 n)).text = s)
    | _ => none
  text n := (Uuid.mk (BitVec.ofNat 128 n)).text

/-- Two stacks with one competency each. -/
def smallRubric : Rows where
  stack := [⟨1, 0, "python"⟩, ⟨2, 0, "react"⟩]
  competencyBlock := [⟨3, 0, 1, "Core", 0⟩, ⟨4, 0, 2, "Core", 0⟩]
  competency := [⟨5, 0, 3, "python.io"⟩, ⟨6, 0, 4, "react.hooks"⟩]

def idList (ids : List RowId) : Json := .arr (ids.map (fun n => .str (smallKit.text n)))

/-- A template is created, gets a second stack, must not lose the first one, and is
    archived. -/
def smallRequests : List Request :=
  [.grow smallRubric [],
    .create (.obj [("title", .str "Developer"), ("level", .str "Middle"),
      ("stack_ids", idList [1]), ("competency_ids", idList [5])]) none 0,
    .update 0 (.obj [("stack_ids", idList [1, 2]), ("competency_ids", idList [5, 6]),
      ("must_have_competency_ids", idList [6])]) 1,
    .update 0 (.obj [("stack_ids", idList [2])]) 2,
    .update 0 (.obj [("title", .str "")]) 3,
    .archive 0 4]

theorem templates_consistent_small :
    ∃ ts s, Run (Store.step smallKit) {} ts s ∧ ts.map Taken.event = smallRequests ∧
      ts.map (fun t => t.out.map Response.status) = [[], [201], [200], [422], [422], [200]] ∧
      s.currentSelection 0 = ⟨[1, 2], [5, 6], [6]⟩ ∧
      (∀ r ∈ s.positionTemplate, (s.currentSelection r.id).WellFormed s.rubric) ∧
      ∀ t ∈ ts, ∀ id body now, t.event = .update id body now →
        (∀ e, t.out = [.unprocessable e] → t.after = t.before) ∧
        (∀ read, t.out = [.ok read] → ∃ patch, readUpdate smallKit body = .ok patch ∧
          OnlyNamed patch.val id t.before t.after) := by
  obtain ⟨ts, s, hrun, hevents, hproj⟩ :=
    exists_run_of_events (Store.step smallKit) smallRequests {}
    (fun q => (q.1.map (fun t => t.out.map Response.status), q.2.currentSelection 0))
    ([[], [201], [200], [422], [422], [200]], ⟨[1, 2], [5, 6], [6]⟩) (by decide +kernel)
  obtain ⟨hall, hupdates⟩ := templates_consistent smallKit hrun
  exact ⟨ts, s, hrun, hevents, congrArg Prod.fst hproj, congrArg Prod.snd hproj, hall, hupdates⟩

end Consistency

end TechScreen.Positions
