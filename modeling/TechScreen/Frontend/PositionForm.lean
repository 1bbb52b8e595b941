import TechScreen.Lib.OrderedSet
import TechScreen.Lib.UuidText
import TechScreen.Rubric.Layers
import TechScreen.Services.TemplateConsistency

/-!
# The Position Form

The form in which a recruiter fills in a template. Its stacks and competencies
come from a snapshot of the active rubric that the browser fetched at some time;
a competency is on offer while its stack is selected, and a must-have while its
competency is. Deselecting a stack takes its competencies along, as far as the
snapshot knows whose they are. The form checks a little itself and leaves the
rest to the server.

Meanwhile the rubric is seeded, several versions may be active at once, other
managers edit templates, and a request that is under way arrives when it arrives.
None of this gets a request of the form refused: what the form has selected is
what some snapshot listed, a snapshot has all that the tables have under its
stacks, and neither ever changes.

## Main definitions

* `Page`: The state of the form.
* `Page.toggleStack`, `Page.toggleCompetency`, `Page.toggleMustHave`: Its boxes.
* `Page.validate`, `Page.payload`: What it checks and what it sends.
* `Desk`, `Desk.step`: The form, the browser's caches and the server.
* `Page.Fitting`, `Desk.Coherent`: The invariant.

## Theorems

* `owner_listed`: The form knows whose competency is whose.
* `coherent_step`: Every event keeps the invariant.
* `form_never_refused`: The requests of every run.
-/

namespace TechScreen.Positions

open Lib Rubric

section Texts

/-- What `trim` takes off: the white space and the line ends of the language. -/
def isTrimmed (c : Char) : Bool :=
  let n := c.toNat
  (9 ≤ n && n ≤ 13) || n == 32 || n == 0xA0 || n == 0x1680 || (0x2000 ≤ n && n ≤ 0x200A) ||
    n == 0x2028 || n == 0x2029 || n == 0x202F || n == 0x205F || n == 0x3000 || n == 0xFEFF

def trim (s : String) : String :=
  String.ofList ((s.toList.dropWhile isTrimmed).reverse.dropWhile isTrimmed).reverse

/-- The UTF-16 units of a character. -/
def utf16Units (c : Char) : Nat := if c.toNat < 0x10000 then 1 else 2

/-- The `length` of a string counts its units. -/
def utf16Length (s : String) : Nat := (s.toList.map utf16Units).sum

/-- A text has at least as many units as characters, and none if it is empty. -/
theorem length_le_utf16Length (s : String) : s.length ≤ utf16Length s := by
  unfold utf16Length
  rw [← String.length_toList]
  induction s.toList with
  | nil => exact Nat.le_refl _
  | cons c cs ih =>
      have hc : 1 ≤ utf16Units c := by
        unfold utf16Units
        split <;> omega
      rw [List.length_cons, List.map_cons, List.sum_cons]
      omega

theorem length_pos_of_utf16Length {s : String} (h : utf16Length s ≠ 0) : 1 ≤ s.length := by
  rw [← String.length_toList]
  cases hs : s.toList with
  | nil =>
      rw [utf16Length, hs] at h
      exact absurd rfl h
  | cons c cs => exact Nat.succ_pos _

def PositionLevel.text : PositionLevel → String
  | .junior => "Junior"
  | .middle => "Middle"
  | .senior => "Senior"
  | .techLeader => "Tech Leader"

end Texts

section Form

/-- The state of the form. `template` is the template that it edits, if any. -/
structure Page where
  template : Option RowId
  title : String := ""
  level : Option PositionLevel := none
  jdText : String := ""
  stackIds : OrderedSet RowId := .empty
  competencyIds : OrderedSet RowId := .empty
  mustHaveIds : OrderedSet RowId := .empty
  clientErrors : Dict String String := .empty

/-- `competencyToStack`. -/
def competencyToStack (rubric : RubricSnapshot) : Dict RowId RowId :=
  rubric.stackList.foldl (fun map stack =>
    stack.competencyBlocks.foldl (fun map block =>
      block.competencies.foldl (fun map comp => map.set comp.id stack.id) map) map) .empty

/-- The form over a template that has been read. -/
def Page.ofTemplate (template : PositionTemplateRead) : Page where
  template := some template.id
  title := template.title
  level := some template.level
  jdText := template.jdText.getD ""
  stackIds := .ofList template.stackIds
  competencyIds := .ofList (template.competencies.map Prod.fst)
  mustHaveIds := .ofList ((template.competencies.filter Prod.snd).map Prod.fst)

variable (rubric : RubricSnapshot) (p : Page)

/-- Deselecting a stack prunes the competencies that the snapshot has under it, and
    their must-have flags. -/
def Page.toggleStack (stackId : RowId) (checked : Bool) : Page :=
  if checked then { p with stackIds := p.stackIds.add stackId }
  else
    let owned (compId : RowId) := (competencyToStack rubric).get? compId == some stackId
    { p with
      stackIds := p.stackIds.delete stackId
      competencyIds := p.competencyIds.without owned
      mustHaveIds := p.mustHaveIds.without owned }

def Page.toggleCompetency (compId : RowId) (checked : Bool) : Page :=
  if checked then { p with competencyIds := p.competencyIds.add compId }
  else
    { p with
      competencyIds := p.competencyIds.delete compId
      mustHaveIds := p.mustHaveIds.delete compId }

def Page.toggleMustHave (compId : RowId) (checked : Bool) : Page :=
  { p with
    mustHaveIds := if checked then p.mustHaveIds.add compId else p.mustHaveIds.delete compId }

/-- The boxes that are on display. -/
def Page.offersStack (stackId : RowId) : Bool :=
  rubric.stackList.any (fun stack => stack.id == stackId)

def Page.offersCompetency (compId : RowId) : Bool :=
  (rubric.stackList.filter (fun stack => stack.id ∈ p.stackIds)).any
    (fun stack => stack.listed.contains compId)

def Page.offersMustHave (compId : RowId) : Bool :=
  p.offersCompetency rubric compId && decide (compId ∈ p.competencyIds)

/-- `if (c) errs[field] = message`. -/
def report (c : Bool) (field message : String) (errs : Dict String String) : Dict String String :=
  if c then errs.set field message else errs

def Page.validate : Dict String String :=
  let trimmed := trim p.title
  let errs := report (utf16Length trimmed == 0) "title" "Вкажіть назву позиції." .empty
  let errs := report (utf16Length trimmed != 0 && decide (200 < utf16Length trimmed)) "title"
    "Назва не може перевищувати 200 символів." errs
  let errs := report p.level.isNone "level" "Оберіть рівень." errs
  let errs := report (p.stackIds.size == 0) "stack_ids" "Оберіть хоча б один стек." errs
  let errs := report (p.competencyIds.size == 0) "competency_ids"
    "Оберіть хоча б одну компетенцію." errs
  report (p.mustHaveIds.entries.any (fun mustId => decide (mustId ∉ p.competencyIds)))
    "must_have_competency_ids" "Обовʼязкові компетенції мають бути серед обраних." errs

/-- What the form hands to `onSubmit`. -/
def Page.payload (level : PositionLevel) : CreateFields where
  title := trim p.title
  level := level
  jdText := if trim p.jdText = "" then none else some (trim p.jdText)
  stackIds := p.stackIds.entries
  competencyIds := p.competencyIds.entries
  mustHaveCompetencyIds := p.mustHaveIds.entries

/-- The body of the request, the same for a `POST` and for a `PATCH`. -/
def CreateFields.body (kit : IdKit) (f : CreateFields) : Json :=
  .obj [("title", .str f.title), ("level", .str f.level.text),
    ("jd_text", match f.jdText with
      | none => .null
      | some text => .str text),
    ("stack_ids", .arr (f.stackIds.map (fun id => .str (kit.text id)))),
    ("competency_ids", .arr (f.competencyIds.map (fun id => .str (kit.text id)))),
    ("must_have_competency_ids",
      .arr (f.mustHaveCompetencyIds.map (fun id => .str (kit.text id))))]

end Form

section Validation
variable {p : Page}

theorem report_eq_empty_iff (c : Bool) (field message : String) (errs : Dict String String) :
    report c field message errs = .empty ↔ c = false ∧ errs = .empty := by
  unfold report
  cases c with
  | false => exact ⟨fun h => ⟨rfl, h⟩, fun h => h.2⟩
  | true =>
      refine iff_of_false (fun h => ?_) (fun h => by cases h.1)
      have hget := Dict.get?_set_self errs field message
      rw [if_pos rfl] at h
      rw [h] at hget
      cases hget

/-- What a page has to be for the form to send it. -/
theorem validate_eq_empty_iff :
    p.validate = .empty ↔
      (utf16Length (trim p.title) ≠ 0 ∧ utf16Length (trim p.title) ≤ 200) ∧ p.level ≠ none ∧
        p.stackIds.entries ≠ [] ∧ p.competencyIds.entries ≠ [] ∧
        ∀ c ∈ p.mustHaveIds, c ∈ p.competencyIds := by
  unfold Page.validate
  simp only [report_eq_empty_iff, OrderedSet.size, List.any_eq_false, OrderedSet.mem_iff]
  constructor
  · rintro ⟨hmust, hcomps, hstacks, hlevel, hlong, hshort, -⟩
    have hne : utf16Length (trim p.title) ≠ 0 := by simpa using hshort
    refine ⟨⟨hne, by simpa [hne] using hlong⟩,
      Option.isSome_iff_ne_none.mp (by simpa using hlevel), ?_, ?_, fun c hc => ?_⟩
    · intro h
      simp [h] at hstacks
    · intro h
      simp [h] at hcomps
    · simpa using hmust c hc
  · rintro ⟨⟨hshort, hlong⟩, hlevel, hstacks, hcomps, hmust⟩
    refine ⟨fun c hc => by simpa using hmust c hc, by simpa using hcomps, by simpa using hstacks,
      by simpa using Option.isSome_iff_ne_none.mpr hlevel, ?_, by simpa using hshort, trivial⟩
    simp [hlong]

theorem get?_report_of_ne (c : Bool) {key field : String} (hne : key ≠ field) (message : String)
    (errs : Dict String String) : (report c field message errs).get? key = errs.get? key := by
  unfold report
  split
  · exact Dict.get?_set_of_ne errs field key message hne
  · rfl

theorem validate_mustHave (h : ∀ c ∈ p.mustHaveIds, c ∈ p.competencyIds) :
    p.validate.get? "must_have_competency_ids" = none := by
  have hmust : p.mustHaveIds.entries.any (fun mustId => decide (mustId ∉ p.competencyIds))
      = false := by
    rw [List.any_eq_false]
    exact fun c hc => by simpa using h c hc
  unfold Page.validate
  dsimp only
  rw [hmust, report, if_neg (by decide), get?_report_of_ne _ (by decide),
    get?_report_of_ne _ (by decide), get?_report_of_ne _ (by decide),
    get?_report_of_ne _ (by decide), get?_report_of_ne _ (by decide), Dict.get?_empty]

/-- What the form sends satisfies the schema. -/
theorem payload_valid {level : PositionLevel} (h : p.validate = .empty) :
    (p.payload level).Valid := by
  obtain ⟨⟨hne, hle⟩, -, hstacks, hcomps, hmust⟩ := validate_eq_empty_iff.mp h
  exact ⟨⟨length_pos_of_utf16Length hne, Nat.le_trans (length_le_utf16Length _) hle⟩, hstacks,
    p.stackIds.nodup, hcomps, p.competencyIds.nodup, p.mustHaveIds.nodup, hmust⟩

end Validation

section Owners
variable {collation : String → String → Bool} {t : Tables} {version : RowId}
  {rubric : RubricSnapshot}

/-- The pairs that `competencyToStack` writes, in turn. -/
def owners (rubric : RubricSnapshot) : List (RowId × RowId) :=
  rubric.stackList.flatMap (fun stack => stack.listed.map (fun compId => (compId, stack.id)))

theorem competencyToStack_eq (rubric : RubricSnapshot) :
    competencyToStack rubric = (owners rubric).foldl (fun map q => map.set q.1 q.2) .empty := by
  unfold competencyToStack owners SnapshotStack.listed
  simp only [List.foldl_flatMap, List.foldl_map]

theorem mem_owners_iff (compId stackId : RowId) :
    (compId, stackId) ∈ owners rubric ↔
      ∃ stack ∈ rubric.stackList, stack.id = stackId ∧ compId ∈ stack.listed := by
  unfold owners
  simp only [List.mem_flatMap, List.mem_map, Prod.mk.injEq]
  constructor
  · rintro ⟨stack, hstack, c, hc, rfl, rfl⟩
    exact ⟨stack, hstack, rfl, hc⟩
  · rintro ⟨stack, hstack, rfl, hc⟩
    exact ⟨stack, hstack, compId, hc, rfl, rfl⟩

/-- The form knows whose competency is whose: in the snapshot no other stack has
    it, so no later entry of the map replaces its own. -/
theorem owner_listed (ht : t.Layered) (h : snapshotRubric collation t version = .ok rubric)
    {stack : SnapshotStack} (hstack : stack ∈ rubric.stackList) {compId : RowId}
    (hc : t.rows.Under stack.id compId) :
    (competencyToStack rubric).get? compId = some stack.id := by
  have hmem : (compId, stack.id) ∈ (owners rubric).reverse :=
    List.mem_reverse.mpr ((mem_owners_iff compId stack.id).mpr
      ⟨stack, hstack, rfl, (mem_listed_iff ht h hstack compId).mpr hc⟩)
  rw [competencyToStack_eq, Dict.get?_foldl_set, Dict.get?_empty, Option.or_none]
  cases hlookup : (owners rubric).reverse.lookup compId with
  | none => simpa using List.lookup_eq_none_iff.mp hlookup _ hmem
  | some other =>
      obtain ⟨us, vs, heq, -⟩ := List.lookup_eq_some_iff.mp hlookup
      have hother : (compId, other) ∈ owners rubric := by
        rw [← List.mem_reverse, heq]
        exact List.mem_append_right us List.mem_cons_self
      obtain ⟨stack', hstack', rfl, hc'⟩ := (mem_owners_iff compId other).mp hother
      have hunder := (mem_listed_iff ht h hstack' compId).mp hc'
      rw [ht.keyed.under_unique hunder hc]

end Owners

section Fitting
variable {rows : Rows}

theorem belongsTo_iff (rows : Rows) (stackIds : List RowId) (c : RowId) :
    BelongsTo rows stackIds c ↔ ∃ s ∈ stackIds, rows.Under s c := by
  constructor
  · rintro ⟨row, hrow, hid, b, hb, hblock, hstack⟩
    exact ⟨b.stackId, hstack, row, hrow, hid, b, hb, hblock, rfl⟩
  · rintro ⟨_, hs, row, hrow, hid, b, hb, hblock, rfl⟩
    exact ⟨row, hrow, hid, b, hb, hblock, hs⟩

/-- What a page has selected exists and belongs together. -/
structure Page.Fitting (rows : Rows) (p : Page) : Prop where
  stackIds : ∀ s ∈ p.stackIds, ∃ r ∈ rows.stack, r.id = s
  competencyIds : ∀ c ∈ p.competencyIds, BelongsTo rows p.stackIds.entries c
  mustHave : ∀ c ∈ p.mustHaveIds, c ∈ p.competencyIds

theorem Page.Fitting.grow {p : Page} (h : p.Fitting rows) (more : Rows) :
    p.Fitting (rows ++ more) where
  stackIds s hs := (h.stackIds s hs).imp fun _ hr => ⟨List.mem_append_left _ hr.1, hr.2⟩
  competencyIds c hc := (h.competencyIds c hc).grow more
  mustHave := h.mustHave

theorem Page.Fitting.payload {p : Page} (h : p.Fitting rows) (level : PositionLevel) :
    (p.payload level).Fits rows := ⟨h.stackIds, h.competencyIds⟩

theorem CreateFields.Fits.grow {f : CreateFields} (h : f.Fits rows) (more : Rows) :
    f.Fits (rows ++ more) where
  stackIds_exist s hs := (h.stackIds_exist s hs).imp fun _ hr =>
    ⟨List.mem_append_left _ hr.1, hr.2⟩
  competencyIds_belong c hc := (h.competencyIds_belong c hc).grow more

variable {collation : String → String → Bool} {t : Tables} {version : RowId}
  {rubric : RubricSnapshot} {p : Page}

theorem BelongsTo.mono {stackIds stackIds' : List RowId} {c : RowId}
    (h : BelongsTo rows stackIds c) (hsub : ∀ s ∈ stackIds, s ∈ stackIds') :
    BelongsTo rows stackIds' c := by
  obtain ⟨row, hrow, hid, b, hb, hblock, hs⟩ := h
  exact ⟨row, hrow, hid, b, hb, hblock, hsub _ hs⟩

theorem fitting_toggleStack (ht : t.Layered) (h : snapshotRubric collation t version = .ok rubric)
    (hp : p.Fitting t.rows) {stackId : RowId} (hoffer : Page.offersStack rubric stackId = true)
    (checked : Bool) : (p.toggleStack rubric stackId checked).Fitting t.rows := by
  obtain ⟨stack, hstack, hid⟩ := List.any_eq_true.mp hoffer
  have hid : stack.id = stackId := eq_of_beq hid
  subst hid
  unfold Page.toggleStack
  cases checked with
  | true =>
      refine ⟨fun s hs => ?_, fun c hc => ?_, hp.mustHave⟩
      · rcases (OrderedSet.mem_add _ _ _).mp hs with rfl | hs
        · exact exists_stackRow h hstack
        · exact hp.stackIds s hs
      · exact (hp.competencyIds c hc).mono fun s hs => (OrderedSet.mem_add _ _ _).mpr (.inr hs)
  | false =>
      refine ⟨fun s hs => ?_, fun c hc => ?_, fun c hc => ?_⟩
      · exact hp.stackIds s ((OrderedSet.mem_delete _ _ _).mp hs).2
      · -- A competency that is left is not the deselected stack's.
        obtain ⟨hc, hown⟩ := (OrderedSet.mem_without _ _ _).mp hc
        obtain ⟨s, hs, hunder⟩ := (belongsTo_iff _ _ _).mp (hp.competencyIds c hc)
        refine (belongsTo_iff _ _ _).mpr ⟨s, ?_, hunder⟩
        refine (OrderedSet.mem_delete _ _ _).mpr ⟨fun heq => ?_, hs⟩
        rw [owner_listed ht h hstack (heq ▸ hunder)] at hown
        simp at hown
      · obtain ⟨hc, hown⟩ := (OrderedSet.mem_without _ _ _).mp hc
        exact (OrderedSet.mem_without _ _ _).mpr ⟨hp.mustHave c hc, hown⟩

theorem fitting_toggleCompetency (ht : t.Layered)
    (h : snapshotRubric collation t version = .ok rubric) (hp : p.Fitting t.rows)
    {compId : RowId} (hoffer : p.offersCompetency rubric compId = true) (checked : Bool) :
    (p.toggleCompetency compId checked).Fitting t.rows := by
  unfold Page.toggleCompetency
  cases checked with
  | true =>
      refine ⟨hp.stackIds, fun c hc => ?_, fun c hc => ?_⟩
      · rcases (OrderedSet.mem_add _ _ _).mp hc with rfl | hc
        · obtain ⟨stack, hstack, hlisted⟩ := List.any_eq_true.mp hoffer
          obtain ⟨hstack, hsel⟩ := List.mem_filter.mp hstack
          have hunder := (mem_listed_iff ht h hstack c).mp (by simpa using hlisted)
          exact (belongsTo_iff _ _ _).mpr ⟨stack.id, of_decide_eq_true hsel, hunder⟩
        · exact hp.competencyIds c hc
      · exact (OrderedSet.mem_add _ _ _).mpr (.inr (hp.mustHave c hc))
  | false =>
      refine ⟨hp.stackIds, fun c hc => ?_, fun c hc => ?_⟩
      · exact hp.competencyIds c ((OrderedSet.mem_delete _ _ _).mp hc).2
      · obtain ⟨hne, hc⟩ := (OrderedSet.mem_delete _ _ _).mp hc
        exact (OrderedSet.mem_delete _ _ _).mpr ⟨hne, hp.mustHave c hc⟩

theorem fitting_toggleMustHave (hp : p.Fitting rows) {compId : RowId}
    (hoffer : p.offersMustHave rubric compId = true) (checked : Bool) :
    (p.toggleMustHave compId checked).Fitting rows := by
  refine ⟨hp.stackIds, hp.competencyIds, fun c hc => ?_⟩
  unfold Page.toggleMustHave at hc
  cases checked with
  | true =>
      rcases (OrderedSet.mem_add _ _ _).mp hc with rfl | hc
      · exact of_decide_eq_true (Bool.and_eq_true_iff.mp hoffer).2
      · exact hp.mustHave c hc
  | false => exact hp.mustHave c ((OrderedSet.mem_delete _ _ _).mp hc).2

end Fitting

section Bodies
variable (kit : IdKit) {f : CreateFields}

/-- The identifiers that the fields name are read back. -/
def CreateFields.ReadBack (f : CreateFields) : Prop :=
  ∀ id ∈ f.stackIds ++ f.competencyIds ++ f.mustHaveCompetencyIds,
    kit.read (.str (kit.text id)) = some id

theorem asIds_texts (ids : List RowId)
    (h : ∀ id ∈ ids, kit.read (.str (kit.text id)) = some id) :
    asIds kit (.arr (ids.map (fun id => .str (kit.text id)))) = some ids := by
  change (ids.map (fun id => .str (kit.text id))).mapM kit.read = some ids
  induction ids with
  | nil => rfl
  | cons id rest ih =>
      rw [List.map_cons, List.mapM_cons, h id List.mem_cons_self,
        ih (fun i hi => h i (List.mem_cons_of_mem _ hi))]
      rfl

theorem asLevel_text (level : PositionLevel) : asLevel (.str level.text) = some level := by
  cases level <;> decide

/-- What a field that is given or null supplies. -/
def Supplied.given {α : Type} : Option α → Supplied α
  | none => .null
  | some a => .value a

@[simp] theorem Supplied.value?_given {α : Type} (a : Option α) : (given a).value? = a := by
  cases a <;> rfl

@[simp] theorem Supplied.isSet_given {α : Type} (a : Option α) : (given a).isSet = true := by
  cases a <;> rfl

/-- The fields of a body, one by one. -/
theorem body_fields (hread : f.ReadBack kit) :
    ((f.body kit).get? "title").bind asText = some f.title ∧
      ((f.body kit).get? "level").bind asLevel = some f.level ∧
      readSupplied asText (f.body kit) "jd_text" = some (.given f.jdText) ∧
      ((f.body kit).get? "stack_ids").bind (asIds kit) = some f.stackIds ∧
      ((f.body kit).get? "competency_ids").bind (asIds kit) = some f.competencyIds ∧
      ((f.body kit).get? "must_have_competency_ids").bind (asIds kit)
        = some f.mustHaveCompetencyIds ∧
      extraKeys (f.body kit) = [] := by
  have hstack := asIds_texts kit f.stackIds (fun id hid => hread id (by simp [hid]))
  have hcomp := asIds_texts kit f.competencyIds (fun id hid => hread id (by simp [hid]))
  have hmust := asIds_texts kit f.mustHaveCompetencyIds
    (fun id hid => hread id (by simp [hid]))
  refine ⟨rfl, asLevel_text f.level, ?_, hstack, hcomp, hmust, rfl⟩
  unfold CreateFields.body readSupplied
  cases f.jdText with
  | none => rfl
  | some text => rfl

theorem readCreate_body (hread : f.ReadBack kit) (hvalid : f.Valid) :
    ∃ payload, readCreate kit (f.body kit) = .ok payload ∧ payload.val = f := by
  refine ⟨⟨f, (check_create_iff kit f).mpr hvalid⟩, ?_, rfl⟩
  obtain ⟨htitle, hlevel, hjd, hstack, hcomp, hmust, hextra⟩ := body_fields kit hread
  have haccept := (accept_create_ok_iff kit f ⟨f, (check_create_iff kit f).mpr hvalid⟩).mpr rfl
  have hgiven : (f.body kit).get? "must_have_competency_ids"
      = some (.arr (f.mustHaveCompetencyIds.map (fun id => .str (kit.text id)))) := rfl
  rw [hgiven, Option.bind_some] at hmust
  have htitleOk : titleOk f.title = true := decide_eq_true hvalid.title
  have hstackNe : f.stackIds.isEmpty = false := List.isEmpty_eq_false_iff.mpr hvalid.stackIds_ne
  have hcompNe : f.competencyIds.isEmpty = false :=
    List.isEmpty_eq_false_iff.mpr hvalid.competencyIds_ne
  unfold readCreate
  simp only [htitle, hlevel, hjd, hstack, hcomp, hgiven, hmust, hextra, Option.any_some, htitleOk,
    hstackNe, hcompNe, Option.isSome_some, Bool.not_false, flagged, if_true, List.append_nil,
    Supplied.value?_given, haccept]

/-- The same fields as an update. -/
def CreateFields.asUpdate (f : CreateFields) : UpdateFields where
  title := .value f.title
  level := .value f.level
  jdText := .given f.jdText
  stackIds := .value f.stackIds
  competencyIds := .value f.competencyIds
  mustHaveCompetencyIds := .value f.mustHaveCompetencyIds

theorem check_asUpdate (hvalid : f.Valid) : f.asUpdate.check kit = .ok () := by
  unfold UpdateFields.check CreateFields.asUpdate
  simp only [andThen_ok_iff, rejectFields_ok_iff, rejectDuplicates_ok_iff, ifGiven,
    Supplied.value?, rejectUnselected_ok_iff, List.append_eq_nil_iff, flagged_eq_nil_iff,
    Option.all_some, Bool.not_eq_true', List.isEmpty_eq_false_iff]
  exact ⟨⟨⟨decide_eq_true hvalid.title, hvalid.stackIds_ne⟩, hvalid.competencyIds_ne⟩,
    hvalid.stackIds_nodup, hvalid.competencyIds_nodup, hvalid.mustHave_nodup,
    hvalid.mustHave_selected⟩

theorem accept_update_ok {u : UpdateFields} (h : u.check kit = .ok ()) :
    UpdateFields.accept kit u = .ok ⟨u, h⟩ := by
  unfold UpdateFields.accept
  split
  · next e he =>
      rw [h] at he
      cases he
  · rfl

theorem readSupplied_of_ne_null {α : Type} (read : Json → Option α) {body v : Json} {key : String}
    (h : body.get? key = some v) (hv : v ≠ .null) :
    readSupplied read body key = (read v).map .value := by
  unfold readSupplied
  rw [h]
  cases v with
  | null => exact absurd rfl hv
  | bool | int | float | str | arr | obj => rfl

theorem readUpdate_body (hread : f.ReadBack kit) (hvalid : f.Valid) :
    ∃ patch, readUpdate kit (f.body kit) = .ok patch ∧ patch.val = f.asUpdate := by
  refine ⟨⟨f.asUpdate, check_asUpdate kit hvalid⟩, ?_, rfl⟩
  obtain ⟨-, hlevel, hjd, hstack, hcomp, hmust, hextra⟩ := body_fields kit hread
  have haccept := accept_update_ok kit (check_asUpdate kit hvalid)
  -- A field that the form sends is never null, so it is set.
  have hids (ids : List RowId) : Json.arr (ids.map (fun id => .str (kit.text id))) ≠ .null :=
    fun h => by cases h
  have htitle' : readSupplied asText (f.body kit) "title" = some (.value f.title) :=
    readSupplied_of_ne_null asText (v := .str f.title) rfl (fun h => by cases h)
  have hlevel' : readSupplied asLevel (f.body kit) "level" = some (.value f.level) := by
    rw [readSupplied_of_ne_null asLevel (v := .str f.level.text) rfl (fun h => by cases h),
      asLevel_text]
    rfl
  have hstack' : readSupplied (asIds kit) (f.body kit) "stack_ids"
      = some (.value f.stackIds) := by
    rw [readSupplied_of_ne_null (asIds kit) rfl (hids f.stackIds)]
    exact congrArg (Option.map Supplied.value) hstack
  have hcomp' : readSupplied (asIds kit) (f.body kit) "competency_ids"
      = some (.value f.competencyIds) := by
    rw [readSupplied_of_ne_null (asIds kit) rfl (hids f.competencyIds)]
    exact congrArg (Option.map Supplied.value) hcomp
  have hmust' : readSupplied (asIds kit) (f.body kit) "must_have_competency_ids"
      = some (.value f.mustHaveCompetencyIds) := by
    rw [readSupplied_of_ne_null (asIds kit) rfl (hids f.mustHaveCompetencyIds)]
    exact congrArg (Option.map Supplied.value) hmust
  -- The checks of the schema are those that the form has made.
  have htitleOk : titleOk f.title = true := decide_eq_true hvalid.title
  have hstackNe : f.stackIds.isEmpty = false := List.isEmpty_eq_false_iff.mpr hvalid.stackIds_ne
  have hcompNe : f.competencyIds.isEmpty = false :=
    List.isEmpty_eq_false_iff.mpr hvalid.competencyIds_ne
  unfold readUpdate
  simp only [htitle', hlevel', hjd, hstack', hcomp', hmust', hextra, Option.any_some,
    Supplied.value?, Option.all_some, htitleOk, hstackNe, hcompNe, Option.isSome_some,
    Bool.not_false, flagged, if_true, List.append_nil]
  exact haccept

end Bodies

section Sending
variable (kit : IdKit) {s : Store} {f : CreateFields}

/-- Templates select stacks that exist. -/
def Store.Linked (s : Store) : Prop :=
  ∀ r ∈ s.positionTemplateStack, ∃ row ∈ s.rubric.stack, row.id = r.stackId

/-- A check that passes is not what a computation fails for. -/
theorem error_of_bind {ε α : Type} {e : ε} {c : Bool} {f : Unit → Except ε α} {e' : ε}
    (h : (raiseIf c e >>= f) = .error e') : e' = e ∨ f () = .error e' := by
  cases c with
  | true =>
      cases h
      exact .inl rfl
  | false => exact .inr h

variable {payload : PositionTemplateCreate kit} {createdBy : Option RowId} {now : Instant}

theorem create_error (hfits : payload.val.Fits s.rubric) {e : Failure}
    (h : createPositionTemplate kit payload createdBy now s = .error e) :
    e.response.status ≠ 422 := by
  unfold createPositionTemplate at h
  rw [(validate_ok_iff kit _ _).mpr hfits] at h
  rcases error_of_bind h with rfl | h
  · decide
  · rcases error_of_bind h with rfl | h
    · decide
    · cases h

theorem resulting_asUpdate (f : CreateFields) (tmpl : TemplateRow) (cur : Selection) :
    resultingTemplate tmpl cur f.asUpdate = f := by
  cases f with
  | mk title level jdText stackIds competencyIds mustHave =>
      cases jdText with
      | none => rfl
      | some text => rfl

/-- An update with all fields of a template that fits passes both checks. -/
theorem merge_asUpdate {rubric : Rows} (hvalid : f.Valid) (hfits : f.Fits rubric)
    {patch : PositionTemplateUpdate kit} (hpatch : patch.val = f.asUpdate) (tmpl : TemplateRow)
    (cur : Selection) : ∃ resulting, mergeUpdate kit rubric tmpl cur patch = .ok resulting := by
  have haccept := (accept_create_ok_iff kit f ⟨f, (check_create_iff kit f).mpr hvalid⟩).mpr rfl
  have hcheck := (validate_ok_iff kit rubric ⟨f, (check_create_iff kit f).mpr hvalid⟩).mpr hfits
  refine ⟨⟨f, (check_create_iff kit f).mpr hvalid⟩, ?_⟩
  unfold mergeUpdate
  rw [hpatch, resulting_asUpdate, haccept]
  change (validatePositionTemplate kit rubric _ >>= fun _ => _) = _
  rw [hcheck]
  rfl

theorem update_error {id : RowId} (hvalid : f.Valid) (hfits : f.Fits s.rubric)
    {patch : PositionTemplateUpdate kit} (hpatch : patch.val = f.asUpdate) {e : Failure}
    (h : updatePositionTemplate kit id patch now s = .error e) : e.response.status ≠ 422 := by
  unfold updatePositionTemplate at h
  split at h
  · cases h
  · next tmpl _ =>
      obtain ⟨resulting, hmerge⟩ := merge_asUpdate kit hvalid hfits hpatch tmpl
        (s.currentSelection id)
      rw [hmerge] at h
      rcases error_of_bind h with rfl | h
      · decide
      · cases h

/-- A request of the form that is under way, for a new template or for one that
    exists. -/
structure Submission where
  template : Option RowId
  fields : CreateFields

def Submission.request (u : Submission) (createdBy : Option RowId) (now : Instant) : Request :=
  match u.template with
  | none => .create (u.fields.body kit) createdBy now
  | some id => .update id (u.fields.body kit) now

/-- A request whose fields are valid and fit the rubric is not refused. -/
theorem not_refused {u : Submission} {s' : Store} {out : List Response}
    (hread : u.fields.ReadBack kit) (hvalid : u.fields.Valid) (hfits : u.fields.Fits s.rubric)
    (h : Store.step kit s (u.request kit createdBy now) = .ok (s', out)) :
    ∀ r ∈ out, r.status ≠ 422 := by
  unfold Submission.request at h
  cases htemplate : u.template with
  -- A new template: what fails now fails for the store, and not for the request.
  | none =>
      rw [htemplate] at h
      obtain ⟨payload, hpayload, hval⟩ := readCreate_body kit hread hvalid
      simp only [Store.step, hpayload] at h
      split at h
      · next e he =>
          cases h
          intro r hr
          rw [List.mem_singleton.mp hr]
          exact create_error kit (hval ▸ hfits) he
      · cases h
        intro r hr
        rw [List.mem_singleton.mp hr]
        exact fun h => by cases h
  -- An update: the same, and an id that is unknown is a 404.
  | some id =>
      rw [htemplate] at h
      obtain ⟨patch, hpatch, hval⟩ := readUpdate_body kit hread hvalid
      simp only [Store.step, hpatch] at h
      split at h
      · next e he =>
          cases h
          intro r hr
          rw [List.mem_singleton.mp hr]
          exact update_error kit hvalid hfits hval he
      · next read _ _ =>
          cases h
          intro r hr
          rw [List.mem_singleton.mp hr]
          cases read with
          | none => exact fun h => by cases h
          | some template => exact fun h => by cases h

end Sending

section Links
variable (kit : IdKit) {id : RowId} {now : Instant} {s s' : Store}

theorem linked_insertStacks (ids : List RowId) (hs : s.Linked)
    (hids : ∀ sid ∈ ids, ∃ row ∈ s.rubric.stack, row.id = sid) :
    (ids.foldl (Store.insertStack now id) s).Linked := by
  induction ids generalizing s with
  | nil => exact hs
  | cons sid rest ih =>
      refine ih (fun r hr => ?_) (fun i hi => hids i (List.mem_cons_of_mem _ hi))
      rcases List.mem_append.mp hr with hr | hr
      · exact hs r hr
      · rw [List.mem_singleton.mp hr]
        exact hids sid List.mem_cons_self

/-- What leaves the stack rows and the rubric alone keeps the links. -/
theorem Store.Linked.of_eq (hs : s.Linked)
    (hrows : s'.positionTemplateStack = s.positionTemplateStack) (hrubric : s'.rubric = s.rubric) :
    s'.Linked := by
  intro r hr
  rw [hrubric]
  exact hs r (hrows ▸ hr)

theorem linked_create {payload : PositionTemplateCreate kit} {createdBy : Option RowId}
    {read : PositionTemplateRead} (hs : s.Linked)
    (h : createPositionTemplate kit payload createdBy now s = .ok (read, s')) : s'.Linked := by
  obtain ⟨hfits, tmpl, -, rfl⟩ := created_of_ok kit h
  have hrow : Store.Linked
      { s with nextId := s.nextId + 1, positionTemplate := s.positionTemplate ++ [tmpl] } := hs
  have hstacks : Store.Linked (payload.val.stackIds.foldl (Store.insertStack now s.nextId) _) :=
    linked_insertStacks payload.val.stackIds hrow hfits.stackIds_exist
  exact hstacks.of_eq (insertCompetencies_keeps Store.positionTemplateStack (fun _ _ => rfl) _ _)
    (insertCompetencies_keeps Store.rubric (fun _ _ => rfl) _ _)

theorem linked_update {patch : PositionTemplateUpdate kit} {read : Option PositionTemplateRead}
    (hs : s.Linked) (h : updatePositionTemplate kit id patch now s = .ok (read, s')) :
    s'.Linked := by
  rcases update_cases kit h with ⟨-, -, rfl⟩ | ⟨tmpl, -, -, hfits, rfl⟩
  · exact hs
  · rw [applyUpdate_eq]
    generalize resultingTemplate tmpl (s.currentSelection id) patch.val = f at hfits
    have hstacks : (writeStacks id patch.val f now (s.setColumns id f)).Linked := by
      unfold writeStacks
      split
      · refine linked_insertStacks f.stackIds (fun r hr => ?_) hfits.stackIds_exist
        exact hs r (List.mem_of_mem_filter hr)
      · exact hs.of_eq rfl rfl
    exact hstacks.of_eq
      (writeCompetencies_keeps Store.positionTemplateStack _ _ (fun _ => rfl) (fun _ _ => rfl) _)
      (writeCompetencies_keeps Store.rubric _ _ (fun _ => rfl) (fun _ _ => rfl) _)

/-- Every request keeps the links. -/
theorem linked_step {request : Request} {out : List Response} (hs : s.Linked)
    (h : Store.step kit s request = .ok (s', out)) : s'.Linked := by
  unfold Store.step at h
  cases request with
  | create body createdBy now =>
      dsimp only at h
      split at h
      · cases h
        exact hs
      · split at h
        · cases h
          exact hs
        · next template s₁ hcreate =>
            cases h
            exact linked_create kit hs hcreate
  | update id body now =>
      dsimp only at h
      split at h
      · cases h
        exact hs
      · split at h
        · cases h
          exact hs
        · next template s₁ hupdate =>
            cases h
            exact linked_update kit hs hupdate
  -- Archiving touches one column of the template.
  | archive id now =>
      cases h
      split
      · exact hs
      · exact hs.of_eq rfl rfl
  -- Rows that are added leave the stacks that are linked.
  | grow rubric users =>
      cases h
      intro r hr
      obtain ⟨row, hrow, hid⟩ := hs r hr
      exact ⟨row, List.mem_append_left _ hrow, hid⟩

end Links

section Desks

/-- The server, with the rubric and the templates, and the browser: the data of its
    queries, the form that is open, and the requests under way. -/
structure Desk where
  seeds : Rubric.Store
  templates : Store := {}
  rubricData : Option RubricSnapshot := none
  rubricFailed : Bool := false
  detail : Option PositionTemplateRead := none
  page : Option Page := none
  inFlight : List Submission := []

/-- What happens at the server, and what the recruiter does. -/
inductive DeskEvent where
  | seed (c : SeedCall)
  | join (users : List RowId)
  | request (r : Request)
  | fetchRubric (version : RowId)
  | loseRubric
  | fetchDetail (id : RowId)
  | openNew
  | openEdit
  | setTitle (title : String)
  | setLevel (level : PositionLevel)
  | setJdText (jdText : String)
  | toggleStack (stackId : RowId) (checked : Bool)
  | toggleCompetency (compId : RowId) (checked : Bool)
  | toggleMustHave (compId : RowId) (checked : Bool)
  | submit
  | deliver (i : Nat) (createdBy : Option RowId) (now : Instant)

/-- There is nothing on display to do this with. -/
inductive NotOffered where
  | notOffered
  deriving DecidableEq

variable (toolkit : Toolkit) (collation : String → String → Bool) (kit : IdKit)

/-- Do something to the form, if it is open. -/
def Desk.edit (d : Desk) (f : Page → Page) : Except NotOffered (Desk × List Response) :=
  match d.page with
  | none => .error .notOffered
  | some p => .ok ({ d with page := some (f p) }, [])

/-- Click a box of the form, if it is on display. -/
def Desk.click (d : Desk) (offers : RubricSnapshot → Page → Bool)
    (f : RubricSnapshot → Page → Page) : Except NotOffered (Desk × List Response) :=
  match d.page, d.rubricData with
  | some p, some rubric =>
      if offers rubric p then .ok ({ d with page := some (f rubric p) }, [])
      else .error .notOffered
  | _, _ => .error .notOffered

/-- `handleSubmit`. The button is disabled when the rubric is not available. -/
def Desk.handleSubmit (d : Desk) : Except NotOffered (Desk × List Response) :=
  match d.page with
  | none => .error .notOffered
  | some p =>
      if d.rubricFailed || d.rubricData.isNone then .error .notOffered
      else
        let errs := p.validate
        let d := { d with page := some { p with clientErrors := errs } }
        match errs.entries, p.level with
        | [], some level =>
            .ok ({ d with inFlight := d.inFlight ++ [⟨p.template, p.payload level⟩] }, [])
        | _, _ => .ok (d, [])

def Desk.step : Step Desk DeskEvent Response NotOffered
  | d, .seed c =>
      match historyStep toolkit d.seeds c with
      | .error _ => .ok (d, [])
      | .ok (seeds, _) =>
          .ok ({ d with
            seeds := seeds
            templates := { d.templates with rubric := seeds.tables.rows } }, [])
  | d, .join users =>
      .ok ({ d with templates := { d.templates with users := d.templates.users ++ users } }, [])
  -- The rubric grows by seeds only.
  | _, .request (.grow _ _) => .error .notOffered
  | d, .request r =>
      match Store.step kit d.templates r with
      | .error e => nomatch e
      | .ok (templates, _) => .ok ({ d with templates := templates }, [])
  | d, .fetchRubric version =>
      if d.seeds.tables.versions.any (fun v => v.id == version && v.isActive) then
        match snapshotRubric collation d.seeds.tables version with
        | .error _ => .error .notOffered
        | .ok snapshot => .ok ({ d with rubricData := some snapshot, rubricFailed := false }, [])
      else .error .notOffered
  | d, .loseRubric => .ok ({ d with rubricFailed := true }, [])
  | d, .fetchDetail id =>
      .ok ({ d with detail := (d.templates.template? id).map d.templates.assembleRead }, [])
  | d, .openNew => .ok ({ d with page := some { template := none } }, [])
  | d, .openEdit =>
      match d.detail with
      | none => .error .notOffered
      | some template => .ok ({ d with page := some (.ofTemplate template) }, [])
  | d, .setTitle title => d.edit (fun p => { p with title := title })
  | d, .setLevel level => d.edit (fun p => { p with level := some level })
  | d, .setJdText jdText => d.edit (fun p => { p with jdText := jdText })
  | d, .toggleStack stackId checked =>
      d.click (fun rubric _ => Page.offersStack rubric stackId)
        (fun rubric p => p.toggleStack rubric stackId checked)
  | d, .toggleCompetency compId checked =>
      d.click (fun rubric p => p.offersCompetency rubric compId)
        (fun _ p => p.toggleCompetency compId checked)
  | d, .toggleMustHave compId checked =>
      d.click (fun rubric p => p.offersMustHave rubric compId)
        (fun _ p => p.toggleMustHave compId checked)
  | d, .submit => d.handleSubmit
  | d, .deliver i createdBy now =>
      match d.inFlight[i]? with
      | none => .error .notOffered
      | some u =>
          match Store.step kit d.templates (u.request kit createdBy now) with
          | .error e => nomatch e
          | .ok (templates, out) =>
              .ok ({ d with templates := templates, inFlight := d.inFlight.eraseIdx i }, out)

def Desk.start (clock : Instant) : Desk := { seeds := ⟨clock, {}⟩ }

end Desks

section Coherence
variable {toolkit : Toolkit} {collation : String → String → Bool} {kit : IdKit} {d d' : Desk}

/-- What a template that was read has selected exists and belongs together. -/
structure ReadFitting (rows : Rows) (template : PositionTemplateRead) : Prop where
  stackIds : ∀ s ∈ template.stackIds, ∃ r ∈ rows.stack, r.id = s
  competencyIds : ∀ c ∈ template.competencies.map Prod.fst, BelongsTo rows template.stackIds c

theorem ReadFitting.grow {rows : Rows} {template : PositionTemplateRead}
    (h : ReadFitting rows template) (more : Rows) : ReadFitting (rows ++ more) template where
  stackIds s hs := (h.stackIds s hs).imp fun _ hr => ⟨List.mem_append_left _ hr.1, hr.2⟩
  competencyIds c hc := (h.competencyIds c hc).grow more

theorem ReadFitting.page {rows : Rows} {template : PositionTemplateRead}
    (h : ReadFitting rows template) : (Page.ofTemplate template).Fitting rows where
  stackIds s hs := h.stackIds s ((OrderedSet.mem_ofList _ _).mp hs)
  competencyIds c hc := (h.competencyIds c ((OrderedSet.mem_ofList _ _).mp hc)).mono
    fun s hs => (OrderedSet.mem_ofList _ _).mpr hs
  mustHave c hc := by
    obtain ⟨q, hq, rfl⟩ := List.mem_map.mp ((OrderedSet.mem_ofList _ _).mp hc)
    exact (OrderedSet.mem_ofList _ _).mpr (List.mem_map_of_mem (List.mem_of_mem_filter hq))

theorem readFitting_assemble {s : Store} (hs : s.Sound) (hlinked : s.Linked) {tmpl : TemplateRow}
    (htmpl : tmpl ∈ s.positionTemplate) : ReadFitting s.rubric (s.assembleRead tmpl) where
  stackIds sid hsid := by
    obtain ⟨r, hr, rfl⟩ := List.mem_map.mp hsid
    exact hlinked r (List.mem_of_mem_filter hr)
  competencyIds := (hs.wellFormed tmpl.id (List.mem_map_of_mem htmpl)).belong

/-- The invariant: the server's tables are as their own runs leave them, and what
    the browser has, or has sent, fits the rubric. -/
structure Desk.Coherent (collation : String → String → Bool) (d : Desk) : Prop where
  tables : d.seeds.tables.Layered
  rubric : d.templates.rubric = d.seeds.tables.rows
  templates : d.templates.Sound
  linked : d.templates.Linked
  snapshot : ∀ rubric, d.rubricData = some rubric →
    ∃ version, snapshotRubric collation d.seeds.tables version = .ok rubric
  detail : ∀ template, d.detail = some template → ReadFitting d.seeds.tables.rows template
  page : ∀ p, d.page = some p → p.Fitting d.seeds.tables.rows
  inFlight : ∀ u ∈ d.inFlight, u.fields.Valid ∧ u.fields.Fits d.seeds.tables.rows

theorem coherent_start (collation : String → String → Bool) (clock : Instant) :
    (Desk.start clock).Coherent collation where
  tables := layered_empty
  rubric := rfl
  templates := by constructor <;> simp [Desk.start, Store.ids]
  linked := fun r hr => absurd hr List.not_mem_nil
  snapshot := fun _ h => by cases h
  detail := fun _ h => by cases h
  page := fun _ h => by cases h
  inFlight := fun _ h => absurd h List.not_mem_nil

/-- A seed adds rows, and takes nothing back. -/
theorem coherent_seed (h : d.Coherent collation) {c : SeedCall} {seeds : Rubric.Store}
    {out : List SeedResult} (hseed : historyStep toolkit d.seeds c = .ok (seeds, out)) :
    Desk.Coherent collation
      { d with seeds := seeds, templates := { d.templates with rubric := seeds.tables.rows } } := by
  obtain ⟨⟨more, hrows⟩, -⟩ := rows_step hseed
  -- Whatever was said of the rows is said of more rows now.
  have hgrown : seeds.tables.rows = d.templates.rubric ++ more := by rw [hrows, h.rubric]
  constructor
  · exact layered_step h.tables hseed
  · rfl
  · refine { h.templates with wellFormed := fun i hi => ?_ }
    change Selection.WellFormed seeds.tables.rows _
    rw [hgrown]
    exact (h.templates.wellFormed i hi).grow more
  · intro r hr
    obtain ⟨row, hrow, hid⟩ := h.linked r hr
    refine ⟨row, ?_, hid⟩
    change row ∈ seeds.tables.rows.stack
    rw [hgrown]
    exact List.mem_append_left _ hrow
  · -- The snapshot that the browser holds is still one of the tables.
    intro rubric hrubric
    obtain ⟨version, hsnap⟩ := h.snapshot rubric hrubric
    exact ⟨version, snapshot_step h.tables hseed hsnap⟩
  · intro template htemplate
    change ReadFitting seeds.tables.rows template
    rw [hrows]
    exact (h.detail template htemplate).grow more
  · intro p hp
    change p.Fitting seeds.tables.rows
    rw [hrows]
    exact (h.page p hp).grow more
  · intro u hu
    change u.fields.Valid ∧ u.fields.Fits seeds.tables.rows
    rw [hrows]
    exact ⟨(h.inFlight u hu).1, (h.inFlight u hu).2.grow more⟩

/-- Requests that do not touch the rubric leave the rest as it was. -/
theorem rubric_of_step {s s' : Store} {r : Request} {out : List Response}
    (hr : ∀ more users, r ≠ .grow more users) (h : Store.step kit s r = .ok (s', out)) :
    s'.rubric = s.rubric := by
  unfold Store.step at h
  cases r with
  -- The writes of a create are rows of the two link tables.
  | create body createdBy now =>
      dsimp only at h
      split at h
      · cases h
        rfl
      · split at h
        · cases h
          rfl
        · next hcreate =>
            cases h
            obtain ⟨-, tmpl, -, rfl⟩ := created_of_ok kit hcreate
            rw [insertCompetencies_keeps Store.rubric (fun _ _ => rfl),
              insertStacks_keeps Store.rubric (fun _ _ => rfl)]
  | update id body now =>
      dsimp only at h
      split at h
      · cases h
        rfl
      · split at h
        · cases h
          rfl
        · next hupdate =>
            cases h
            rcases update_cases kit hupdate with ⟨-, -, rfl⟩ | ⟨tmpl, -, -, -, rfl⟩
            · rfl
            · -- The writes of an update are deletions and insertions in the same tables.
              rw [applyUpdate_eq,
                writeCompetencies_keeps Store.rubric _ _ (fun _ => rfl) (fun _ _ => rfl),
                writeStacks_keeps Store.rubric _ _ (fun _ => rfl) (fun _ _ => rfl)]
              rfl
  | archive id now =>
      cases h
      split <;> rfl
  | grow more users => exact absurd rfl (hr more users)

theorem coherent_request (h : d.Coherent collation) {r : Request} {s : Store}
    {out : List Response} (hr : ∀ more users, r ≠ .grow more users)
    (hstep : Store.step kit d.templates r = .ok (s, out)) :
    Desk.Coherent collation { d with templates := s } :=
  { h with
    rubric := (rubric_of_step hr hstep).trans h.rubric
    templates := sound_step kit h.templates hstep
    linked := linked_step kit h.linked hstep }

theorem coherent_edit (h : d.Coherent collation) {f : Page → Page}
    (hf : ∀ p : Page, p.Fitting d.seeds.tables.rows → (f p).Fitting d.seeds.tables.rows)
    {out : List Response} (hstep : d.edit f = .ok (d', out)) : d'.Coherent collation := by
  unfold Desk.edit at hstep
  split at hstep
  · cases hstep
  · next p hp =>
      cases hstep
      refine { h with page := fun q hq => ?_ }
      cases hq
      exact hf p (h.page p hp)

theorem coherent_click (h : d.Coherent collation) {offers : RubricSnapshot → Page → Bool}
    {f : RubricSnapshot → Page → Page}
    (hf : ∀ rubric version p, snapshotRubric collation d.seeds.tables version = .ok rubric →
      offers rubric p = true → p.Fitting d.seeds.tables.rows →
      (f rubric p).Fitting d.seeds.tables.rows)
    {out : List Response} (hstep : d.click offers f = .ok (d', out)) : d'.Coherent collation := by
  unfold Desk.click at hstep
  split at hstep
  · next p rubric hp hrubric =>
      split at hstep
      · next hoffer =>
          cases hstep
          obtain ⟨version, hsnap⟩ := h.snapshot rubric hrubric
          refine { h with page := fun q hq => ?_ }
          cases hq
          exact hf rubric version p hsnap hoffer (h.page p hp)
      · cases hstep
  · cases hstep

theorem coherent_submit (h : d.Coherent collation) {out : List Response}
    (hstep : d.handleSubmit = .ok (d', out)) : d'.Coherent collation := by
  unfold Desk.handleSubmit at hstep
  split at hstep
  · cases hstep
  · next p hp =>
      split at hstep
      · cases hstep
      · have hfitting := h.page p hp
        have hpage : ∀ q : Page, some { p with clientErrors := p.validate } = some q →
            q.Fitting d.seeds.tables.rows := by
          intro q hq
          cases hq
          exact ⟨hfitting.stackIds, hfitting.competencyIds, hfitting.mustHave⟩
        dsimp only at hstep
        split at hstep
        · next level herrs _ =>
            cases hstep
            refine { h with page := hpage, inFlight := fun u hu => ?_ }
            rcases List.mem_append.mp hu with hu | hu
            · exact h.inFlight u hu
            · rw [List.mem_singleton.mp hu]
              exact ⟨payload_valid (Dict.ext_entries herrs), hfitting.payload level⟩
        · cases hstep
          exact { h with page := hpage }

theorem Submission.request_ne_grow (u : Submission) (createdBy : Option RowId) (now : Instant)
    (more : Rows) (users : List RowId) : u.request kit createdBy now ≠ .grow more users := by
  unfold Submission.request
  cases u.template with
  | none => exact fun h => by cases h
  | some id => exact fun h => by cases h

/-- Every event keeps the invariant. -/
theorem coherent_step (h : d.Coherent collation) {e : DeskEvent} {out : List Response}
    (hstep : d.step toolkit collation kit e = .ok (d', out)) : d'.Coherent collation := by
  unfold Desk.step at hstep
  split at hstep
  · -- A seed grows the rubric, on the server only.
    split at hstep
    · cases hstep
      exact h
    · next seeds _ hseed =>
        cases hstep
        exact coherent_seed h hseed
  · cases hstep
    exact { h with templates := { h.templates with } }
  · cases hstep
  · next r hr =>
      split at hstep
      · next e _ => exact nomatch e
      · next s _ hs =>
          cases hstep
          exact coherent_request h hr hs
  · -- The browser fetches what is the rubric now.
    next version =>
      split at hstep
      · split at hstep
        · cases hstep
        · next snapshot hsnap =>
            cases hstep
            refine { h with snapshot := fun rubric hrubric => ?_ }
            cases hrubric
            exact ⟨version, hsnap⟩
      · cases hstep
  · cases hstep
    exact { h with }
  · -- It fetches a template, which fits the rubric that it is stored with.
    next id =>
      cases hstep
      refine { h with detail := fun template htemplate => ?_ }
      obtain ⟨tmpl, htmpl, rfl⟩ := Option.map_eq_some_iff.mp htemplate
      have hfitting := readFitting_assemble h.templates h.linked (List.mem_of_find?_eq_some htmpl)
      rw [h.rubric] at hfitting
      exact hfitting
  · -- An empty form selects nothing.
    cases hstep
    refine { h with page := fun p hp => ?_ }
    cases hp
    constructor <;> exact fun _ hc => absurd hc List.not_mem_nil
  · split at hstep
    · cases hstep
    · next template htemplate =>
        cases hstep
        refine { h with page := fun p hp => ?_ }
        cases hp
        exact (h.detail template htemplate).page
  · -- The texts of the form are no selection.
    refine coherent_edit h (fun p hp => ?_) hstep
    exact ⟨hp.stackIds, hp.competencyIds, hp.mustHave⟩
  · refine coherent_edit h (fun p hp => ?_) hstep
    exact ⟨hp.stackIds, hp.competencyIds, hp.mustHave⟩
  · refine coherent_edit h (fun p hp => ?_) hstep
    exact ⟨hp.stackIds, hp.competencyIds, hp.mustHave⟩
  · -- A click offers only what the snapshot has.
    exact coherent_click h (fun rubric version p hsnap hoffer hp =>
      fitting_toggleStack h.tables hsnap hp hoffer _) hstep
  · exact coherent_click h (fun rubric version p hsnap hoffer hp =>
      fitting_toggleCompetency h.tables hsnap hp hoffer _) hstep
  · exact coherent_click h (fun rubric version p _ hoffer hp =>
      fitting_toggleMustHave hp hoffer _) hstep
  · -- What is sent has been validated.
    exact coherent_submit h hstep
  · split at hstep
    · cases hstep
    · next u _ =>
        split at hstep
        · next e _ => exact nomatch e
        · next s _ hs =>
            cases hstep
            have hrequest := coherent_request h (u.request_ne_grow _ _) hs
            exact { hrequest with
              inFlight := fun v hv => h.inFlight v (List.mem_of_mem_eraseIdx hv) }

end Coherence

section Requests
variable {toolkit : Toolkit} {collation : String → String → Bool} {kit : IdKit}

/-- The identifiers in fields that fit have been handed out. -/
theorem lt_of_fits {t : Tables} (ht : t.Layered) {f : CreateFields} (hvalid : f.Valid)
    (hfits : f.Fits t.rows) {id : RowId}
    (h : id ∈ f.stackIds ++ f.competencyIds ++ f.mustHaveCompetencyIds) : id < t.nextId := by
  have hcomp : ∀ c ∈ f.competencyIds, c < t.nextId := by
    intro c hc
    obtain ⟨row, hrow, rfl, -⟩ := hfits.competencyIds_belong c hc
    exact (ht.rows.below.competency row hrow).1.2
  rcases List.mem_append.mp h with h | h
  · rcases List.mem_append.mp h with h | h
    · obtain ⟨row, hrow, rfl⟩ := hfits.stackIds_exist id h
      exact (ht.rows.below.stack row hrow).2
    · exact hcomp id h
  · exact hcomp id (hvalid.mustHave_selected id h)

theorem coherent_of_run {clock : Instant} {ts : List (Taken Desk DeskEvent Response)} {d : Desk}
    (h : Run (Desk.step toolkit collation kit) (Desk.start clock) ts d) :
    d.Coherent collation :=
  Run.invariant (Desk.Coherent collation) (coherent_start collation clock)
    (fun _ _ _ _ hs hstep => coherent_step hs hstep) h

/-- Whatever is seeded, edited by others, fetched and clicked, and whenever a request
    arrives: no request of the form is refused as unprocessable, and the form never
    has a must-have to complain about. -/
theorem form_never_refused {clock : Instant} {ts : List (Taken Desk DeskEvent Response)}
    {d : Desk} (hrun : Run (Desk.step toolkit collation kit) (Desk.start clock) ts d)
    (hkit : ∀ t ∈ ts, ∀ id < t.before.seeds.tables.nextId,
      kit.read (.str (kit.text id)) = some id) :
    (∀ p, d.page = some p → p.validate.get? "must_have_competency_ids" = none) ∧
      ∀ t ∈ ts, ∀ i createdBy now, t.event = .deliver i createdBy now →
        ∀ r ∈ t.out, r.status ≠ 422 := by
  refine ⟨fun p hp => ?_, fun t ht i createdBy now hevent => ?_⟩
  · exact validate_mustHave ((coherent_of_run hrun).page p hp).mustHave
  · obtain ⟨us, -, hus, hstep⟩ := hrun.of_mem t ht
    have hcoherent := coherent_of_run hus
    rw [hevent] at hstep
    simp only [Desk.step] at hstep
    split at hstep
    · cases hstep
    · next u hu =>
        split at hstep
        · next e _ => exact nomatch e
        · next s out hs =>
            obtain ⟨hvalid, hfits⟩ := hcoherent.inFlight u (List.mem_of_getElem? hu)
            have hout : out = t.out := congrArg Prod.snd (Except.ok.inj hstep)
            refine hout ▸ not_refused kit (fun id hid => ?_) hvalid (hcoherent.rubric ▸ hfits) hs
            exact hkit t ht id (lt_of_fits hcoherent.tables hvalid hfits hid)

/-- Identifiers as UUIDs. -/
def uuidKit : IdKit where
  read
    | .str s => (Uuid.ofText? s).map (fun u => u.bits.toNat)
    | _ => none
  text n := (Uuid.mk (BitVec.ofNat 128 n)).text

theorem uuidKit_read {n : RowId} (h : n < 2 ^ 128) :
    uuidKit.read (.str (uuidKit.text n)) = some n := by
  have hread := (Uuid.ofText?_eq_some_iff (Uuid.mk (BitVec.ofNat 128 n)).text _).mpr rfl
  simp only [uuidKit, hread, Option.map_some, BitVec.toNat_ofNat, Nat.mod_eq_of_lt h]

/-- A template is created from one version of the rubric while another one is
    seeded, and then moved to the other one. -/
def smallClicks : List DeskEvent :=
  [.seed ⟨sampleDir "D", false, 0⟩, .fetchRubric 0, .openNew, .setTitle " Dev ", .setLevel .middle,
    .toggleStack 1 true, .toggleCompetency 3 true, .toggleMustHave 3 true, .submit,
    .seed ⟨sampleDir "E", false, 0⟩, .deliver 0 none 0, .fetchDetail 0, .openEdit,
    .toggleStack 1 false, .submit, .fetchRubric 6, .toggleStack 7 true, .toggleCompetency 9 true,
    .submit, .deliver 0 none 1]

theorem form_never_refused_small :
    ∃ ts d, Run (Desk.step sampleKit (fun a b => decide (a ≤ b)) uuidKit) (Desk.start 0) ts d ∧
      ts.map Taken.event = smallClicks ∧ (outputs ts).map Response.status = [201, 200] ∧
      d.templates.currentSelection 0 = ⟨[7], [9], []⟩ ∧
      (∀ p, d.page = some p → p.validate.get? "must_have_competency_ids" = none) ∧
      ∀ t ∈ ts, ∀ i createdBy now, t.event = .deliver i createdBy now →
        ∀ r ∈ t.out, r.status ≠ 422 := by
  obtain ⟨ts, d, hrun, hevents, hproj⟩ :=
    exists_run_of_events (Desk.step sampleKit (fun a b => decide (a ≤ b)) uuidKit) smallClicks
    (Desk.start 0)
    (fun q => (q.1.all (fun t => decide (t.before.seeds.tables.nextId ≤ 12)),
      (outputs q.1).map Response.status, q.2.templates.currentSelection 0))
    (true, [201, 200], ⟨[7], [9], []⟩) (by decide +kernel)
  have hshown := Prod.mk.inj hproj
  have hrest := Prod.mk.inj hshown.2
  refine ⟨ts, d, hrun, hevents, hrest.1, hrest.2,
    form_never_refused hrun (fun t ht n hn => uuidKit_read ?_)⟩
  have hle : t.before.seeds.tables.nextId ≤ 12 :=
    of_decide_eq_true (List.all_eq_true.mp hshown.1 t ht)
  exact Nat.lt_of_lt_of_le (Nat.lt_of_lt_of_le hn hle) (by decide)

end Requests

end TechScreen.Positions
