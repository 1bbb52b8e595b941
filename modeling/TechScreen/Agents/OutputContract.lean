import TechScreen.Agents.OutputModels
import TechScreen.Lib.UuidText
import TechScreen.Llm.Ledgers

/-!
# Output Contracts

An answer of a model passes two checks before an agent hands it on: the wrapper's
own structural check against the schema that is committed beside the prompt, and
the output model of the agent. Neither is the schema. The structural check knows
kinds, required fields and closed records, and passes over bounds, enumerations
and unions of kinds; the output model has the bounds, and would coerce what it
is given.

Together they are the schema. For the interviewer they accept exactly the
documents that are valid under the committed contract. For the assessor they
accept those among them whose levels are written as integers and whose
identifiers the validation library can read, since a float is no integer to the
structural check, and the contract leaves the spelling of identifiers open.

What a validation library coerces does not matter: the structural check has
settled the kind of every scalar before a reader sees it, but for the fields
that may be null. About these and about numbers the library has to keep its word:
it reads strings out of strings only, and an integer as the nearest float.

## Main definitions

* `Agrees`: A check and a reader accept what a schema admits.
* `KeepsKinds`: What the library has to keep to.
* `accepts`: The two checks of an answer.
* `uuidFormat`: The format that the schema of the assessor names.

## Theorems

* `agrees_record`, `agrees_array`: Agreement is put together from its parts.
* `interviewer_contract`: What the interviewer hands on.
* `answers_follow_contracts`: What the checks of both agents accept.
-/

namespace TechScreen.Agents

open Lib Llm

section Structure
variable (rt : Runtime)

theorem seq_ok_iff {x y : Except Miss Unit} :
    (x >>= fun _ => y) = .ok () ↔ x = .ok () ∧ y = .ok () := by
  cases x with
  | error e => simp only [bind, Except.bind, reduceCtorEq, false_and]
  | ok u => simp only [bind, Except.bind, true_and]

theorem forM_ok_iff {α : Type} (check : α → Except Miss Unit) (items : List α) :
    forM items check = .ok () ↔ ∀ item ∈ items, check item = .ok () := by
  induction items with
  | nil =>
      simp only [List.forM_nil, List.not_mem_nil, false_implies, implies_true, pure, Except.pure]
  | cons item rest ih => rw [List.forM_cons, seq_ok_iff, ih, List.forall_mem_cons]

theorem validateProperties_iff {properties fields : Fields} {path : String} :
    validateProperties rt properties fields path = .ok () ↔
      ∀ p ∈ properties, ∀ sub, p.2 = .obj sub → ∀ value, fields.lookup p.1 = some value →
        validateAgainstSchema rt sub value (path ++ "." ++ p.1) = .ok () := by
  induction properties with
  | nil =>
      unfold validateProperties
      simp only [List.not_mem_nil, false_implies, implies_true]
  | cons p rest ih =>
      obtain ⟨key, schema⟩ := p
      unfold validateProperties
      rw [seq_ok_iff, ih, List.forall_mem_cons]
      refine and_congr_left fun _ => ?_
      dsimp only
      split
      · next value sub hv =>
          simp only [hv, Json.obj.injEq, Option.some.injEq, forall_eq']
      · next hnone =>
          refine ⟨fun _ sub hsub value hv => ?_, fun _ => rfl⟩
          exact (hnone value sub hv hsub).elim

/-- The structural check of a closed record. -/
theorem validate_objectSchema_iff {header properties : Fields} {required : List String}
    (hheader : ∀ p ∈ header, p.1 ∈ annotations) (doc : Json) (path : String) :
    validateAgainstSchema rt (objectSchema header required properties) doc path = .ok () ↔
      ∃ fields, doc = .obj fields ∧ (∀ key ∈ required, (fields.lookup key).isSome) ∧
        (∀ p ∈ fields, p.1 ∈ properties.map Prod.fst) ∧
        ∀ p ∈ properties, ∀ sub, p.2 = .obj sub → ∀ value, fields.lookup p.1 = some value →
          validateAgainstSchema rt sub value (path ++ "." ++ p.1) = .ok () := by
  have htype : (objectSchema header required properties).lookup "type" = some (.str "object") :=
    lookup_objectSchema hheader (by decide)
  have hclosed : (objectSchema header required properties).lookup "additionalProperties"
      = some (.bool false) := lookup_objectSchema hheader (by decide)
  have hrequired : requiredKeys (objectSchema header required properties)
      = .ok (required.map Json.str) := by
    have hlookup : (objectSchema header required properties).lookup "required"
        = some (.arr (required.map Json.str)) := lookup_objectSchema hheader (by decide)
    rw [requiredKeys, given, hlookup]
    cases required with
    | nil => rfl
    | cons key rest => rfl
  have hgiven : given (objectSchema header required properties) "properties"
      = if properties = [] then none else some (.obj properties) := by
    have hlookup : (objectSchema header required properties).lookup "properties"
        = some (.obj properties) := lookup_objectSchema hheader (by decide)
    rw [given, hlookup]
    cases properties with
    | nil => rfl
    | cons p rest => rfl
  have hproperties : ∀ method, propertiesOf (objectSchema header required properties) method
      = .ok properties := by
    intro method
    rw [propertiesOf, hgiven]
    cases properties with
    | nil => rfl
    | cons p rest => rfl
  rw [validateAgainstSchema.eq_def, htype]
  cases doc with
  | null | bool | int | float | str | arr =>
      simp only [expected, reduceCtorEq, false_and, exists_false]
  | obj fields =>
      simp only [Json.obj.injEq, exists_eq_left']
      rw [hrequired]
      change (forM (required.map Json.str) (checkRequired rt fields path) >>= fun _ =>
        checkExtras rt (objectSchema header required properties) fields path >>= fun _ => _)
          = .ok () ↔ _
      rw [seq_ok_iff, seq_ok_iff, forM_ok_iff]
      refine and_congr ?_ (and_congr ?_ ?_)
      · -- Each required key is a string, and is looked up.
        simp only [List.mem_map, forall_exists_index, and_imp, forall_apply_eq_imp_iff₂,
          checkRequired]
        refine forall₂_congr fun key _ => ?_
        split
        · next h => exact iff_of_true rfl h
        · next h => exact iff_of_false (fun hc => by cases hc) h
      · rw [checkExtras, hclosed]
        simp only [hproperties, bind, Except.bind]
        split
        · next h =>
            refine iff_of_true rfl fun p hp => ?_
            by_contra hout
            rw [List.isEmpty_iff, List.filter_eq_nil_iff] at h
            exact h p.1 (List.mem_map_of_mem hp) (by simpa using hout)
        · next h =>
            refine iff_of_false (fun hc => by cases hc) fun hall => h ?_
            rw [List.isEmpty_iff, List.filter_eq_nil_iff]
            intro key hkey
            obtain ⟨p, hp, rfl⟩ := List.mem_map.mp hkey
            simpa using hall p hp
      · split
        · next declared hdeclared =>
            rw [hgiven] at hdeclared
            split at hdeclared
            · cases hdeclared
            · cases hdeclared
              exact validateProperties_iff rt
        · next hnone =>
            -- Without properties there is nothing to check.
            by_cases hempty : properties = []
            · subst hempty
              rw [hproperties]
              exact iff_of_true rfl (fun p hp => absurd hp List.not_mem_nil)
            · exact (hnone properties (by rw [hgiven, if_neg hempty])).elim

end Structure

section Agreement
variable {rt : Runtime} {α : Type}

/-- `format` is an annotation: no spelling is asserted. -/
def unasserted (_ _ : String) : Bool := true

/-- The structural check and a reader together accept what a schema admits,
    apart from what `plain` rules out. -/
def Agrees (rt : Runtime) (schema : Fields) (reads plain : Json → Prop) : Prop :=
  ∀ path doc, (validateAgainstSchema rt schema doc path = .ok () ∧ reads doc) ↔
    ((Json.obj schema).valid unasserted doc = true ∧ plain doc)

/-- A closed record agrees where its fields do. -/
theorem agrees_record (readsField plainField : String → Json → Prop)
    {header properties : Fields} {required : List String} {reads : Json → Prop}
    (hheader : ∀ p ∈ header, p.1 ∈ annotations)
    (hfield : ∀ p ∈ properties, ∃ sub, p.2 = .obj sub ∧
      Agrees rt sub (readsField p.1) (plainField p.1))
    (hreads : ∀ fields, (∀ key ∈ required, (fields.lookup key).isSome) →
      (∀ p ∈ fields, p.1 ∈ properties.map Prod.fst) →
      (reads (.obj fields) ↔ ∀ p ∈ properties, ∀ value, fields.lookup p.1 = some value →
        readsField p.1 value)) :
    Agrees rt (objectSchema header required properties) reads
      (fun doc => ∀ p ∈ properties, ∀ value, doc.fields.lookup p.1 = some value →
        plainField p.1 value) := by
  intro path doc
  rw [validate_objectSchema_iff rt hheader, valid_objectSchema_iff unasserted hheader]
  constructor
  · rintro ⟨⟨fields, rfl, hrequired, hdeclared, hchecked⟩, hread⟩
    -- What is accepted: each field has been checked and read.
    have hfields := (hreads fields hrequired hdeclared).mp hread
    have hboth : ∀ p ∈ properties, ∀ value, fields.lookup p.1 = some value →
        p.2.valid unasserted value = true ∧ plainField p.1 value := by
      intro p hp value hvalue
      obtain ⟨sub, hsub, hagrees⟩ := hfield p hp
      rw [hsub]
      exact (hagrees _ value).mp ⟨hchecked p hp sub hsub value hvalue, hfields p hp value hvalue⟩
    exact ⟨⟨fields, rfl, hrequired, hdeclared, fun p hp value hvalue =>
      (hboth p hp value hvalue).1⟩, fun p hp value hvalue => (hboth p hp value hvalue).2⟩
  · rintro ⟨⟨fields, rfl, hrequired, hdeclared, hvalid⟩, hplain⟩
    -- What is valid: each field agrees by itself.
    have hboth : ∀ p ∈ properties, ∀ sub, p.2 = .obj sub → ∀ value,
        fields.lookup p.1 = some value →
        validateAgainstSchema rt sub value (path ++ "." ++ p.1) = .ok () ∧
          readsField p.1 value := by
      intro p hp sub hsub value hvalue
      obtain ⟨sub', hsub', hagrees⟩ := hfield p hp
      cases hsub.symm.trans hsub'
      exact (hagrees _ value).mpr ⟨hsub ▸ hvalid p hp value hvalue, hplain p hp value hvalue⟩
    refine ⟨⟨fields, rfl, hrequired, hdeclared, fun p hp sub hsub value hvalue =>
      (hboth p hp sub hsub value hvalue).1⟩, (hreads fields hrequired hdeclared).mpr ?_⟩
    intro p hp value hvalue
    obtain ⟨sub, hsub, _⟩ := hfield p hp
    exact (hboth p hp sub hsub value hvalue).2

theorem agrees_elements {items : Fields} {reads plain : Json → Prop}
    (h : Agrees rt items reads plain) (elements : List Json) (idx : Nat) (path : String) :
    (validateElements rt items elements idx path = .ok () ∧ ∀ e ∈ elements, reads e) ↔
      (∀ e ∈ elements, (Json.obj items).valid unasserted e = true) ∧ ∀ e ∈ elements, plain e := by
  induction elements generalizing idx with
  | nil =>
      unfold validateElements
      simp only [List.not_mem_nil, false_implies, implies_true, and_self]
  | cons e rest ih =>
      unfold validateElements
      have hhead := h (path ++ "[" ++ toString idx ++ "]") e
      have hrest := ih (idx + 1)
      rw [seq_ok_iff]
      simp only [List.forall_mem_cons]
      tauto

/-- A list agrees where its elements do. -/
theorem agrees_array {items : Fields} {minItems : Option Nat} {readsItem plain : Json → Prop}
    {reads : Json → Prop} (h : Agrees rt items readsItem plain)
    (hreads : ∀ elements, reads (.arr elements) ↔
      minItems.getD 0 ≤ elements.length ∧ ∀ e ∈ elements, readsItem e) :
    Agrees rt (arraySchema items minItems) reads (fun doc => ∀ e ∈ doc.elements, plain e) := by
  intro path doc
  have htype : (arraySchema items minItems).lookup "type" = some (.str "array") := rfl
  have hitems : (arraySchema items minItems).lookup "items" = some (.obj items) := rfl
  rw [valid_arraySchema_iff, validateAgainstSchema.eq_def, htype]
  cases doc with
  | arr elements =>
      have hall := agrees_elements h elements 0 path
      simp only [Json.arr.injEq, exists_eq_left', Json.elements, hreads]
      split
      · next declared hdeclared =>
          cases hdeclared.symm.trans hitems
          tauto
      · next hnone => exact (hnone items hitems).elim
  | null | bool | int | float | str | obj =>
      simp only [expected, reduceCtorEq, false_and, exists_false]

/-- A string agrees where its bounds do: the structural check has settled that it
    is a string. -/
theorem agrees_string {keywords : Fields} {reads : Json → Prop}
    (h : ∀ s, reads (.str s) ↔ ∀ p ∈ keywords,
      holds unasserted (("type", .str "string") :: keywords) p.1 p.2 (.str s) = true) :
    Agrees rt (("type", .str "string") :: keywords) reads (fun _ => True) := by
  intro path doc
  have htype : List.lookup "type" (("type", Json.str "string") :: keywords)
      = some (.str "string") := rfl
  rw [valid_obj_iff, validateAgainstSchema.eq_def, htype, List.forall_mem_cons]
  cases doc with
  | str s =>
      have hstring : holds unasserted (("type", .str "string") :: keywords) "type"
        (.str "string") (.str s) = true := rfl
      simp only [h, hstring, true_and, and_true]
  | null | bool | int | float | arr | obj =>
      refine iff_of_false (fun hc => by cases hc.1) (fun hc => Bool.noConfusion hc.1.1)

/-- A field that may be null is passed over by the structural check, and agrees
    if its reader takes strings and null only. -/
theorem agrees_nullable {keywords : Fields} {reads : Json → Prop}
    (hkinds : ∀ doc, reads doc → doc = .null ∨ ∃ s, doc = .str s)
    (h : ∀ doc, (doc = .null ∨ ∃ s, doc = .str s) → (reads doc ↔ ∀ p ∈ keywords,
      holds unasserted (("type", .arr [.str "string", .str "null"]) :: keywords) p.1 p.2 doc
        = true)) :
    Agrees rt (("type", .arr [.str "string", .str "null"]) :: keywords) reads (fun _ => True) := by
  intro path doc
  have htype : List.lookup "type" (("type", Json.arr [.str "string", .str "null"]) :: keywords)
      = some (.arr [.str "string", .str "null"]) := rfl
  rw [valid_obj_iff, validateAgainstSchema.eq_def, htype, List.forall_mem_cons]
  have hkind : holds unasserted (("type", .arr [.str "string", .str "null"]) :: keywords) "type"
      (.arr [.str "string", .str "null"]) doc = true ↔ (doc = .null ∨ ∃ s, doc = .str s) := by
    cases doc <;> simp [holds, assertion, isOfType]
  rw [hkind]
  constructor
  · rintro ⟨_, hread⟩
    have hk := hkinds doc hread
    exact ⟨⟨hk, (h doc hk).mp hread⟩, trivial⟩
  · rintro ⟨⟨hk, hall⟩, _⟩
    exact ⟨rfl, (h doc hk).mpr hall⟩

end Agreement

section Scalar
variable {rt : Runtime}

theorem Agrees.congr {schema : Fields} {reads reads' plain plain' : Json → Prop}
    (h : Agrees rt schema reads plain) (hreads : ∀ doc, reads doc ↔ reads' doc)
    (hplain : ∀ doc, plain doc ↔ plain' doc) : Agrees rt schema reads' plain' := by
  intro path doc
  rw [← hreads, ← hplain]
  exact h path doc

/-- A word of a vocabulary. -/
theorem agrees_literal {α : Type} (name : α → String) (table : List (String × α))
    (hname : ∀ a, table.lookup (name a) = some a) {words : List Json}
    (hwords : table.map (fun p => Json.str p.1) = words) (tail : Fields)
    (htail : ∀ p ∈ tail, p.1 ∈ annotations) :
    Agrees rt (("type", .str "string") :: ("enum", .arr words) :: tail)
      (fun doc => ((Codec.literal name table hname).read doc).isSome) (fun _ => True) := by
  refine agrees_string fun s => ?_
  rw [List.forall_mem_cons, and_iff_left
    (fun p hp => holds_of_annotation unasserted (htail p hp) _ _ _)]
  have henum : holds unasserted (("type", .str "string") :: ("enum", .arr words) :: tail) "enum"
      (.arr words) (.str s) = true ↔ ∃ p ∈ table, p.1 = s := by
    rw [← hwords]
    simp [holds, assertion, Json.same]
  rw [henum]
  change (table.lookup s).isSome ↔ _
  rw [List.lookup_isSome_iff]
  refine exists_congr fun p => and_congr_right fun _ => ?_
  rw [beq_iff_eq, eq_comm]

/-- A level: the structural check admits no float, though `3.0` is an integer to
    the contract. -/
theorem agrees_level (tail : Fields) (htail : ∀ p ∈ tail, p.1 ∈ annotations) :
    Agrees rt (("type", .str "integer") ::
        ("enum", .arr [.int 0, .int 1, .int 2, .int 3, .int 4, .int 5]) :: tail)
      (fun doc => (readLevel doc).isSome) (fun doc => ∀ q, doc ≠ .float q) := by
  intro path doc
  have htype : List.lookup "type" (("type", Json.str "integer") ::
      ("enum", .arr [.int 0, .int 1, .int 2, .int 3, .int 4, .int 5]) :: tail)
      = some (.str "integer") := rfl
  rw [valid_obj_iff, validateAgainstSchema.eq_def, htype, List.forall_mem_cons,
    List.forall_mem_cons, and_iff_left
    (fun p hp => holds_of_annotation unasserted (htail p hp) _ _ _)]
  cases doc with
  | int n =>
      have henum : holds unasserted (("type", .str "integer") ::
          ("enum", .arr [.int 0, .int 1, .int 2, .int 3, .int 4, .int 5]) :: tail) "enum"
          (.arr [.int 0, .int 1, .int 2, .int 3, .int 4, .int 5]) (.int n) = true ↔
          0 ≤ n ∧ n < 6 := by
        simp only [holds, assertion, Json.same, List.any_cons, List.any_nil, Bool.or_eq_true,
          beq_iff_eq, Bool.false_eq_true, or_false, String.reduceEq, if_false]
        omega
      have hlevel := readLevel_int n
      rw [henum]
      exact ⟨fun hc => ⟨⟨rfl, hlevel.mp hc.2⟩, fun q hq => by cases hq⟩,
        fun hc => ⟨rfl, hlevel.mpr hc.1.2⟩⟩
  | float q => exact iff_of_false (fun hc => by cases hc.1) (fun hc => hc.2 q rfl)
  | null | bool | str | arr | obj =>
      refine iff_of_false (fun hc => by cases hc.1) (fun hc => Bool.noConfusion hc.1.1)

variable [Scalars]

/-- A string with the bounds of a contract. -/
theorem agrees_bounded (low high : Nat) (tail : Fields) (htail : ∀ p ∈ tail, p.1 ∈ annotations) :
    Agrees rt (("type", .str "string") :: ("minLength", .int low) :: ("maxLength", .int high)
      :: tail) (fun doc => (strWithin low (some high) doc).isSome) (fun _ => True) := by
  refine agrees_string fun s => ?_
  rw [isSome_strWithin, List.forall_mem_cons, List.forall_mem_cons]
  have hrest : ∀ p ∈ tail, holds unasserted (("type", .str "string") ::
      ("minLength", .int low) :: ("maxLength", .int high) :: tail) p.1 p.2 (.str s) = true :=
    fun p hp => holds_of_annotation unasserted (htail p hp) _ _ _
  rw [and_iff_left hrest]
  simp [holds, assertion]

/-- A string with a least length. -/
theorem agrees_nonempty (low : Nat) (tail : Fields) (htail : ∀ p ∈ tail, p.1 ∈ annotations) :
    Agrees rt (("type", .str "string") :: ("minLength", .int low) :: tail)
      (fun doc => (strWithin low none doc).isSome) (fun _ => True) := by
  refine agrees_string fun s => ?_
  rw [isSome_strWithin, List.forall_mem_cons]
  have hrest : ∀ p ∈ tail, holds unasserted (("type", .str "string") ::
      ("minLength", .int low) :: tail) p.1 p.2 (.str s) = true :=
    fun p hp => holds_of_annotation unasserted (htail p hp) _ _ _
  rw [and_iff_left hrest]
  simp [holds, assertion]

/-- A string of any length. -/
theorem agrees_str (tail : Fields) (htail : ∀ p ∈ tail, p.1 ∈ annotations) :
    Agrees rt (("type", .str "string") :: tail) (fun doc => (Scalars.readStr doc).isSome)
      (fun _ => True) := by
  refine agrees_string fun s => iff_of_true ?_ fun p hp =>
    holds_of_annotation unasserted (htail p hp) _ _ _
  rw [Scalars.readStr_str, Option.isSome_some]

/-- The spelling of an identifier is not asserted, so it is left to the reader. -/
theorem agrees_uuid (tail : Fields) (htail : ∀ p ∈ tail, p.1 ∈ annotations) :
    Agrees rt (("type", .str "string") :: ("format", .str "uuid") :: tail)
      (fun doc => (Scalars.readUuid doc).isSome) (fun doc => (Scalars.readUuid doc).isSome) := by
  have h : Agrees rt (("type", .str "string") :: ("format", .str "uuid") :: tail)
      (fun _ => True) (fun _ => True) := by
    refine agrees_string fun s => iff_of_true trivial fun p hp => ?_
    rcases List.mem_cons.mp hp with rfl | hp
    · rfl
    · exact holds_of_annotation unasserted (htail p hp) _ _ _
  intro path doc
  have hdoc := h path doc
  simp only [and_true] at hdoc
  rw [hdoc]

theorem agrees_boolean (tail : Fields) (htail : ∀ p ∈ tail, p.1 ∈ annotations) :
    Agrees rt (("type", .str "boolean") :: tail) (fun doc => (Scalars.readBool doc).isSome)
      (fun _ => True) := by
  intro path doc
  have htype : List.lookup "type" (("type", Json.str "boolean") :: tail)
      = some (.str "boolean") := rfl
  rw [valid_obj_iff, validateAgainstSchema.eq_def, htype, List.forall_mem_cons, and_iff_left
    (fun p hp => holds_of_annotation unasserted (htail p hp) _ _ _)]
  cases doc with
  | bool b =>
      have hread : (Scalars.readBool (.bool b)).isSome := by
        rw [Scalars.readBool_bool, Option.isSome_some]
      exact iff_of_true ⟨rfl, hread⟩ ⟨rfl, trivial⟩
  | null | int | float | str | arr | obj =>
      refine iff_of_false (fun hc => by cases hc.1) (fun hc => Bool.noConfusion hc.1)

/-- What the readers keep to where the structural check has not settled the kind:
    strings are read out of strings only, and an integer as the nearest float. -/
structure KeepsKinds [Scalars] : Prop where
  str_of_readStr : ∀ doc s, Scalars.readStr doc = some s → doc = .str s
  readFloat_zero : Scalars.readFloat (.int 0) = some 0
  one_le_readFloat : ∀ n q, 1 ≤ n → Scalars.readFloat (.int n) = some q → 1 ≤ q
  readFloat_le_neg_one : ∀ n q, n ≤ -1 → Scalars.readFloat (.int n) = some q → q ≤ -1

/-- A confidence: of the integers only zero is one. -/
theorem agrees_confidence (h : KeepsKinds) (tail : Fields) (htail : ∀ p ∈ tail, p.1 ∈ annotations) :
    Agrees rt (("type", .str "number") :: ("minimum", .int 0) ::
        ("maximum", .float (99 / 100)) :: tail)
      (fun doc => (readConfidence doc).isSome) (fun _ => True) := by
  intro path doc
  have htype : List.lookup "type" (("type", Json.str "number") :: ("minimum", .int 0) ::
      ("maximum", .float (99 / 100)) :: tail) = some (.str "number") := rfl
  rw [valid_obj_iff, validateAgainstSchema.eq_def, htype, List.forall_mem_cons,
    List.forall_mem_cons, List.forall_mem_cons, and_iff_left
    (fun p hp => holds_of_annotation unasserted (htail p hp) _ _ _)]
  -- Of the kinds of values only numbers get through on both sides.
  cases doc with
  | float q =>
      have hread : (readConfidence (.float q)).isSome ↔ 0 ≤ q ∧ q ≤ 99 / 100 := by
        rw [readConfidence, Scalars.readFloat_float]
        simp [Option.isSome_filter]
      simp [hread, holds, assertion, isOfType, Json.number?]
  | int n =>
      have hread : (readConfidence (.int n)).isSome ↔ n = 0 := by
        rw [readConfidence]
        constructor
        · intro hsome
          obtain ⟨q, hq⟩ := Option.isSome_iff_exists.mp hsome
          obtain ⟨hread, hbounds⟩ := Option.filter_eq_some_iff.mp hq
          rw [Bool.and_eq_true, decide_eq_true_iff, decide_eq_true_iff] at hbounds
          by_contra hne
          rcases Int.lt_or_gt_of_ne hne with hn | hn
          · have := h.readFloat_le_neg_one n q (by omega) hread
            linarith
          · have := h.one_le_readFloat n q (by omega) hread
            linarith
        · rintro rfl
          rw [h.readFloat_zero]
          norm_num [Option.isSome_filter]
      -- Between the bounds there is no other integer than zero.
      have hvalid : (0 ≤ n ∧ (n : ℚ) ≤ 99 / 100) ↔ n = 0 := by
        constructor
        · rintro ⟨hlow, hhigh⟩
          have hsmall : n < 1 := by
            have : (n : ℚ) < 1 := by linarith
            exact_mod_cast this
          omega
        · rintro rfl
          norm_num
      simp [hread, hvalid, holds, assertion, isOfType, Json.number?]
  | null | bool | str | arr | obj =>
      refine iff_of_false (fun hc => by cases hc.1) (fun hc => Bool.noConfusion hc.1.1)

/-- A string that may be null, its length bounded or not. -/
theorem agrees_strOrNull (h : KeepsKinds) (high : Option Nat) :
    Agrees rt (("type", .arr [.str "string", .str "null"]) ::
        high.toList.map (fun n => ("maxLength", Json.int n)))
      (fun doc => (strOrNull high doc).isSome) (fun _ => True) := by
  refine agrees_nullable (fun doc hread => ?_) (fun doc hkind => ?_)
  · cases doc with
    | null => exact Or.inl rfl
    | bool | int | float | str | arr | obj =>
        rw [strOrNull_of_ne high (fun hc => by cases hc), Option.isSome_map] at hread
        exact Or.inr (strWithin_isSome_of_str (h.str_of_readStr _) hread)
  · rcases hkind with rfl | ⟨s, rfl⟩
    · cases high with
      | none => simp [strOrNull]
      | some n => simp [strOrNull, holds, assertion]
    · rw [strOrNull_of_ne high (fun hc => by cases hc), Option.isSome_map, isSome_strWithin]
      cases high with
      | none => simp
      | some n => simp [holds, assertion]

end Scalar

section Outputs
variable [Scalars] {rt : Runtime}

/-- What the interviewer's output model makes of each field. -/
def interviewerReads : String → Json → Prop
  | "utterance", doc => (strWithin 1 (some 1200) doc).isSome
  | "internal_move_executed", doc => (InterviewerMove.codec.read doc).isSome
  | _, _ => True

theorem agrees_interviewer :
    Agrees rt interviewerSchema (fun doc => (InterviewerOutput.modelValidate doc).isSome)
      (fun _ => True) := by
  refine Agrees.congr (agrees_record interviewerReads (fun _ _ => True) (by decide) ?_ ?_)
    (fun _ => Iff.rfl) (fun _ => iff_of_true (fun _ _ _ _ => trivial) trivial)
  · simp only [List.forall_mem_cons, List.not_mem_nil, false_implies, implies_true, and_true]
    refine ⟨⟨_, rfl, agrees_bounded 1 1200 _ ?_⟩, ⟨_, rfl, agrees_literal _ _ _ ?_ _ ?_⟩⟩
    · decide
    · rfl
    · decide
  · intro fields hrequired hdeclared
    refine (isSome_bind_iff fun _ => isSome_bind_iff fun _ => isSome_bind_iff fun _ =>
      iff_of_true rfl trivial).trans ((and_iff_right ?_).trans ?_)
    · exact (isSome_guard_iff _).mpr ((closed_obj_iff fields _).mpr hdeclared)
    · rw [isSome_readField_iff _ (hrequired _ (by decide)),
        isSome_readField_iff _ (hrequired _ (by decide))]
      simp only [List.forall_mem_cons, List.not_mem_nil, false_implies, implies_true,
        interviewerReads]

/-- What the assessor's output model makes of each field of an assessment. -/
def assessmentReads : String → Json → Prop
  | "rubric_node_id", doc => (Scalars.readStr doc).isSome
  | "level", doc => (readLevel doc).isSome
  | "confidence", doc => (readConfidence doc).isSome
  | "rationale_en", doc => (strWithin 1 (some 600) doc).isSome
  | "evidence_spans", doc => (readList 1 (strWithin 1 none) doc).isSome
  | _, _ => True

/-- The level is written as an integer. -/
def levelWritten : String → Json → Prop
  | "level", doc => ∀ q, doc ≠ .float q
  | _, _ => True

theorem agrees_assessment (h : KeepsKinds) :
    Agrees rt assessmentSchema (fun doc => (AssessmentItem.modelValidate doc).isSome)
      (fun doc => ∀ value, doc.fields.lookup "level" = some value → ∀ q, value ≠ .float q) := by
  -- Field by field, then the reader as a whole, then what is left of the words.
  refine Agrees.congr (agrees_record assessmentReads levelWritten (by decide) ?_ ?_)
    (fun _ => Iff.rfl) (fun _ => ?_)
  · simp only [List.forall_mem_cons, List.not_mem_nil, false_implies, implies_true, and_true]
    refine ⟨⟨_, rfl, agrees_str _ ?_⟩, ⟨_, rfl, agrees_level _ ?_⟩,
      ⟨_, rfl, agrees_confidence h _ ?_⟩, ⟨_, rfl, agrees_bounded 1 600 _ ?_⟩, ⟨_, rfl, ?_⟩⟩
    · decide
    · decide
    · decide
    · decide
    · refine (agrees_array (agrees_nonempty 1 _ ?_) (fun elements => ?_)).congr
        (fun _ => Iff.rfl) (fun _ => iff_of_true (fun _ _ => trivial) trivial)
      · decide
      · exact isSome_readList_iff 1 _ elements
  · intro fields hrequired hdeclared
    refine (isSome_bind_iff fun _ => isSome_bind_iff fun _ => isSome_bind_iff fun _ =>
      isSome_bind_iff fun _ => isSome_bind_iff fun _ => isSome_bind_iff fun _ =>
      iff_of_true rfl trivial).trans ((and_iff_right ?_).trans ?_)
    · exact (isSome_guard_iff _).mpr ((closed_obj_iff fields _).mpr hdeclared)
    · rw [isSome_readField_iff _ (hrequired _ (by decide)),
        isSome_readField_iff _ (hrequired _ (by decide)),
        isSome_readField_iff _ (hrequired _ (by decide)),
        isSome_readField_iff _ (hrequired _ (by decide)),
        isSome_readField_iff _ (hrequired _ (by decide))]
      simp only [List.forall_mem_cons, List.not_mem_nil, false_implies, implies_true,
        assessmentReads]
  · simp only [List.forall_mem_cons, List.not_mem_nil, false_implies, implies_true, and_true]
    exact ⟨fun hall => hall.2.1, fun hlevel =>
      ⟨fun _ _ => trivial, hlevel, fun _ _ => trivial, fun _ _ => trivial, fun _ _ => trivial⟩⟩

/-- What the assessor's output model makes of each field of a red flag. -/
def redFlagReads : String → Json → Prop
  | "type", doc => (RedFlagType.codec.read doc).isSome
  | "rubric_node_id", doc => (strOrNull none doc).isSome
  | "description_en", doc => (strWithin 1 (some 400) doc).isSome
  | "evidence_span", doc => (strOrNull none doc).isSome
  | _, _ => True

theorem agrees_redFlag (h : KeepsKinds) :
    Agrees rt redFlagSchema (fun doc => (RedFlagItem.modelValidate doc).isSome)
      (fun _ => True) := by
  refine Agrees.congr (agrees_record redFlagReads (fun _ _ => True) (by decide) ?_ ?_)
    (fun _ => Iff.rfl) (fun _ => iff_of_true (fun _ _ _ _ => trivial) trivial)
  · simp only [List.forall_mem_cons, List.not_mem_nil, false_implies, implies_true, and_true]
    refine ⟨⟨_, rfl, agrees_literal _ _ _ ?_ _ ?_⟩, ⟨_, rfl, agrees_strOrNull h none⟩,
      ⟨_, rfl, agrees_bounded 1 400 _ ?_⟩, ⟨_, rfl, agrees_strOrNull h none⟩⟩
    · rfl
    · decide
    · decide
  · intro fields hrequired hdeclared
    refine (isSome_bind_iff fun _ => isSome_bind_iff fun _ => isSome_bind_iff fun _ =>
      isSome_bind_iff fun _ => isSome_bind_iff fun _ =>
      iff_of_true rfl trivial).trans ((and_iff_right ?_).trans ?_)
    · exact (isSome_guard_iff _).mpr ((closed_obj_iff fields _).mpr hdeclared)
    · rw [isSome_readField_iff _ (hrequired _ (by decide)), isSome_readOptional_iff,
        isSome_readField_iff _ (hrequired _ (by decide)), isSome_readOptional_iff]
      simp only [List.forall_mem_cons, List.not_mem_nil, false_implies, implies_true,
        redFlagReads]

/-- What the assessor's output model makes of each field of its output. -/
def assessorReads : String → Json → Prop
  | "turn_id", doc => (Scalars.readUuid doc).isSome
  | "session_id", doc => (Scalars.readUuid doc).isSome
  | "competency_focus", doc => (Scalars.readStr doc).isSome
  | "assessments", doc => (readList 0 AssessmentItem.modelValidate doc).isSome
  | "red_flags", doc => (readList 0 RedFlagItem.modelValidate doc).isSome
  | "needs_manual_review", doc => (Scalars.readBool doc).isSome
  | "manual_review_reason_en", doc => (strOrNull (some 400) doc).isSome
  | _, _ => True

/-- What the schema leaves open: how identifiers are spelled, and that levels may
    be written as floats. -/
def assessorWritten : String → Json → Prop
  | "turn_id", doc => (Scalars.readUuid doc).isSome
  | "session_id", doc => (Scalars.readUuid doc).isSome
  | "assessments", doc => ∀ item ∈ doc.elements, ∀ value, item.fields.lookup "level" = some value →
      ∀ q, value ≠ .float q
  | _, _ => True

/-- The identifiers can be read, and every level is written as an integer. -/
structure Readable (doc : Json) : Prop where
  turnId : ∀ value, doc.fields.lookup "turn_id" = some value → (Scalars.readUuid value).isSome
  sessionId : ∀ value, doc.fields.lookup "session_id" = some value →
    (Scalars.readUuid value).isSome
  levels : ∀ items, doc.fields.lookup "assessments" = some items → ∀ item ∈ items.elements,
    ∀ level, item.fields.lookup "level" = some level → ∀ q, level ≠ .float q

theorem agrees_assessor (h : KeepsKinds) :
    Agrees rt assessorSchema (fun doc => (AssessorOutput.modelValidate doc).isSome) Readable := by
  -- The same for the whole answer, whose lists are lists of records.
  refine Agrees.congr (agrees_record assessorReads assessorWritten (by decide) ?_ ?_)
    (fun _ => Iff.rfl) (fun _ => ?_)
  · simp only [List.forall_mem_cons, List.not_mem_nil, false_implies, implies_true, and_true]
    refine ⟨⟨_, rfl, agrees_uuid _ ?_⟩, ⟨_, rfl, agrees_uuid _ ?_⟩, ⟨_, rfl, agrees_str _ ?_⟩,
      ⟨_, rfl, ?_⟩, ⟨_, rfl, ?_⟩, ⟨_, rfl, agrees_boolean _ ?_⟩,
      ⟨_, rfl, agrees_strOrNull h (some 400)⟩⟩
    · decide
    · decide
    · decide
    · exact agrees_array (agrees_assessment h) (isSome_readList_iff 0 _)
    · exact (agrees_array (agrees_redFlag h) (isSome_readList_iff 0 _)).congr
        (fun _ => Iff.rfl) (fun _ => iff_of_true (fun _ _ => trivial) trivial)
    · decide
  · intro fields hrequired hdeclared
    refine (isSome_bind_iff fun _ => isSome_bind_iff fun _ => isSome_bind_iff fun _ =>
      isSome_bind_iff fun _ => isSome_bind_iff fun _ => isSome_bind_iff fun _ =>
      isSome_bind_iff fun _ => isSome_bind_iff fun _ =>
      iff_of_true rfl trivial).trans ((and_iff_right ?_).trans ?_)
    · exact (isSome_guard_iff _).mpr ((closed_obj_iff fields _).mpr hdeclared)
    · rw [isSome_readField_iff _ (hrequired _ (by decide)),
        isSome_readField_iff _ (hrequired _ (by decide)),
        isSome_readField_iff _ (hrequired _ (by decide)),
        isSome_readField_iff _ (hrequired _ (by decide)),
        isSome_readField_iff _ (hrequired _ (by decide)),
        isSome_readField_iff _ (hrequired _ (by decide)), isSome_readOptional_iff]
      simp only [List.forall_mem_cons, List.not_mem_nil, false_implies, implies_true,
        assessorReads]
  · simp only [List.forall_mem_cons, List.not_mem_nil, false_implies, implies_true, and_true]
    exact ⟨fun hall => ⟨hall.1, hall.2.1, hall.2.2.2.1⟩, fun hreadable =>
      ⟨hreadable.turnId, hreadable.sessionId, fun _ _ => trivial, hreadable.levels,
        fun _ _ => trivial, fun _ _ => trivial, fun _ _ => trivial⟩⟩

/-- What the interviewer's output model reads out of a valid document is what
    stands there. -/
theorem written_of_modelValidate {fields : Fields} {output : InterviewerOutput}
    (hvalid : (Json.obj interviewerSchema).valid unasserted (.obj fields) = true)
    (h : InterviewerOutput.modelValidate (.obj fields) = some output) :
    fields.lookup "utterance" = some (.str output.utterance) ∧
      fields.lookup "internal_move_executed" = some (.str output.internalMoveExecuted.value) := by
  have hheader : ∀ p ∈ [("$schema", Json.str "https://json-schema.org/draft/2020-12/schema"),
      ("$id", .str "https://techscreen.nix.internal/schemas/interviewer-output.v1.json"),
      ("title", .str "InterviewerOutput")], p.1 ∈ annotations := by decide
  obtain ⟨_, hfields, _, _, hproperties⟩ := (valid_objectSchema_iff unasserted hheader _).mp hvalid
  cases hfields
  simp only [InterviewerOutput.modelValidate, Option.bind_eq_bind, Option.bind_eq_some_iff] at h
  obtain ⟨_, _, u, hu, m, hm, hout⟩ := h
  cases hout
  obtain ⟨doc, hdoc, hread⟩ := Option.bind_eq_some_iff.mp hu
  obtain ⟨word, hword, hmove⟩ := Option.bind_eq_some_iff.mp hm
  refine ⟨?_, hword.trans (congrArg some (readMove_eq_some_iff.mp hmove))⟩
  -- The utterance is a string, so the reader takes it as it is.
  have hkind := (valid_obj_iff unasserted _ _).mp (hproperties _ List.mem_cons_self doc hdoc)
    ("type", .str "string") List.mem_cons_self
  cases doc with
  | str s =>
      have hs := (Option.filter_eq_some_iff.mp hread).1
      rw [Scalars.readStr_str, Option.some.injEq] at hs
      exact hdoc.trans (by rw [hs])
  | null | bool | int | float | arr | obj => exact Bool.noConfusion hkind

end Outputs

section Contracts
variable {rt : Runtime}

/-- The two checks of an answer. -/
def accepts {α : Type} (rt : Runtime) (schema : Fields) (read : Json → Option α) (text : String) :
    Option α :=
  match parseAndValidate rt text schema with
  | .ok fields => read (.obj fields)
  | .error _ => none

/-- The structural check passes an object that is checked, and nothing else. -/
theorem accepts_eq_some_iff {α : Type} {schema : Fields} {read : Json → Option α} {text : String}
    {output : α} : accepts rt schema read text = some output ↔
      ∃ fields, rt.loads text = .value (.obj fields) ∧
        validateAgainstSchema rt schema (.obj fields) "$" = .ok () ∧
        read (.obj fields) = some output := by
  rw [accepts, parseAndValidate]
  cases rt.loads text with
  | decodeError error => simp
  | raised error => simp
  | value document =>
      cases document with
      | obj fields =>
          simp only [Loads.value.injEq, Json.obj.injEq, exists_eq_left']
          cases validateAgainstSchema rt schema (.obj fields) "$" with
          | ok u => simp [Except.map]
          | error e => simp [Except.map]
      | null | bool | int | float | str | arr => simp

/-- An output that the interviewer hands on was read out of a document that is
    valid under the committed contract, and is what stands there; and every such
    document is accepted. -/
theorem interviewer_contract [Scalars] (rt : Runtime) (text : String) (output : InterviewerOutput) :
    accepts rt interviewerSchema InterviewerOutput.modelValidate text = some output ↔
      ∃ fields, rt.loads text = .value (.obj fields) ∧
        (Json.obj interviewerSchema).valid unasserted (.obj fields) = true ∧
        fields.lookup "utterance" = some (.str output.utterance) ∧
        fields.lookup "internal_move_executed" = some (.str output.internalMoveExecuted.value) := by
  rw [accepts_eq_some_iff]
  refine exists_congr fun fields => and_congr_right fun _ => ?_
  have hagrees := @agrees_interviewer _ rt "$" (.obj fields)
  rw [and_true] at hagrees
  constructor
  · rintro ⟨hchecked, hread⟩
    have hvalid := hagrees.mp ⟨hchecked, Option.isSome_iff_exists.mpr ⟨output, hread⟩⟩
    exact ⟨hvalid, written_of_modelValidate hvalid hread⟩
  · rintro ⟨hvalid, hutterance, hmove⟩
    obtain ⟨hchecked, hsome⟩ := hagrees.mpr hvalid
    obtain ⟨other, hother⟩ := Option.isSome_iff_exists.mp hsome
    -- The document determines both fields of the output.
    obtain ⟨hutterance', hmove'⟩ := written_of_modelValidate hvalid hother
    have hu : other.utterance = output.utterance :=
      Json.str.inj (Option.some.inj (hutterance'.symm.trans hutterance))
    have hm : other.internalMoveExecuted = output.internalMoveExecuted := by
      have hboth := Option.some.inj (hmove'.symm.trans hmove)
      have hself := readMove_eq_some_iff.mpr
        (rfl : Json.str other.internalMoveExecuted.value = .str other.internalMoveExecuted.value)
      exact Option.some.inj (hself.symm.trans (readMove_eq_some_iff.mpr hboth))
    refine ⟨hchecked, hother.trans (congrArg some ?_)⟩
    cases other
    cases output
    simp only at hu hm
    rw [hu, hm]

theorem isSome_accepts_iff {α : Type} {schema : Fields} {read : Json → Option α} {text : String} :
    (accepts rt schema read text).isSome ↔ ∃ fields, rt.loads text = .value (.obj fields) ∧
      validateAgainstSchema rt schema (.obj fields) "$" = .ok () ∧ (read (.obj fields)).isSome := by
  rw [Option.isSome_iff_exists]
  simp only [accepts_eq_some_iff]
  rw [exists_comm]
  refine exists_congr fun fields => ?_
  rw [exists_and_left, exists_and_left, ← Option.isSome_iff_exists]

/-- What two checks that agree with a schema accept. -/
theorem accepts_iff_of_agrees {α : Type} {schema : Fields} {read : Json → Option α}
    {plain : Json → Prop} (h : Agrees rt schema (fun doc => (read doc).isSome) plain)
    (text : String) : (accepts rt schema read text).isSome ↔
      ∃ fields, rt.loads text = .value (.obj fields) ∧
        (Json.obj schema).valid unasserted (.obj fields) = true ∧ plain (.obj fields) := by
  rw [isSome_accepts_iff]
  exact exists_congr fun fields => and_congr_right fun _ => h "$" (.obj fields)

/-- The interviewer's checks accept the documents that are valid under its contract.
    The assessor's accept those that are valid under its contract, of which the
    identifiers can be read and the levels are written as integers. -/
theorem answers_follow_contracts [Scalars] (h : KeepsKinds) (rt : Runtime) (text : String) :
    ((accepts rt interviewerSchema InterviewerOutput.modelValidate text).isSome ↔
      ∃ fields, rt.loads text = .value (.obj fields) ∧
        (Json.obj interviewerSchema).valid unasserted (.obj fields) = true) ∧
    ((accepts rt assessorSchema AssessorOutput.modelValidate text).isSome ↔
      ∃ fields, rt.loads text = .value (.obj fields) ∧
        (Json.obj assessorSchema).valid unasserted (.obj fields) = true ∧
        Readable (.obj fields)) := by
  refine ⟨?_, accepts_iff_of_agrees (agrees_assessor h) text⟩
  rw [accepts_iff_of_agrees agrees_interviewer text]
  simp only [and_true]

/-- An identifier in its canonical text, or without the hyphens. -/
def readSpelling (s : String) : Option Uuid :=
  (Uuid.ofText? s).or (if s.length = 32 then
    (readHex s.toList).map (fun n => ⟨BitVec.ofNat 128 n⟩) else none)

theorem readSpelling_text (u : Uuid) : readSpelling u.text = some u := by
  rw [readSpelling, (Uuid.ofText?_eq_some_iff _ u).mpr rfl, Option.some_or]

/-- Scalars that read both spellings of identifiers, and integers as floats too. -/
@[reducible] def laxScalars : Scalars where
  readBool := Scalars.strict.readBool
  readInt := Scalars.strict.readInt
  readFloat doc := doc.number?
  readStr := Scalars.strict.readStr
  readUuid
    | .str s => readSpelling s
    | _ => none
  readInstant := Scalars.strict.readInstant
  writeUuid := Uuid.text
  writeInstant := Scalars.strict.writeInstant
  readBool_bool _ := rfl
  readInt_int _ := rfl
  readFloat_float _ := rfl
  readStr_str _ := rfl
  readUuid_writeUuid u := readSpelling_text u
  readInstant_writeInstant := Scalars.strict.readInstant_writeInstant

theorem laxScalars_keepsKinds : @KeepsKinds laxScalars := by
  refine @KeepsKinds.mk laxScalars (fun doc s h => ?_) rfl (fun n q hn h => ?_)
    (fun n q hn h => ?_)
  · cases doc with
    | str t => exact congrArg Json.str (Option.some.inj h)
    | null | bool | int | float | arr | obj => cases h
  · rw [← Option.some.inj h]
    exact_mod_cast hn
  · rw [← Option.some.inj h]
    exact_mod_cast hn

/-- An answer that assesses one node, its confidence written as an integer. -/
def smallAnswer (turnId : String) (level : Json) : Fields :=
  [("turn_id", .str turnId), ("session_id", .str "00000000-0000-0000-0000-000000000007"),
    ("competency_focus", .str "sql.joins"),
    ("assessments", .arr [.obj [("rubric_node_id", .str "sql.joins"), ("level", level),
      ("confidence", .int 0), ("rationale_en", .str "No answer was given."),
      ("evidence_spans", .arr [.str "не знаю"])]]),
    ("red_flags", .arr []), ("needs_manual_review", .bool true)]

def smallAnswerText (turnId level : String) : String :=
  "\x7b\"turn_id\": \"" ++ turnId ++
    "\", \"session_id\": \"00000000-0000-0000-0000-000000000007\", " ++
    "\"competency_focus\": \"sql.joins\", " ++
    "\"assessments\": [\x7b\"rubric_node_id\": \"sql.joins\", \"level\": " ++ level ++
    ", \"confidence\": 0, \"rationale_en\": \"No answer was given.\", " ++
    "\"evidence_spans\": [\"не знаю\"]\x7d], " ++
    "\"red_flags\": [], \"needs_manual_review\": true\x7d"

/-- An identifier in both spellings. -/
def hyphened : String := "00000000-0000-0000-0000-000000000001"

def unhyphened : String := "00000000000000000000000000000001"

/-- A runtime whose parser knows the answer, its level written as an integer or a
    float. -/
def answerRuntime (turnId : String) : Runtime :=
  { smallRuntime with
    loads := fun text =>
      if text = smallAnswerText turnId "0" then .value (.obj (smallAnswer turnId (.int 0)))
      else if text = smallAnswerText turnId "0.0" then
        .value (.obj (smallAnswer turnId (.float 0)))
      else smallRuntime.loads text }

theorem loads_integerLevel (turnId : String) :
    (answerRuntime turnId).loads (smallAnswerText turnId "0") =
      .value (.obj (smallAnswer turnId (.int 0))) := by
  unfold answerRuntime
  dsimp only
  rw [if_pos rfl]

theorem loads_floatLevel : (answerRuntime hyphened).loads (smallAnswerText hyphened "0.0") =
    .value (.obj (smallAnswer hyphened (.float 0))) := by
  have hne : smallAnswerText hyphened "0.0" ≠ smallAnswerText hyphened "0" := by decide +kernel
  unfold answerRuntime
  dsimp only
  rw [if_neg hne, if_pos rfl]

theorem smallAnswer_readable {turnId : String}
    (h : (laxScalars.readUuid (.str turnId)).isSome) :
    @Readable laxScalars (.obj (smallAnswer turnId (.int 0))) := by
  refine @Readable.mk laxScalars _ (fun value hvalue => ?_) (fun value hvalue => ?_)
    (fun items hitems item hitem level hlevel q hq => ?_)
  · rw [← Option.some.inj hvalue]
    exact h
  · rw [← Option.some.inj hvalue]
    decide +kernel
  · rw [← Option.some.inj hitems] at hitem
    rw [List.mem_singleton.mp hitem] at hlevel
    rw [hq] at hlevel
    cases hlevel

/-- The assessor's checks accept the answer, and the interviewer's do not. -/
theorem answers_follow_contracts_small :
    (@accepts _ (answerRuntime hyphened) assessorSchema
      (@AssessorOutput.modelValidate laxScalars) (smallAnswerText hyphened "0")).isSome ∧
    ¬ (@accepts _ (answerRuntime hyphened) interviewerSchema
      (@InterviewerOutput.modelValidate laxScalars) (smallAnswerText hyphened "0")).isSome := by
  obtain ⟨hinterviewer, hassessor⟩ := @answers_follow_contracts laxScalars
    laxScalars_keepsKinds (answerRuntime hyphened) (smallAnswerText hyphened "0")
  refine ⟨hassessor.mpr ⟨_, loads_integerLevel hyphened, by decide +kernel,
    smallAnswer_readable (by decide +kernel)⟩, ?_⟩
  rw [hinterviewer, loads_integerLevel]
  rintro ⟨fields, hfields, hvalid⟩
  cases hfields
  exact absurd hvalid (by decide +kernel)

/-- The format `uuid`, asserted: hexadecimal digits in groups. -/
def uuidFormat (name s : String) : Bool :=
  name != "uuid" || (Uuid.ofText? (String.ofList (s.toList.map Char.toLower))).isSome

/-- What the assessor's checks accept is not what is valid with the format asserted: a
    level that is written as a float is refused, and an identifier without hyphens is
    accepted. -/
theorem contract_not_met :
    ¬ ((@accepts _ (answerRuntime hyphened) assessorSchema
        (@AssessorOutput.modelValidate laxScalars) (smallAnswerText hyphened "0.0")).isSome ↔
      ∃ fields, (answerRuntime hyphened).loads (smallAnswerText hyphened "0.0") =
        .value (.obj fields) ∧
        (Json.obj assessorSchema).valid uuidFormat (.obj fields) = true) ∧
    ¬ ((@accepts _ (answerRuntime unhyphened) assessorSchema
        (@AssessorOutput.modelValidate laxScalars) (smallAnswerText unhyphened "0")).isSome ↔
      ∃ fields, (answerRuntime unhyphened).loads (smallAnswerText unhyphened "0") =
        .value (.obj fields) ∧
        (Json.obj assessorSchema).valid uuidFormat (.obj fields) = true) := by
  have hagrees (rt : Runtime) := @agrees_assessor laxScalars rt laxScalars_keepsKinds
  constructor
  · intro h
    have haccepted := h.mpr ⟨_, loads_floatLevel, by decide +kernel⟩
    rw [accepts_iff_of_agrees (hagrees _), loads_floatLevel] at haccepted
    obtain ⟨fields, hfields, -, hreadable⟩ := haccepted
    cases hfields
    exact @Readable.levels laxScalars _ hreadable _ rfl _ List.mem_cons_self _ rfl 0 rfl
  · intro h
    have haccepted := (accepts_iff_of_agrees (hagrees (answerRuntime unhyphened)) _).mpr
      ⟨_, loads_integerLevel unhyphened, by decide +kernel,
        smallAnswer_readable (by decide +kernel)⟩
    obtain ⟨fields, hfields, hvalid⟩ := h.mp haccepted
    rw [loads_integerLevel] at hfields
    cases hfields
    exact absurd hvalid (by decide +kernel)

end Contracts

end TechScreen.Agents
