import TechScreen.Lib.Json

/-!
# JSON Schemas

What it means for a JSON document to be valid under a schema, for the keywords
of draft 2020-12 that describe the shape of plain data. A schema is itself a JSON
document, and its meaning is read off that document: an object of keywords, each
of which is an assertion of its own, so a document is valid when every keyword of
the schema holds of it.

A keyword says nothing about a document of a kind it is not about: a bound on the
length of strings holds of every number. Numbers are compared by value, whether
they are written as integers or not. `properties` and `items` apply a schema to
a part of the document; `additionalProperties` applies one to the fields that the
`properties` beside it do not name. `format` is what a checker makes of it, and
every other word is an annotation.

## Main definitions

* `Json.same`: Equality of documents, numbers by value.
* `isOfType`: The kinds of documents.
* `assertion`: The keywords that apply no schema.
* `Json.valid`: Validity under a schema.
* `holds`: One keyword of a schema.
* `objectSchema`, `arraySchema`: Closed records, and lists.

## Theorems

* `valid_obj_iff`: Every keyword holds.
* `valid_objectSchema_iff`, `valid_arraySchema_iff`: The documents of either.
-/

namespace Lib

section Values

mutual

/-- Two documents are equal: numbers by value, objects whatever the order of
    their fields. -/
def Json.same : Json → Json → Bool
  | .null, .null => true
  | .bool a, .bool b => a == b
  | .int a, .int b => a == b
  | .int a, .float b => (a : ℚ) == b
  | .float a, .int b => a == (b : ℚ)
  | .float a, .float b => a == b
  | .str a, .str b => a == b
  | .arr as, .arr bs => Json.sameItems as bs
  | .obj fields, .obj others => fields.length == others.length && Json.sameFields fields others
  | _, _ => false

def Json.sameItems : List Json → List Json → Bool
  | [], [] => true
  | a :: as, b :: bs => a.same b && Json.sameItems as bs
  | _, _ => false

def Json.sameFields : List (String × Json) → List (String × Json) → Bool
  | [], _ => true
  | (key, value) :: fields, others =>
      (match others.lookup key with
        | some other => value.same other
        | none => false) && Json.sameFields fields others

end

/-- The kinds of documents, by the names that `type` gives them. -/
def isOfType : String → Json → Bool
  | "null", .null => true
  | "boolean", .bool _ => true
  | "string", .str _ => true
  | "array", .arr _ => true
  | "object", .obj _ => true
  | "integer", .int _ => true
  | "integer", .float q => q.den = 1
  | "number", .int _ => true
  | "number", .float _ => true
  | _, _ => false

/-- The value of a number. -/
def Json.number? : Json → Option ℚ
  | .int n => some n
  | .float q => some q
  | _ => none

/-- The elements of an array. -/
def Json.elements : Json → List Json
  | .arr items => items
  | _ => []

/-- The fields of an object. -/
def Json.fields : Json → List (String × Json)
  | .obj fields => fields
  | _ => []

end Values

section Validity
variable (format : String → String → Bool)

/-- The keywords that apply no schema to a part of the document. -/
def assertion (key : String) (value doc : Json) : Bool :=
  match key, value, doc with
  | "type", .str name, doc => isOfType name doc
  | "type", .arr names, doc => names.any (fun name => match name with
      | .str name => isOfType name doc
      | _ => false)
  | "enum", .arr values, doc => values.any (fun value => value.same doc)
  | "required", .arr keys, .obj fields => keys.all (fun key => match key with
      | .str key => (fields.lookup key).isSome
      | _ => true)
  | "minLength", .int n, .str s => n ≤ s.length
  | "maxLength", .int n, .str s => s.length ≤ n
  | "minItems", .int n, .arr items => n ≤ items.length
  | "minimum", bound, doc => match bound.number?, doc.number? with
      | some bound, some q => bound ≤ q
      | _, _ => true
  | "maximum", bound, doc => match bound.number?, doc.number? with
      | some bound, some q => q ≤ bound
      | _, _ => true
  | "format", .str name, .str s => format name s
  | _, _, _ => true

/-- The fields that the `properties` among some keywords name. -/
def declared (keywords : List (String × Json)) : List String :=
  match keywords.lookup "properties" with
  | some (.obj properties) => properties.map Prod.fst
  | _ => []

mutual

/-- A document is valid under a schema. -/
def Json.valid : Json → Json → Bool
  | .bool b, _ => b
  | .obj keywords, doc => keywordsValid keywords keywords doc
  | _, _ => true
termination_by structural schema => schema

/-- The fields of the document are valid under the schemas of `properties`. -/
def propertiesValid : Json → Json → Bool
  | .obj properties, doc => fieldsValid properties doc
  | _, _ => true
termination_by structural properties => properties

/-- Some of the keywords of a schema hold. -/
def keywordsValid (all : List (String × Json)) : List (String × Json) → Json → Bool
  | [], _ => true
  | (key, value) :: rest, doc =>
      (if key = "properties" then propertiesValid value doc
        else if key = "items" then doc.elements.all (fun element => value.valid element)
        else if key = "additionalProperties" then
          doc.fields.all (fun p => (declared all).contains p.1 || value.valid p.2)
        else assertion format key value doc) && keywordsValid all rest doc
termination_by structural keywords => keywords

def fieldsValid : List (String × Json) → Json → Bool
  | [], _ => true
  | (key, schema) :: rest, doc =>
      (match doc.fields.lookup key with
        | some value => schema.valid value
        | none => true) && fieldsValid rest doc
termination_by structural properties => properties

end

/-- One keyword of a schema holds of a document. -/
def holds (all : List (String × Json)) (key : String) (value doc : Json) : Bool :=
  if key = "properties" then propertiesValid format value doc
  else if key = "items" then doc.elements.all (fun element => value.valid format element)
  else if key = "additionalProperties" then
    doc.fields.all (fun p => (declared all).contains p.1 || value.valid format p.2)
  else assertion format key value doc

theorem keywordsValid_eq (all keywords : List (String × Json)) (doc : Json) :
    keywordsValid format all keywords doc
      = keywords.all (fun p => holds format all p.1 p.2 doc) := by
  induction keywords with
  | nil => rw [keywordsValid, List.all_nil]
  | cons p rest ih =>
      obtain ⟨key, value⟩ := p
      rw [keywordsValid, ih, List.all_cons, holds]

/-- A document is valid when every keyword holds of it. -/
theorem valid_obj_iff (keywords : List (String × Json)) (doc : Json) :
    (Json.obj keywords).valid format doc = true ↔
      ∀ p ∈ keywords, holds format keywords p.1 p.2 doc = true := by
  rw [Json.valid, keywordsValid_eq, List.all_eq_true]

theorem fieldsValid_iff (properties : List (String × Json)) (doc : Json) :
    fieldsValid format properties doc = true ↔
      ∀ p ∈ properties, ∀ value, doc.fields.lookup p.1 = some value →
        p.2.valid format value = true := by
  induction properties with
  | nil => simp only [fieldsValid, List.not_mem_nil, false_implies, implies_true]
  | cons p rest ih =>
      obtain ⟨key, schema⟩ := p
      rw [fieldsValid, Bool.and_eq_true, ih, List.forall_mem_cons]
      refine and_congr_left fun _ => ?_
      cases doc.fields.lookup key with
      | none => simp only [reduceCtorEq, false_implies, implies_true]
      | some value => simp only [Option.some.injEq, forall_eq']

theorem holds_properties (all properties : List (String × Json)) (doc : Json) :
    holds format all "properties" (.obj properties) doc = true ↔
      ∀ p ∈ properties, ∀ value, doc.fields.lookup p.1 = some value →
        p.2.valid format value = true := by
  rw [holds, if_pos rfl, propertiesValid, fieldsValid_iff]

/-- The words that say nothing about a document. -/
def annotations : List String := ["$schema", "$id", "title", "description"]

theorem holds_of_annotation {key : String} (h : key ∈ annotations)
    (all : List (String × Json)) (value doc : Json) : holds format all key value doc = true := by
  simp only [annotations, List.mem_cons, List.not_mem_nil, or_false] at h
  rcases h with rfl | rfl | rfl | rfl <;> rfl

/-- A record that admits no other fields than its `properties`. -/
def objectSchema (header : List (String × Json)) (required : List String)
    (properties : List (String × Json)) : List (String × Json) :=
  header ++ [("type", .str "object"), ("additionalProperties", .bool false),
    ("required", .arr (required.map Json.str)), ("properties", .obj properties)]

/-- No annotation hides a keyword of a closed record. -/
theorem lookup_objectSchema {header properties : List (String × Json)} {required : List String}
    (hheader : ∀ p ∈ header, p.1 ∈ annotations) {key : String} (hkey : key ∉ annotations) :
    (objectSchema header required properties).lookup key
      = [("type", Json.str "object"), ("additionalProperties", .bool false),
        ("required", .arr (required.map Json.str)),
        ("properties", .obj properties)].lookup key := by
  have hnone : header.lookup key = none := by
    rw [List.lookup_eq_none_iff]
    intro p hp
    have hne : key ≠ p.1 := by
      rintro rfl
      exact hkey (hheader p hp)
    simpa using hne
  rw [objectSchema, List.lookup_append, hnone, Option.none_or]

/-- The documents of a closed record: objects with the required fields, with no
    others than the declared ones, and with each of them valid. -/
theorem valid_objectSchema_iff {header : List (String × Json)} {required : List String}
    {properties : List (String × Json)} (hheader : ∀ p ∈ header, p.1 ∈ annotations) (doc : Json) :
    (Json.obj (objectSchema header required properties)).valid format doc = true ↔
      ∃ fields, doc = .obj fields ∧ (∀ key ∈ required, (fields.lookup key).isSome) ∧
        (∀ p ∈ fields, p.1 ∈ properties.map Prod.fst) ∧
        ∀ p ∈ properties, ∀ value, fields.lookup p.1 = some value →
          p.2.valid format value = true := by
  have hdeclared : declared (objectSchema header required properties)
      = properties.map Prod.fst := by
    rw [declared, lookup_objectSchema hheader (by decide)]
    rfl
  rw [valid_obj_iff]
  constructor
  · intro h
    have hmem : ∀ p ∈ [("type", Json.str "object"), ("additionalProperties", .bool false),
        ("required", .arr (required.map Json.str)), ("properties", .obj properties)],
        holds format (objectSchema header required properties) p.1 p.2 doc = true :=
      fun p hp => h p (List.mem_append_right _ hp)
    simp only [List.forall_mem_cons, List.not_mem_nil, false_implies, implies_true, and_true]
      at hmem
    obtain ⟨htype, hclosed, hrequired, hproperties⟩ := hmem
    cases doc with
    | obj fields =>
        refine ⟨fields, rfl, ?_, ?_, ?_⟩
        · simpa [holds, assertion] using hrequired
        · simpa [holds, hdeclared, Json.fields, Json.valid] using hclosed
        · exact (holds_properties format _ properties (.obj fields)).mp hproperties
    | null | bool | int | float | str | arr => exact Bool.noConfusion htype
  · rintro ⟨fields, rfl, hrequired, hclosed, hproperties⟩ p hp
    rcases List.mem_append.mp hp with hh | hp
    · exact holds_of_annotation format (hheader p hh) _ _ _
    · simp only [List.mem_cons, List.not_mem_nil, or_false] at hp
      rcases hp with rfl | rfl | rfl | rfl
      · rfl
      · simpa [holds, hdeclared, Json.fields, Json.valid] using hclosed
      · simpa [holds, assertion] using hrequired
      · exact (holds_properties format _ properties (.obj fields)).mpr hproperties

/-- A list of documents of one schema, of a least length if it has one. -/
def arraySchema (items : List (String × Json)) (minItems : Option Nat) : List (String × Json) :=
  [("type", .str "array"), ("items", .obj items)] ++
    minItems.toList.map (fun n => ("minItems", Json.int n))

theorem valid_arraySchema_iff {items : List (String × Json)} {minItems : Option Nat} (doc : Json) :
    (Json.obj (arraySchema items minItems)).valid format doc = true ↔
      ∃ elements, doc = .arr elements ∧ minItems.getD 0 ≤ elements.length ∧
        ∀ element ∈ elements, (Json.obj items).valid format element = true := by
  rw [valid_obj_iff]
  cases doc with
  | arr elements =>
      simp only [Json.arr.injEq, exists_eq_left']
      cases minItems <;>
        simp [arraySchema, holds, assertion, isOfType, Json.elements, and_comm]
  | null | bool | int | float | str | obj =>
      refine iff_of_false (fun h => ?_) (fun ⟨_, h, _⟩ => by cases h)
      exact Bool.noConfusion (h ("type", .str "array") List.mem_cons_self)

end Validity

end Lib
