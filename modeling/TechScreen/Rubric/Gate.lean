import Mathlib.Data.List.Sort
import Mathlib.Data.String.Basic
import TechScreen.Lib.Json

/-!
# The Destructive-Change Gate

The policy check a push of rubric documents has to pass. It compares the
documents before and after and reports every stable id that disappeared, every
node that was retired or brought back, and every level of an active node that
was removed or described anew. The check reads the documents as they are parsed,
before any schema has seen them, so a document it cannot index makes it fail.

A finding is about one node, and a node without findings is still there, is
retired if and only if it was, and has kept its levels if it is active. That
relation is a preorder on indexes, and `detect_eq_nil_iff` identifies it with an
empty report. A change that draws a finding therefore draws one however it is
split, and the only documents that do not compare clean with themselves are
those on which the check does not return.

## Main definitions

* `Conversions`: How values other than plain ones are told and parsed.
* `indexNodes`: Every node of the documents by its stable id.
* `detectDestructiveChanges`: The findings.
* `Node.Kept`, `Index.Kept`: Nothing in a node, or in any, draws a finding.

## Theorems

* `detect_eq_nil_iff`: An empty report says that every node is kept.
* `detect_self`: Documents compared with themselves draw no finding.
* `split_change_refused`: A change without findings in its parts has none.
-/

namespace TechScreen.Rubric.Gate

open Lib

section Values

/-- What the gate raises on documents it cannot read. -/
inductive GateError where
  | keyError (key : String)
  | typeError
  | valueError
  | attributeError
  deriving DecidableEq

/-- `int(s)` on a string that is a numeral, and `str(v)` on a float or a
    container. -/
structure Conversions where
  parse : String → Option Int
  repr : Json → String

/-- `bool(v)`. -/
def truthy : Json → Bool
  | .null => false
  | .bool b => b
  | .int n => n != 0
  | .float q => q != 0
  | .str s => s != ""
  | .arr items => !items.isEmpty
  | .obj fields => !fields.isEmpty

/-- The values `for x in v or []` goes through. -/
def iterate (v : Json) : Except GateError (List Json) :=
  if truthy v then
    match v with
    | .arr items => .ok items
    | .obj fields => .ok (fields.map (fun p => .str p.1))
    | .str s => .ok (s.toList.map (fun c => .str (String.singleton c)))
    | _ => .error .typeError
  else .ok []

/-- `v.get(key, default)`. -/
def getOr (default : Json) (key : String) : Json → Except GateError Json
  | .obj fields => .ok ((fields.lookup key).getD default)
  | _ => .error .attributeError

/-- `v[key]`. -/
def subscript (key : String) : Json → Except GateError Json
  | .obj fields =>
      match fields.lookup key with
      | some v => .ok v
      | none => .error (.keyError key)
  | _ => .error .typeError

/-- `int(v)`: a float is cut off towards zero. -/
def toInt (conv : Conversions) : Json → Except GateError Int
  | .bool b => .ok b.toInt
  | .int n => .ok n
  | .float q => .ok (q.num.tdiv q.den)
  | .str s =>
      match conv.parse s with
      | some n => .ok n
      | none => .error .valueError
  | .null | .arr _ | .obj _ => .error .typeError

/-- `str(v)`. -/
def toStr (conv : Conversions) : Json → String
  | .null => "None"
  | .bool b => if b then "True" else "False"
  | .int n => toString n
  | .str s => s
  | v => conv.repr v

end Values

section Source

inductive Severity where
  | forbidden
  | destructive
  deriving DecidableEq

inductive Kind where
  | nodeRemoved
  | nodeRetired
  | nodeUnretired
  | levelRemoved
  | levelRetyped
  deriving DecidableEq

structure Finding where
  severity : Severity
  kind : Kind
  detail : String
  deriving DecidableEq

/-- What the gate looks at in a node. -/
structure Node where
  retired : Bool
  levels : Dict Int String

/-- Every `{filename: parsed-doc}`. -/
abbrev Payload := Dict String Json

abbrev Index := Dict String Node

variable (conv : Conversions)

def indexLevel (lvl : Json) : Except GateError (Int × String) := do
  let rank ← toInt conv (← subscript "level" lvl)
  let descriptor ← getOr (.str "") "descriptor_en" lvl
  return (rank, toStr conv descriptor)

/-- One node of a document, with its stable id. -/
def indexNode (stackRetired : Bool) (node : Json) : Except GateError (String × Node) := do
  let levels ← (← iterate (← getOr .null "levels" node)).mapM (indexLevel conv)
  let retired ← getOr (.bool false) "retired" node
  let id ← subscript "id" node
  return (toStr conv id, ⟨stackRetired || truthy retired, Dict.ofList levels⟩)

def indexDoc (doc : Json) : Except GateError (List (String × Node)) := do
  let stackRetired := truthy (← getOr (.bool false) "retired" doc)
  (← iterate (← getOr .null "nodes" doc)).mapM (indexNode conv stackRetired)

/-- All documents flattened: of two nodes with one id the last wins. -/
def indexNodes (docs : Payload) : Except GateError Index := do
  let nodes ← docs.entries.mapM (fun p => indexDoc conv p.2)
  return Dict.ofList nodes.flatten

def levelFindings (id : String) (rank : Int) (oldDesc : String) : Option String → List Finding
  | none => [⟨.destructive, .levelRemoved, s!"'{id}' level {rank} removed"⟩]
  | some newDesc =>
      if newDesc ≠ oldDesc then
        [⟨.destructive, .levelRetyped,
          s!"'{id}' level {rank} descriptor_en changed " ++
            "(assessment semantics shift going forward)"⟩]
      else []

def retiredFindings (id : String) (old new : Node) : List Finding :=
  if !old.retired && new.retired then
    [⟨.destructive, .nodeRetired, s!"'{id}' goes active -> retired"⟩]
  else if old.retired && !new.retired then
    [⟨.destructive, .nodeUnretired,
      s!"'{id}' goes retired -> active (ids are never reused after retire)"⟩]
  else []

/-- `sorted` on the keys of a dictionary. -/
def sortedEntries {α β : Type} [LE α] [DecidableLE α] (d : List (α × β)) : List (α × β) :=
  d.insertionSort (fun p q => p.1 ≤ q.1)

def nodeFindings (id : String) (old : Node) : Option Node → List Finding
  | none =>
      [⟨.forbidden, .nodeRemoved,
        s!"stable id '{id}' disappeared from the payload — ids are never " ++
          "deleted or renamed; set 'retired: true' instead (specs/010 FR-009)"⟩]
  | some new =>
      retiredFindings id old new ++
        -- Levels are compared only between two active nodes.
        if old.retired || new.retired then []
        else (sortedEntries old.levels.entries).flatMap
          (fun p => levelFindings id p.1 p.2 (new.levels.get? p.1))

/-- The findings between two indexes. -/
def findings (old new : Index) : List Finding :=
  (sortedEntries old.entries).flatMap (fun p => nodeFindings p.1 p.2 (new.get? p.1))

def detectDestructiveChanges (baseline current : Payload) : Except GateError (List Finding) := do
  let old ← indexNodes conv baseline
  let new ← indexNodes conv current
  return findings old new

end Source

section Kept

/-- The node is retired if and only if it was, and an active one has its levels
    unchanged. -/
structure Node.Kept (old new : Node) : Prop where
  retired : new.retired = old.retired
  levels : old.retired = false → ∀ rank desc, old.levels.get? rank = some desc →
    new.levels.get? rank = some desc

/-- Every node is still there and kept. -/
def Index.Kept (old new : Index) : Prop :=
  ∀ id node, old.get? id = some node → ∃ node', new.get? id = some node' ∧ node.Kept node'

theorem Node.Kept.refl (n : Node) : n.Kept n := ⟨rfl, fun _ _ _ h => h⟩

theorem Node.Kept.trans {a b c : Node} (hab : a.Kept b) (hbc : b.Kept c) : a.Kept c where
  retired := hbc.retired.trans hab.retired
  levels := by
    intro hactive rank desc hget
    -- The node in the middle is active as well, so its levels were compared too.
    have hmid : b.retired = false := hab.retired.trans hactive
    exact hbc.levels hmid rank desc (hab.levels hactive rank desc hget)

theorem Index.Kept.refl (i : Index) : Index.Kept i i :=
  fun _ node h => ⟨node, h, Node.Kept.refl node⟩

theorem Index.Kept.trans {a b c : Index} (hab : Index.Kept a b) (hbc : Index.Kept b c) :
    Index.Kept a c := by
  intro id node hget
  obtain ⟨node', hget', hkept⟩ := hab id node hget
  obtain ⟨node'', hget'', hkept'⟩ := hbc id node' hget'
  exact ⟨node'', hget'', hkept.trans hkept'⟩

theorem levelFindings_eq_nil_iff (id : String) (rank : Int) (oldDesc : String)
    (newDesc : Option String) :
    levelFindings id rank oldDesc newDesc = [] ↔ newDesc = some oldDesc := by
  cases newDesc with
  | none => simp only [levelFindings, List.cons_ne_nil, reduceCtorEq]
  | some desc =>
      by_cases h : desc = oldDesc
      · simp only [levelFindings, h, ne_eq, not_true_eq_false, if_false]
      · simp only [levelFindings, h, ne_eq, not_false_eq_true, if_true, List.cons_ne_nil,
          Option.some.injEq]

theorem retiredFindings_eq_nil_iff (id : String) (old new : Node) :
    retiredFindings id old new = [] ↔ new.retired = old.retired := by
  unfold retiredFindings
  cases old.retired with
  | false => cases new.retired <;> simp
  | true => cases new.retired <;> simp

theorem mem_sortedEntries {α β : Type} [LE α] [DecidableLE α] (d : List (α × β)) (p : α × β) :
    p ∈ sortedEntries d ↔ p ∈ d :=
  (List.perm_insertionSort _ d).mem_iff

theorem nodeFindings_some_eq_nil_iff (id : String) (old new : Node) :
    nodeFindings id old (some new) = [] ↔ old.Kept new := by
  have hlevels : (sortedEntries old.levels.entries).flatMap
        (fun p => levelFindings id p.1 p.2 (new.levels.get? p.1)) = [] ↔
      ∀ rank desc, old.levels.get? rank = some desc → new.levels.get? rank = some desc := by
    simp only [List.flatMap_eq_nil_iff, mem_sortedEntries, levelFindings_eq_nil_iff, Prod.forall,
      Dict.get?_eq_some_iff]
  rw [nodeFindings, List.append_eq_nil_iff, retiredFindings_eq_nil_iff]
  constructor
  · rintro ⟨hretired, h⟩
    refine ⟨hretired, fun hactive => hlevels.mp ?_⟩
    rwa [if_neg (by rw [hretired, hactive]; decide)] at h
  · intro h
    refine ⟨h.retired, ?_⟩
    by_cases hactive : old.retired = false
    · rw [if_neg (by rw [h.retired, hactive]; decide)]
      exact hlevels.mpr (h.levels hactive)
    · rw [if_pos (by rw [Bool.not_eq_false] at hactive; rw [hactive, Bool.true_or])]

theorem nodeFindings_eq_nil_iff (id : String) (old : Node) (new : Option Node) :
    nodeFindings id old new = [] ↔ ∃ node', new = some node' ∧ old.Kept node' := by
  cases new with
  | none => simp only [nodeFindings, List.cons_ne_nil, reduceCtorEq, false_and, exists_false]
  | some node' =>
      rw [nodeFindings_some_eq_nil_iff]
      exact ⟨fun h => ⟨node', rfl, h⟩, fun ⟨_, heq, h⟩ => Option.some.inj heq ▸ h⟩

theorem findings_eq_nil_iff (old new : Index) : findings old new = [] ↔ Index.Kept old new := by
  simp only [findings, List.flatMap_eq_nil_iff, mem_sortedEntries, nodeFindings_eq_nil_iff,
    Prod.forall, Index.Kept, Dict.get?_eq_some_iff]

end Kept

section Gate

variable (conv : Conversions)

theorem detect_of_index {baseline current : Payload} {old new : Index}
    (ho : indexNodes conv baseline = .ok old) (hn : indexNodes conv current = .ok new) :
    detectDestructiveChanges conv baseline current = .ok (findings old new) := by
  rw [detectDestructiveChanges, ho, hn]
  rfl

/-- The gate returns only if it can index both sides. -/
theorem index_of_detect {baseline current : Payload} {found : List Finding}
    (h : detectDestructiveChanges conv baseline current = .ok found) :
    ∃ old new, indexNodes conv baseline = .ok old ∧ indexNodes conv current = .ok new ∧
      findings old new = found := by
  unfold detectDestructiveChanges at h
  cases ho : indexNodes conv baseline with
  | error e => rw [ho] at h; cases h
  | ok old =>
      cases hn : indexNodes conv current with
      | error e => rw [ho, hn] at h; cases h
      | ok new =>
          rw [ho, hn] at h
          exact ⟨old, new, rfl, rfl, Except.ok.inj h⟩

/-- An empty report says that both sides can be indexed and every node is
    kept. -/
theorem detect_eq_nil_iff (baseline current : Payload) :
    detectDestructiveChanges conv baseline current = .ok [] ↔
      ∃ old new, indexNodes conv baseline = .ok old ∧ indexNodes conv current = .ok new ∧
        Index.Kept old new := by
  constructor
  · intro h
    obtain ⟨old, new, ho, hn, hnil⟩ := index_of_detect conv h
    exact ⟨old, new, ho, hn, (findings_eq_nil_iff old new).mp hnil⟩
  · rintro ⟨old, new, ho, hn, hkept⟩
    rw [detect_of_index conv ho hn, (findings_eq_nil_iff old new).mpr hkept]

theorem detect_self {docs : Payload} {index : Index} (h : indexNodes conv docs = .ok index) :
    detectDestructiveChanges conv docs docs = .ok [] :=
  (detect_eq_nil_iff conv docs docs).mpr ⟨index, index, h, h, Index.Kept.refl index⟩

theorem detect_trans {a b c : Payload} (hab : detectDestructiveChanges conv a b = .ok [])
    (hbc : detectDestructiveChanges conv b c = .ok []) :
    detectDestructiveChanges conv a c = .ok [] := by
  obtain ⟨ia, ib, ha, hb, hkept⟩ := (detect_eq_nil_iff conv a b).mp hab
  obtain ⟨ib', ic, hb', hc, hkept'⟩ := (detect_eq_nil_iff conv b c).mp hbc
  -- The documents in the middle have one index.
  have heq : ib' = ib := Except.ok.inj (hb'.symm.trans hb)
  subst heq
  exact (detect_eq_nil_iff conv a c).mpr ⟨ia, ic, ha, hc, hkept.trans hkept'⟩

/-- No finding along a chain of changes means none between its ends. -/
theorem detect_of_chain (P : Nat → Payload) (n : Nat)
    (h : ∀ i < n + 1, detectDestructiveChanges conv (P i) (P (i + 1)) = .ok []) :
    detectDestructiveChanges conv (P 0) (P (n + 1)) = .ok [] := by
  induction n with
  | zero => exact h 0 Nat.zero_lt_one
  | succ n ih =>
      have hinit := ih (fun i hi => h i (Nat.lt_succ_of_lt hi))
      exact detect_trans conv hinit (h (n + 1) (Nat.lt_succ_self _))

/-- The gate knows no change that passes in parts and not as a whole: along a
    chain of payloads of any length an empty report on every step is an empty
    report on the whole, and a payload is compared clean with itself wherever
    the gate returns at all. -/
theorem split_change_refused :
    (∀ docs, (∃ index, indexNodes conv docs = .ok index ∧
          detectDestructiveChanges conv docs docs = .ok []) ∨
        ∃ e, indexNodes conv docs = .error e ∧
          detectDestructiveChanges conv docs docs = .error e) ∧
      ∀ (P : Nat → Payload) (n : Nat), 0 < n →
        (∀ i < n, detectDestructiveChanges conv (P i) (P (i + 1)) = .ok []) →
          detectDestructiveChanges conv (P 0) (P n) = .ok [] := by
  constructor
  · intro docs
    cases h : indexNodes conv docs with
    | ok index => exact Or.inl ⟨index, rfl, detect_self conv h⟩
    | error e =>
        refine Or.inr ⟨e, rfl, ?_⟩
        rw [detectDestructiveChanges, h]
        rfl
  · intro P n hpos h
    obtain ⟨m, rfl⟩ : ∃ m, n = m + 1 := ⟨n - 1, by omega⟩
    exact detect_of_chain conv P m h

/-- A node without an id, in a document nobody has validated. -/
def namelessPayload : Payload := Dict.ofList [("a.yaml", .obj [("nodes", .arr [.obj []])])]

/-- The gate does not return on every payload: a node without an id is a missing
    key. -/
theorem nameless_not_clean :
    ¬ ∀ (conv : Conversions) (docs : Payload),
      detectDestructiveChanges conv docs docs = .ok [] := by
  intro h
  have hclean := h ⟨fun _ => none, fun _ => ""⟩ namelessPayload
  have hraised : detectDestructiveChanges ⟨fun _ => none, fun _ => ""⟩ namelessPayload
      namelessPayload = .error (.keyError "id") := rfl
  rw [hraised] at hclean
  cases hclean

/-- One active competency with a level, at three successive pushes: a second
    level is described, then a second competency is added. -/
def growingPayload : Nat → Payload
  | 0 => Dict.ofList [("a.yaml", .obj [("nodes", .arr [.obj [("id", .str "a.b"),
      ("levels", .arr [.obj [("level", .int 1), ("descriptor_en", .str "reads")]])]])])]
  | 1 => Dict.ofList [("a.yaml", .obj [("nodes", .arr [.obj [("id", .str "a.b"),
      ("levels", .arr [.obj [("level", .int 1), ("descriptor_en", .str "reads")],
        .obj [("level", .int 2), ("descriptor_en", .str "writes")]])]])])]
  | _ => Dict.ofList [("a.yaml", .obj [("nodes", .arr [.obj [("id", .str "a.b"),
      ("levels", .arr [.obj [("level", .int 1), ("descriptor_en", .str "reads")],
        .obj [("level", .int 2), ("descriptor_en", .str "writes")]])]])]),
      ("b.yaml", .obj [("nodes", .arr [.obj [("id", .str "a.c")]])])]

theorem growingPayload_clean (conv : Conversions) :
    detectDestructiveChanges conv (growingPayload 0) (growingPayload 2) = .ok [] := by
  refine (split_change_refused conv).2 growingPayload 2 (by decide) ?_
  intro i hi
  obtain rfl | rfl : i = 0 ∨ i = 1 := by omega
  · rfl
  · rfl

end Gate

end TechScreen.Rubric.Gate
