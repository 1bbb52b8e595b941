import Mathlib.Algebra.GroupWithZero.Nat
import TechScreen.Lib.JsonText

/-!
# Writing Values as JSON

The values of a scripting language and the text that its `json.dumps` writes for
them, with `str` as the default for what JSON does not have. The default is for
values only. A key is written as a string if it is a scalar that JSON has, and
otherwise nothing is written at all.

A float that is not finite is written as a word, and then the text is not JSON. An
integer of more digits than the language converts is not written. Nor is a container
that holds itself, or one that lies deeper than the interpreter's recursion limit
leaves room for: each container takes a level, and so does the default.

## Main definitions

* `Value`: A value.
* `encode`: The tree that is written for a value.
* `dumps`: The text that is written for a value.
* `Value.native`: The text of the value is JSON, if there is room for it.
* `Value.depth`: The room that it takes.

## Theorems

* `exists_encode_iff`: When the text of a value is JSON.
-/

namespace Lib.Dumps

open Lib.JsonText

section Values

/-- A float, by what `repr` gives for it. -/
inductive Real where
  | finite (repr : Literal)
  | nonfinite (f : Nonfinite)

/-- A key of a dictionary. Of one that is no scalar of JSON, the type. -/
inductive Key where
  | none
  | bool (b : Bool)
  | int (n : Int)
  | float (r : Real)
  | str (s : String)
  | other (typeName : String)

/-- A value. A tuple is a list, and of a value that JSON does not have, what `str` gives for
    it is all that is read. A container that holds itself has one of the containers that
    enclose it where it does. -/
inductive Value where
  | none
  | bool (b : Bool)
  | int (n : Int)
  | float (r : Real)
  | str (s : String)
  | list (items : List Value)
  | dict (entries : List (Key × Value))
  | enclosing
  | other (text : String)

inductive Unwritable where
  | typeError (message : String)
  | valueError (message : String)
  | recursionError (message : String)
  deriving DecidableEq

end Values

section Numerals

/-- An integer that is converted to digits. -/
def Convertible (n : Int) : Prop := n.natAbs < 10 ^ 4300

instance (n : Int) : Decidable (Convertible n) := inferInstanceAs (Decidable (_ < _))

/-- The digits of a number that is not zero do not start with a zero. -/
theorem head_toDigits {n : Nat} (h : n ≠ 0) : (Nat.toDigits 10 n).head? ≠ some '0' := by
  induction n using Nat.strongRecOn with
  | ind n ih =>
      by_cases hlt : n < 10
      · have hdigit : ∀ m < 10, m ≠ 0 → Nat.digitChar m ≠ '0' := by decide
        rw [Nat.toDigits_of_lt_base hlt]
        intro hhead
        exact hdigit n hlt h (Option.some.inj hhead)
      · have hdiv : n / 10 ≠ 0 := by omega
        have hhead := ih (n / 10) (by omega) hdiv
        rw [Nat.toDigits_of_base_le (by decide) (by omega)]
        rwa [List.head?_append_of_ne_nil _ Nat.toDigits_ne_nil]

theorem isIntegral_toDigits (n : Nat) : isIntegral (Nat.toDigits 10 n) = true := by
  unfold isIntegral
  by_cases hzero : n = 0
  · subst hzero
    rfl
  · rw [Bool.or_eq_true, Bool.and_eq_true]
    refine Or.inr ⟨bne_iff_ne.mpr Nat.toDigits_ne_nil, bne_iff_ne.mpr (head_toDigits hzero)⟩

theorem isNumber_numeral (n : Int) : isNumber (numeral n) = true := by
  have hdigits (m : Nat) : (isIntegral ((Nat.toDigits 10 m).takeWhile Char.isDigit) &&
      isFraction ((Nat.toDigits 10 m).dropWhile Char.isDigit)) = true := by
    have hall : ∀ c ∈ Nat.toDigits 10 m, c.isDigit = true :=
      fun c hc => Nat.isDigit_of_mem_toDigits (by decide) (by decide) hc
    rw [List.takeWhile_eq_self_iff.mpr hall, List.dropWhile_eq_nil_iff.mpr hall,
      isIntegral_toDigits]
    rfl
  cases n with
  | ofNat m =>
      unfold isNumber numeral
      dsimp only
      split
      · next rest h =>
          have hmem : '-' ∈ Nat.toDigits 10 m := h ▸ List.mem_cons_self
          exact absurd (Nat.isDigit_of_mem_toDigits (by decide) (by decide) hmem) (by decide)
      · exact hdigits m
  | negSucc m => exact hdigits (m + 1)

end Numerals

section Writing

/-- `int.__repr__`. -/
def intRepr (n : Int) : Except Unwritable (List Char) :=
  if Convertible n then .ok (numeral n)
  else .error (.valueError
    ("Exceeds the limit (4300 digits) for integer string conversion; " ++
      "use sys.set_int_max_str_digits() to increase the limit"))

/-- The string that is written for a key. -/
def encodeKey : Key → Except Unwritable (List Char)
  | .none => .ok "null".toList
  | .bool b => .ok (if b then "true".toList else "false".toList)
  | .int n => intRepr n
  | .float (.finite repr) => .ok repr.val
  | .float (.nonfinite f) => .ok f.word
  | .str s => .ok s.toList
  | .other typeName =>
      .error (.typeError s!"keys must be str, int, float, bool or None, not {typeName}")

/-- Enter one more level, if there is room. -/
def entered {α : Type} (write : Nat → Except Unwritable α) : Nat → Except Unwritable α
  | 0 => .error (.recursionError
      "maximum recursion depth exceeded while encoding a JSON object")
  | room + 1 => write room

@[simp] theorem entered_succ {α : Type} (write : Nat → Except Unwritable α) (room : Nat) :
    entered write (room + 1) = write room := rfl

mutual

/-- The tree that is written for a value in so much room, with `str` for what JSON does not
    have. -/
def encode : Value → Nat → Except Unwritable Tree
  | .none => fun _ => .ok .null
  | .bool b => fun _ => .ok (.bool b)
  | .int n => fun _ => (intRepr n).map (fun _ => .number ⟨numeral n, isNumber_numeral n⟩)
  | .float (.finite repr) => fun _ => .ok (.number repr)
  | .float (.nonfinite f) => fun _ => .ok (.nonfinite f)
  | .str s => fun _ => .ok (.str s.toList)
  | .list items => entered (fun room => (encodeItems items room).map .arr)
  | .dict entries => entered (fun room => (encodeEntries entries room).map .obj)
  | .enclosing => entered (fun _ => .error (.valueError "Circular reference detected"))
  | .other text => entered (fun _ => .ok (.str text.toList))

def encodeItems : List Value → Nat → Except Unwritable (List Tree)
  | [], _ => .ok []
  | item :: items, room => do
      let tree ← encode item room
      let trees ← encodeItems items room
      .ok (tree :: trees)

def encodeEntries : List (Key × Value) → Nat → Except Unwritable (List (List Char × Tree))
  | [], _ => .ok []
  | (key, value) :: entries, room => do
      let name ← encodeKey key
      let tree ← encode value room
      let members ← encodeEntries entries room
      .ok ((name, tree) :: members)

end

/-- `json.dumps(value, ensure_ascii=False, default=str)`, when the interpreter has so many
    levels left before its recursion limit. -/
def dumps (value : Value) (room : Nat) : Except Unwritable String :=
  (encode value room).map (fun tree => String.ofList tree.render)

end Writing

section Native

/-- The key is written. -/
def Key.native : Key → Bool
  | .int n => decide (Convertible n)
  | .other _ => false
  | .none | .bool _ | .float _ | .str _ => true

mutual

/-- The text of the value is JSON, if there is room for it: every key is a scalar of JSON,
    every integer is converted, every float is finite, and no container holds itself. -/
def Value.native : Value → Bool
  | .int n => decide (Convertible n)
  | .float (.nonfinite _) => false
  | .list items => nativeItems items
  | .dict entries => nativeEntries entries
  | .enclosing => false
  | .none | .bool _ | .float (.finite _) | .str _ | .other _ => true

def nativeItems : List Value → Bool
  | [] => true
  | item :: items => item.native && nativeItems items

def nativeEntries : List (Key × Value) → Bool
  | [] => true
  | (key, value) :: entries => key.native && value.native && nativeEntries entries

end

mutual

/-- The levels that writing a value takes: one for each container on the way, and one for
    the default. -/
def Value.depth : Value → Nat
  | .list items => depthItems items + 1
  | .dict entries => depthEntries entries + 1
  | .enclosing | .other _ => 1
  | .none | .bool _ | .int _ | .float _ | .str _ => 0

def depthItems : List Value → Nat
  | [] => 0
  | item :: items => max item.depth (depthItems items)

def depthEntries : List (Key × Value) → Nat
  | [] => 0
  | (_, value) :: entries => max value.depth (depthEntries entries)

end

theorem intRepr_of_convertible {n : Int} (h : Convertible n) : intRepr n = .ok (numeral n) :=
  if_pos h

theorem encodeKey_isOk (key : Key) : (∃ name, encodeKey key = .ok name) ↔ key.native = true := by
  cases key with
  | none | bool | str => exact ⟨fun _ => rfl, fun _ => ⟨_, rfl⟩⟩
  | float r =>
      cases r with
      | finite | nonfinite => exact ⟨fun _ => rfl, fun _ => ⟨_, rfl⟩⟩
  | int n =>
      rw [Key.native, decide_eq_true_eq]
      refine ⟨fun ⟨name, h⟩ => ?_, fun h => ⟨_, intRepr_of_convertible h⟩⟩
      by_contra hlong
      rw [encodeKey, intRepr, if_neg hlong] at h
      cases h
  | other typeName =>
      refine ⟨fun ⟨name, h⟩ => ?_, fun h => ?_⟩
      · cases h
      · cases h

/-- There is room for one more level. -/
theorem entered_iff {α : Type} {write : Nat → Except Unwritable α} {room depth : Nat}
    {finite : α → Bool} {native : Bool}
    (h : ∀ room, (∃ a, write room = .ok a ∧ finite a = true) ↔ native = true ∧ depth ≤ room) :
    (∃ a, entered write room = .ok a ∧ finite a = true) ↔
      native = true ∧ depth + 1 ≤ room := by
  cases room with
  | zero =>
      refine iff_of_false ?_ (fun hroom => by omega)
      rintro ⟨a, ha, -⟩
      cases ha
  | succ room => rw [entered_succ, h, Nat.add_le_add_iff_right]

/-- A computation that is mapped by a constructor. -/
theorem exists_map_iff {α β : Type} {x : Except Unwritable α} {f : α → β} {finite : β → Bool} :
    (∃ b, x.map f = .ok b ∧ finite b = true) ↔ ∃ a, x = .ok a ∧ finite (f a) = true := by
  cases x with
  | error e =>
      constructor
      · rintro ⟨b, h, -⟩
        cases h
      · rintro ⟨a, h, -⟩
        cases h
  | ok a =>
      constructor
      · rintro ⟨b, h, hfinite⟩
        cases h
        exact ⟨a, rfl, hfinite⟩
      · rintro ⟨a', h, hfinite⟩
        cases h
        exact ⟨f a, rfl, hfinite⟩

/-- A leaf that is written as JSON. -/
theorem exists_ok_of_finite {value : Value} {tree : Tree} {room : Nat}
    (h : encode value room = .ok tree) (hfinite : tree.finite = true)
    (hnative : value.native = true) (hdepth : value.depth = 0) :
    (∃ tree, encode value room = .ok tree ∧ tree.finite = true) ↔
      value.native = true ∧ value.depth ≤ room :=
  ⟨fun _ => ⟨hnative, by omega⟩, fun _ => ⟨tree, h, hfinite⟩⟩

mutual

/-- A value is written as JSON exactly when it is native and there is room for it. -/
theorem exists_encode_iff : ∀ (value : Value) (room : Nat),
    (∃ tree, encode value room = .ok tree ∧ tree.finite = true) ↔
      value.native = true ∧ value.depth ≤ room
  | .none, _ => exists_ok_of_finite rfl rfl rfl rfl
  | .bool _, _ => exists_ok_of_finite rfl rfl rfl rfl
  | .int n, room => by
      rw [encode, Value.native, decide_eq_true_eq, Value.depth,
        and_iff_left (Nat.zero_le room)]
      refine ⟨fun ⟨tree, h, _⟩ => ?_, fun h => ⟨.number ⟨numeral n, isNumber_numeral n⟩, ?_, rfl⟩⟩
      · by_contra hlong
        rw [intRepr, if_neg hlong] at h
        cases h
      · rw [intRepr_of_convertible h]
        rfl
  | .float (.finite _), _ => exists_ok_of_finite rfl rfl rfl rfl
  | .float (.nonfinite _), _ => by
      refine ⟨fun ⟨tree, h, hfinite⟩ => ?_, fun h => by cases h.1⟩
      cases h
      cases hfinite
  | .str _, _ => exists_ok_of_finite rfl rfl rfl rfl
  -- A container takes a level of its own, and its members have one less.
  | .list items, room => by
      rw [encode, Value.native, Value.depth]
      exact entered_iff (fun room => exists_map_iff.trans (exists_encodeItems_iff items room))
  | .dict entries, room => by
      rw [encode, Value.native, Value.depth]
      exact entered_iff (fun room => exists_map_iff.trans (exists_encodeEntries_iff entries room))
  -- A value that encloses itself is found out at any depth.
  | .enclosing, room => by
      refine iff_of_false ?_ (fun h => by cases h.1)
      rintro ⟨tree, h, -⟩
      cases room <;> cases h
  -- What `default` turns into a text counts as a level, too.
  | .other text, room => by
      rw [encode, Value.native, Value.depth]
      exact entered_iff (fun room => iff_of_true ⟨.str text.toList, rfl, rfl⟩
        ⟨rfl, Nat.zero_le room⟩)

theorem exists_encodeItems_iff : ∀ (items : List Value) (room : Nat),
    (∃ trees, encodeItems items room = .ok trees ∧ finiteItems trees = true) ↔
      nativeItems items = true ∧ depthItems items ≤ room
  | [], room => ⟨fun _ => ⟨rfl, Nat.zero_le room⟩, fun _ => ⟨[], rfl, rfl⟩⟩
  | item :: items, room => by
      have hitem := exists_encode_iff item room
      have hitems := exists_encodeItems_iff items room
      rw [encodeItems, nativeItems, depthItems, Bool.and_eq_true, Nat.max_le,
        and_and_and_comm, ← hitem, ← hitems]
      constructor
      · rintro ⟨trees, h, hfinite⟩
        cases htree : encode item room with
        | error e =>
            rw [htree] at h
            cases h
        | ok tree =>
            cases hrest : encodeItems items room with
            | error e =>
                rw [htree, hrest] at h
                cases h
            | ok rest =>
                rw [htree, hrest] at h
                cases h
                obtain ⟨hone, hmore⟩ := Bool.and_eq_true_iff.mp hfinite
                exact ⟨⟨tree, rfl, hone⟩, rest, rfl, hmore⟩
      · rintro ⟨⟨tree, htree, hone⟩, rest, hrest, hmore⟩
        refine ⟨tree :: rest, by rw [htree, hrest]; rfl, ?_⟩
        rw [finiteItems, hone, hmore]
        rfl

theorem exists_encodeEntries_iff : ∀ (entries : List (Key × Value)) (room : Nat),
    (∃ members, encodeEntries entries room = .ok members ∧ finiteMembers members = true) ↔
      nativeEntries entries = true ∧ depthEntries entries ≤ room
  | [], room => ⟨fun _ => ⟨rfl, Nat.zero_le room⟩, fun _ => ⟨[], rfl, rfl⟩⟩
  | (key, value) :: entries, room => by
      have hkey := encodeKey_isOk key
      have hvalue := exists_encode_iff value room
      have hentries := exists_encodeEntries_iff entries room
      rw [encodeEntries, nativeEntries, depthEntries, Bool.and_eq_true, Bool.and_eq_true,
        Nat.max_le, and_and_and_comm, @and_assoc (key.native = true), ← hkey, ← hvalue,
        ← hentries]
      constructor
      · rintro ⟨members, h, hfinite⟩
        -- What is written has a key, a value and a rest that were.
        cases hname : encodeKey key with
        | error e =>
            rw [hname] at h
            cases h
        | ok name =>
            cases htree : encode value room with
            | error e =>
                rw [hname, htree] at h
                cases h
            | ok tree =>
                cases hrest : encodeEntries entries room with
                | error e =>
                    rw [hname, htree, hrest] at h
                    cases h
                | ok rest =>
                    rw [hname, htree, hrest] at h
                    cases h
                    obtain ⟨hone, hmore⟩ := Bool.and_eq_true_iff.mp hfinite
                    exact ⟨⟨⟨name, rfl⟩, tree, rfl, hone⟩, rest, rfl, hmore⟩
      · rintro ⟨⟨⟨name, hname⟩, tree, htree, hone⟩, rest, hrest, hmore⟩
        refine ⟨(name, tree) :: rest, by rw [hname, htree, hrest]; rfl, ?_⟩
        rw [finiteMembers, hone, hmore]
        rfl

end

end Native

end Lib.Dumps
