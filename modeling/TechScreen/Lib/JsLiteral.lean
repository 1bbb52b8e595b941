import TechScreen.Lib.JsonText

/-!
# Literals of a Module

The constant literals of a module of JavaScript, as far as a writer of constants uses
them: strings, arrays and objects, whose keys are names or strings. A comma may stand
after the last item. Of two properties with one name the last one counts.

The strings are those of JSON, which the language reads in the same way. A key
`__proto__` sets no property, and is not read here.

## Main definitions

* `Literal`: A literal, as a tree.
* `scanValue`: The literal at the beginning of a text.
* `exported`: The literal of a constant that a module exports.
* `Literal.textAt`: The string at a path of properties.

## Theorems

* `scanValue_str`, `scanItems_cons`, `scanMembers_cons`: How each form is read.
* `exported_eq`: How a module is read.
* `member_eq_some_iff`: The properties of an object.
-/

namespace Lib.JsLiteral

open JsonText (skip scanString quote escape)

section Literals

/-- A literal, as a tree. -/
inductive Literal where
  | str (s : List Char)
  | arr (items : List Literal)
  | obj (members : List (List Char × Literal))

mutual

/-- All keys in a literal. -/
def Literal.keys : Literal → List (List Char)
  | .str _ => []
  | .arr items => itemKeys items
  | .obj members => memberKeys members

def itemKeys : List Literal → List (List Char)
  | [] => []
  | item :: items => item.keys ++ itemKeys items

def memberKeys : List (List Char × Literal) → List (List Char)
  | [] => []
  | (key, value) :: members => key :: value.keys ++ memberKeys members

end

/-- A property of an object. -/
def Literal.member (key : List Char) : Literal → Option Literal
  | .obj members => members.reverse.lookup key
  | _ => none

/-- The string at a path of properties. -/
def Literal.textAt : Literal → List (List Char) → Option (List Char)
  | .str s, [] => some s
  | _, [] => none
  | literal, key :: path =>
      match literal.member key with
      | some value => value.textAt path
      | none => none

end Literals

section Reading

def isNameStart (c : Char) : Bool := c.isAlpha || c == '_' || c == '$'

def isNameChar (c : Char) : Bool := c.isAlphanum || c == '_' || c == '$'

/-- A match of `/^[a-zA-Z_$][a-zA-Z0-9_$]*$/`. -/
def isName : List Char → Bool
  | [] => false
  | c :: cs => isNameStart c && cs.all isNameChar

/-- The key at the beginning of a text, and what follows it. -/
def scanName (text : List Char) : Option (List Char × List Char) :=
  match text with
  | '"' :: cs => scanString cs
  | cs =>
      if isName (cs.takeWhile isNameChar) then
        some (cs.takeWhile isNameChar, cs.dropWhile isNameChar)
      else none

/-- The key that sets no property. -/
def proto : List Char := "__proto__".toList

def scanKey (text : List Char) : Option (List Char × List Char) :=
  (scanName text).filter (fun p => p.1 != proto)

mutual

/-- The literal at the beginning of a text, and what follows it. -/
def scanValue : Nat → List Char → Option (Literal × List Char)
  | 0, _ => none
  | fuel + 1, cs =>
      match skip cs with
      | '"' :: rest => (scanString rest).map (fun p => (.str p.1, p.2))
      | '[' :: rest => (scanItems fuel rest).map (fun p => (.arr p.1, p.2))
      | '\x7b' :: rest => (scanMembers fuel rest).map (fun p => (.obj p.1, p.2))
      | _ => none

/-- The items of an array, up to its end. -/
def scanItems : Nat → List Char → Option (List Literal × List Char)
  | 0, _ => none
  | fuel + 1, cs =>
      match skip cs with
      | ']' :: rest => some ([], rest)
      | cs =>
          match scanValue fuel cs with
          | none => none
          | some (item, rest) =>
              match skip rest with
              | ']' :: rest => some ([item], rest)
              | ',' :: rest => (scanItems fuel rest).map (fun p => (item :: p.1, p.2))
              | _ => none

/-- The members of an object, up to its end. -/
def scanMembers : Nat → List Char → Option (List (List Char × Literal) × List Char)
  | 0, _ => none
  | fuel + 1, cs =>
      match skip cs with
      | '\x7d' :: rest => some ([], rest)
      | cs =>
          match scanKey cs with
          | none => none
          | some (key, rest) =>
              match skip rest with
              | ':' :: rest =>
                  match scanValue fuel rest with
                  | none => none
                  | some (value, rest) =>
                      match skip rest with
                      | '\x7d' :: rest => some ([(key, value)], rest)
                      | ',' :: rest =>
                          (scanMembers fuel rest).map (fun p => ((key, value) :: p.1, p.2))
                      | _ => none
              | _ => none

end

/-- What ends a line. -/
def breaks : List Nat := [10, 13, 0x2028, 0x2029]

/-- A text without the line comments at its beginning, or what is left of one. -/
def dropComments : Bool → List Char → List Char
  | _, [] => []
  | true, c :: cs => dropComments (!(breaks.contains c.toNat)) cs
  | false, '/' :: '/' :: cs => dropComments true cs
  | false, c :: cs => c :: cs

/-- The literal of a constant that is the first thing a module exports. -/
def exported (name text : List Char) : Option Literal :=
  let start := "export const ".toList ++ name ++ " = ".toList
  let module := dropComments false text
  if start <+: module then
    match scanValue (text.length + 1) (module.drop start.length) with
    | some (literal, rest) => if " as const;".toList <+: rest then some literal else none
    | none => none
  else none

end Reading

section Rules
variable {fuel : Nat} {lead cs rest key : List Char} {c : Char} {item value : Literal}

/-- A key as it is written: without quotes if it is a name. -/
def writeKey (key : List Char) : List Char := if isName key then key else quote key

theorem skip_append (hlead : ∀ c ∈ lead, JsonText.isWhitespace c = true) (cs : List Char) :
    skip (lead ++ cs) = skip cs := by
  unfold skip
  exact List.dropWhile_append_of_pos hlead

theorem scanKey_writeKey (hkey : key ≠ proto) (rest : List Char) :
    scanKey (writeKey key ++ ':' :: rest) = some (key, ':' :: rest) := by
  have hname : scanName (writeKey key ++ ':' :: rest) = some (key, ':' :: rest) := by
    by_cases h : isName key = true
    · -- A key that is written bare consists of characters of names.
      have hall : ∀ c ∈ key, isNameChar c = true := by
        cases key with
        | nil => cases h
        | cons c cs =>
            rw [isName, Bool.and_eq_true, List.all_eq_true] at h
            refine List.forall_mem_cons.mpr ⟨?_, h.2⟩
            have hstart := h.1
            simp only [isNameStart, isNameChar, Char.isAlphanum, Bool.or_eq_true] at hstart ⊢
            rcases hstart with (halpha | hunder) | hdollar
            · exact Or.inl (Or.inl (Or.inl halpha))
            · exact Or.inl (Or.inr hunder)
            · exact Or.inr hdollar
      -- The colon ends it.
      have htake : (key ++ ':' :: rest).takeWhile isNameChar = key := by
        rw [List.takeWhile_append_of_pos hall, List.takeWhile_cons_of_neg (by decide),
          List.append_nil]
      have hdrop : (key ++ ':' :: rest).dropWhile isNameChar = ':' :: rest := by
        rw [List.dropWhile_append_of_pos hall, List.dropWhile_cons_of_neg (by decide)]
      rw [writeKey, if_pos h, scanName.eq_2, htake, hdrop, if_pos h]
      rintro tail htail
      cases key with
      | nil => cases h
      | cons c cs =>
          rw [List.cons_append, List.cons.injEq] at htail
          have hquote := hall c List.mem_cons_self
          rw [htail.1] at hquote
          exact absurd hquote (by decide)
    · -- Any other key is written as a string.
      rw [writeKey, if_neg h, quote, List.append_assoc]
      exact JsonText.scanString_quote key _
  rw [scanKey, hname, Option.filter_some, if_pos]
  exact bne_iff_ne.mpr hkey

theorem scanValue_str (fuel : Nat) (s rest : List Char) :
    scanValue (fuel + 1) (quote s ++ rest) = some (.str s, rest) := by
  have hscan : scanValue (fuel + 1) (quote s ++ rest) =
      (scanString (s.flatMap escape ++ '"' :: rest)).map (fun p => (.str p.1, p.2)) := by
    rw [quote, List.append_assoc]
    rfl
  rw [hscan, JsonText.scanString_quote]
  rfl

theorem scanValue_arr (fuel : Nat) (cs : List Char) :
    scanValue (fuel + 1) ('[' :: cs) = (scanItems fuel cs).map (fun p => (.arr p.1, p.2)) := rfl

theorem scanValue_obj (fuel : Nat) (cs : List Char) : scanValue (fuel + 1) ('\x7b' :: cs) =
    (scanMembers fuel cs).map (fun p => (.obj p.1, p.2)) := rfl

theorem scanValue_blank (fuel : Nat) (cs : List Char) :
    scanValue fuel (' ' :: cs) = scanValue fuel cs := by
  cases fuel with
  | zero => rfl
  | succ fuel => rw [scanValue, JsonText.skip_blank, scanValue]

theorem scanItems_blank (fuel : Nat) (cs : List Char) :
    scanItems fuel (' ' :: cs) = scanItems fuel cs := by
  cases fuel with
  | zero => rfl
  | succ fuel => rw [scanItems, JsonText.skip_blank, scanItems]

/-- The last item of an array. -/
theorem scanItems_last (hskip : skip cs = cs) (hfirst : cs.head? ≠ some ']')
    (hitem : scanValue fuel cs = some (item, ']' :: rest)) :
    scanItems (fuel + 1) cs = some ([item], rest) := by
  rw [scanItems, hskip]
  split
  · exact absurd rfl hfirst
  · rw [hitem]
    rfl

/-- An item with others after it. -/
theorem scanItems_cons (hskip : skip cs = cs) (hfirst : cs.head? ≠ some ']')
    (hitem : scanValue fuel cs = some (item, ',' :: rest)) :
    scanItems (fuel + 1) cs = (scanItems fuel rest).map (fun p => (item :: p.1, p.2)) := by
  rw [scanItems, hskip]
  split
  · exact absurd rfl hfirst
  · rw [hitem]
    rfl

theorem scanMembers_close (hlead : ∀ c ∈ lead, JsonText.isWhitespace c = true) (fuel : Nat)
    (rest : List Char) : scanMembers (fuel + 1) (lead ++ '\x7d' :: rest) = some ([], rest) := by
  rw [scanMembers, skip_append hlead]
  rfl

/-- A member with a comma after it. -/
theorem scanMembers_cons (hlead : ∀ c ∈ lead, JsonText.isWhitespace c = true) (hkey : key ≠ proto)
    (hvalue : scanValue fuel cs = some (value, ',' :: rest)) :
    scanMembers (fuel + 1) (lead ++ writeKey key ++ ':' :: cs) =
      (scanMembers fuel rest).map (fun p => ((key, value) :: p.1, p.2)) := by
  have hfirst : skip (writeKey key ++ ':' :: cs) = writeKey key ++ ':' :: cs ∧
      ∀ tail, writeKey key ++ ':' :: cs ≠ '\x7d' :: tail := by
    unfold writeKey
    by_cases h : isName key = true
    · rw [if_pos h]
      cases key with
      | nil => cases h
      | cons c name =>
          rw [isName, Bool.and_eq_true] at h
          have hne : ∀ d, isNameStart d = false → c ≠ d := by
            rintro d hd rfl
            rw [h.1] at hd
            cases hd
          refine ⟨JsonText.skip_cons ?_ _, fun tail htail => ?_⟩
          · simp [JsonText.isWhitespace, hne ' ' rfl, hne '\t' rfl, hne '\n' rfl, hne '\r' rfl]
          · exact hne '\x7d' rfl (List.cons.inj htail).1
    · rw [if_neg h]
      exact ⟨rfl, fun tail htail => by cases (List.cons.inj htail).1⟩
  rw [scanMembers, List.append_assoc, skip_append hlead, hfirst.1]
  split
  · next tail htail => exact absurd htail (hfirst.2 tail)
  · rw [scanKey_writeKey hkey]
    have hcolon : skip (':' :: cs) = ':' :: cs := JsonText.skip_cons rfl cs
    simp only [hcolon, hvalue]
    rfl

/-- The constant after the comments at the beginning of a module. -/
theorem exported_eq {name text : List Char}
    (hmodule : dropComments false text = "export const ".toList ++ name ++ " = ".toList ++ cs)
    (hvalue : scanValue (text.length + 1) cs = some (value, " as const;".toList ++ rest)) :
    exported name text = some value := by
  unfold exported
  simp only [hmodule, List.prefix_append, if_true, List.drop_left, hvalue]

/-- A property of an object that has no name twice. -/
theorem member_eq_some_iff {members : List (List Char × Literal)}
    (h : (members.map Prod.fst).Nodup) :
    (Literal.obj members).member key = some value ↔ (key, value) ∈ members := by
  rw [Literal.member, List.lookup_eq_some_iff, ← List.mem_reverse]
  constructor
  · rintro ⟨before, after, hsplit, -⟩
    rw [hsplit]
    exact List.mem_append_right _ List.mem_cons_self
  · intro hmem
    obtain ⟨before, after, hsplit⟩ := List.append_of_mem hmem
    have hreverse : (members.reverse.map Prod.fst).Nodup := by
      rw [List.map_reverse]
      exact List.nodup_reverse.mpr h
    rw [hsplit, List.map_append, List.map_cons] at hreverse
    refine ⟨before, after, hsplit, fun p hp => bne_iff_ne.mpr (fun heq => ?_)⟩
    exact (List.nodup_append.mp hreverse).2.2 p.1 (List.mem_map_of_mem hp) key
      List.mem_cons_self heq.symm

end Rules

end Lib.JsLiteral
