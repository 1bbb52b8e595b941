import Mathlib.Data.List.TakeWhile
import TechScreen.Lib.Json

/-!
# JSON Texts

A text of JSON as the tree of its grammar, the writing of a tree and the reading of
a text. Numbers are kept as they are written.

Some writers and readers also know the three numbers that are not finite, by words
that the grammar of JSON does not have. A reader is strict or knows them.

## Main definitions

* `isNumber`: The grammar of numbers.
* `Tree`: A text, as a tree.
* `Tree.render`: The text of a tree, with a blank after every comma and colon.
* `scan`: The tree of a text.

## Theorems

* `scan_render`: What was written is read back, by a strict reader if it is JSON.
-/

namespace Lib.JsonText

section Numbers

/-- A character that a number may have. -/
def isNumberChar (c : Char) : Bool := c.isDigit || "+-.eE".toList.contains c

def isExponent : List Char → Bool
  | [] => true
  | e :: rest =>
      let digits := match rest with
        | '+' :: ds => ds
        | '-' :: ds => ds
        | ds => ds
      (e == 'e' || e == 'E') && digits != [] && digits.all Char.isDigit

def isFraction : List Char → Bool
  | '.' :: rest => (rest.takeWhile Char.isDigit) != [] && isExponent (rest.dropWhile Char.isDigit)
  | rest => isExponent rest

/-- The digits before the point, which do not start with a zero unless it is the only
    one. -/
def isIntegral (ds : List Char) : Bool := ds == ['0'] || (ds != [] && ds.head? != some '0')

def isNumber (literal : List Char) : Bool :=
  let magnitude := match literal with
    | '-' :: rest => rest
    | rest => rest
  isIntegral (magnitude.takeWhile Char.isDigit) && isFraction (magnitude.dropWhile Char.isDigit)

/-- A number as it is written. -/
def Literal : Type := {literal : List Char // isNumber literal = true}

example : isNumber "-1.50e+07".toList = true ∧ isNumber "01".toList = false ∧
    isNumber "1.".toList = false := by
  decide +kernel

end Numbers

section Trees

/-- The numbers that are not finite. -/
inductive Nonfinite where
  | nan
  | infinity
  | negInfinity
  deriving DecidableEq

def Nonfinite.word : Nonfinite → List Char
  | .nan => "NaN".toList
  | .infinity => "Infinity".toList
  | .negInfinity => "-Infinity".toList

/-- A text, as a tree. -/
inductive Tree where
  | null
  | bool (b : Bool)
  | number (literal : Literal)
  | nonfinite (f : Nonfinite)
  | str (s : List Char)
  | arr (items : List Tree)
  | obj (members : List (List Char × Tree))

end Trees

section Writing

/-- The digit of a number below 16. -/
def hexDigit (n : Nat) : Char := Nat.digitChar n

/-- A character in a string. -/
def escape (c : Char) : List Char :=
  if c = '"' then ['\\', '"']
  else if c = '\\' then ['\\', '\\']
  else if c = '\n' then ['\\', 'n']
  else if c = '\r' then ['\\', 'r']
  else if c = '\t' then ['\\', 't']
  else if c.toNat = 0x0c then ['\\', 'f']
  else if c.toNat = 0x08 then ['\\', 'b']
  else if c.toNat < 0x20 then
    ['\\', 'u', '0', '0', hexDigit (c.toNat / 16), hexDigit (c.toNat % 16)]
  else [c]

def quote (s : List Char) : List Char := '"' :: s.flatMap escape ++ ['"']

/-- Texts with commas between them. -/
def commas (texts : List (List Char)) : List Char := [',', ' '].intercalate texts

mutual

/-- The text of a tree. -/
def Tree.render : Tree → List Char
  | .null => "null".toList
  | .bool b => if b then "true".toList else "false".toList
  | .number literal => literal.val
  | .nonfinite f => f.word
  | .str s => quote s
  | .arr items => '[' :: commas (renderItems items) ++ [']']
  | .obj members => '{' :: commas (renderMembers members) ++ ['}']

def renderItems : List Tree → List (List Char)
  | [] => []
  | item :: items => item.render :: renderItems items

def renderMembers : List (List Char × Tree) → List (List Char)
  | [] => []
  | (key, value) :: members => (quote key ++ ':' :: ' ' :: value.render) :: renderMembers members

end

end Writing

section Reading

def isWhitespace (c : Char) : Bool := c == ' ' || c == '\t' || c == '\n' || c == '\r'

def skip (cs : List Char) : List Char := cs.dropWhile isWhitespace

def hexValue (c : Char) : Option Nat :=
  if c.isDigit then some (c.toNat - '0'.toNat)
  else if 'a' ≤ c ∧ c ≤ 'f' then some (c.toNat - 'a'.toNat + 10)
  else if 'A' ≤ c ∧ c ≤ 'F' then some (c.toNat - 'A'.toNat + 10)
  else none

/-- The number of four hexadecimal digits. -/
def hexWord (a b c d : Char) : Option Nat := do
  some (((← hexValue a) * 16 + (← hexValue b)) * 256 + (← hexValue c) * 16 + (← hexValue d))

/-- What stands for a character after a backslash. -/
def unescape : Char → Option Char
  | '"' => some '"'
  | '\\' => some '\\'
  | '/' => some '/'
  | 'b' => some (Char.ofNat 0x08)
  | 'f' => some (Char.ofNat 0x0c)
  | 'n' => some '\n'
  | 'r' => some '\r'
  | 't' => some '\t'
  | _ => none

/-- The character of a pair of surrogates. -/
def ofSurrogates (high low : Nat) : Option Char :=
  if 0xd800 ≤ high ∧ high < 0xdc00 ∧ 0xdc00 ≤ low ∧ low < 0xe000 then
    some (Char.ofNat (0x10000 + (high - 0xd800) * 0x400 + (low - 0xdc00)))
  else none

/-- A string, after its opening quote, and what follows it. -/
def scanString : List Char → Option (List Char × List Char)
  | [] => none
  | '"' :: rest => some ([], rest)
  | '\\' :: 'u' :: a :: b :: c :: d :: rest =>
      match hexWord a b c d with
      | none => none
      | some n =>
          if n.isValidChar then
            (scanString rest).map (fun p => (Char.ofNat n :: p.1, p.2))
          else
            match rest with
            | '\\' :: 'u' :: a' :: b' :: c' :: d' :: rest' =>
                match (hexWord a' b' c' d').bind (ofSurrogates n) with
                | none => none
                | some char => (scanString rest').map (fun p => (char :: p.1, p.2))
            | _ => none
  | '\\' :: e :: rest =>
      match unescape e with
      | none => none
      | some char => (scanString rest).map (fun p => (char :: p.1, p.2))
  | c :: rest =>
      if c.toNat < 0x20 then none else (scanString rest).map (fun p => (c :: p.1, p.2))

/-- A number, and what follows it. -/
def scanNumber (cs : List Char) : Option (Tree × List Char) :=
  if h : isNumber (cs.takeWhile isNumberChar) = true then
    some (.number ⟨cs.takeWhile isNumberChar, h⟩, cs.dropWhile isNumberChar)
  else none

mutual

/-- A value, and what follows it. A reader that is not strict knows the numbers that are
    not finite. -/
def scanValue (strict : Bool) : Nat → List Char → Option (Tree × List Char)
  | 0, _ => none
  | fuel + 1, cs =>
      match skip cs with
      | '"' :: rest => (scanString rest).map (fun p => (.str p.1, p.2))
      | '[' :: rest =>
          match skip rest with
          | ']' :: rest => some (.arr [], rest)
          | rest => (scanItems strict fuel rest).map (fun p => (.arr p.1, p.2))
      | '{' :: rest =>
          match skip rest with
          | '}' :: rest => some (.obj [], rest)
          | rest => (scanMembers strict fuel rest).map (fun p => (.obj p.1, p.2))
      | 'n' :: 'u' :: 'l' :: 'l' :: rest => some (.null, rest)
      | 't' :: 'r' :: 'u' :: 'e' :: rest => some (.bool true, rest)
      | 'f' :: 'a' :: 'l' :: 's' :: 'e' :: rest => some (.bool false, rest)
      | 'N' :: 'a' :: 'N' :: rest => if strict then none else some (.nonfinite .nan, rest)
      | 'I' :: 'n' :: 'f' :: 'i' :: 'n' :: 'i' :: 't' :: 'y' :: rest =>
          if strict then none else some (.nonfinite .infinity, rest)
      | '-' :: 'I' :: 'n' :: 'f' :: 'i' :: 'n' :: 'i' :: 't' :: 'y' :: rest =>
          if strict then none else some (.nonfinite .negInfinity, rest)
      | cs => scanNumber cs

/-- The items of an array, one at least, and what follows it. -/
def scanItems (strict : Bool) : Nat → List Char → Option (List Tree × List Char)
  | 0, _ => none
  | fuel + 1, cs =>
      match scanValue strict fuel cs with
      | none => none
      | some (item, rest) =>
          match skip rest with
          | ']' :: rest => some ([item], rest)
          | ',' :: rest => (scanItems strict fuel rest).map (fun p => (item :: p.1, p.2))
          | _ => none

/-- The members of an object, one at least, and what follows it. -/
def scanMembers (strict : Bool) : Nat → List Char → Option (List (List Char × Tree) × List Char)
  | 0, _ => none
  | fuel + 1, cs =>
      match skip cs with
      | '"' :: rest =>
          match scanString rest with
          | none => none
          | some (key, rest) =>
              match skip rest with
              | ':' :: rest =>
                  match scanValue strict fuel rest with
                  | none => none
                  | some (value, rest) =>
                      match skip rest with
                      | '}' :: rest => some ([(key, value)], rest)
                      | ',' :: rest =>
                          (scanMembers strict fuel rest).map (fun p => ((key, value) :: p.1, p.2))
                      | _ => none
              | _ => none
      | _ => none

end

/-- The tree of a text. -/
def scan (strict : Bool) (text : List Char) : Option Tree :=
  match scanValue strict (text.length + 1) text with
  | none => none
  | some (tree, rest) => if skip rest = [] then some tree else none

end Reading

section Finite

mutual

/-- Every number of the tree is finite, so its text is JSON. -/
def Tree.finite : Tree → Bool
  | .null | .bool _ | .number _ | .str _ => true
  | .nonfinite _ => false
  | .arr items => finiteItems items
  | .obj members => finiteMembers members

def finiteItems : List Tree → Bool
  | [] => true
  | item :: items => item.finite && finiteItems items

def finiteMembers : List (List Char × Tree) → Bool
  | [] => true
  | (_, value) :: members => value.finite && finiteMembers members

end

end Finite

section RoundTrip

/-- What follows a number is not read as a part of it. -/
def Delimited (rest : List Char) : Prop := ∀ c ∈ rest.head?, isNumberChar c = false

theorem skip_cons {c : Char} (h : isWhitespace c = false) (cs : List Char) :
    skip (c :: cs) = c :: cs := by
  unfold skip
  rw [List.dropWhile_cons_of_neg]
  rw [h]
  exact Bool.false_ne_true

theorem skip_blank (cs : List Char) : skip (' ' :: cs) = skip cs := rfl

theorem hexWord_hexDigit : ∀ n < 0x20,
    hexWord '0' '0' (hexDigit (n / 16)) (hexDigit (n % 16)) = some n := by
  decide +kernel

theorem scanString_escape (c : Char) (rest : List Char) :
    scanString (escape c ++ rest) = (scanString rest).map (fun p => (c :: p.1, p.2)) := by
  unfold escape
  split_ifs with hquote hbackslash hn hr ht hf hb hcontrol
  · subst hquote
    rfl
  · subst hbackslash
    rfl
  · subst hn
    rfl
  · subst hr
    rfl
  · subst ht
    rfl
  · have hc : c = Char.ofNat 0x0c := by rw [← hf, Char.ofNat_toNat]
    subst hc
    rfl
  · have hc : c = Char.ofNat 0x08 := by rw [← hb, Char.ofNat_toNat]
    subst hc
    rfl
  · -- Other control characters are written by their code.
    have hvalid : c.toNat.isValidChar := Or.inl (by omega)
    change scanString ('\\' :: 'u' :: '0' :: '0' :: _ :: _ :: rest) = _
    rw [scanString, hexWord_hexDigit _ hcontrol]
    simp only [if_pos hvalid, Char.ofNat_toNat]
  · -- Every other character stands for itself.
    rw [List.singleton_append, scanString.eq_def]
    split
    · next h => cases h
    · next h => exact absurd (List.cons.inj h).1 hquote
    · next h => exact absurd (List.cons.inj h).1 hbackslash
    · next h => exact absurd (List.cons.inj h).1 hbackslash
    · next h =>
        obtain ⟨rfl, rfl⟩ := List.cons.inj h
        rw [if_neg hcontrol]

theorem scanString_quote (s rest : List Char) :
    scanString (s.flatMap escape ++ '"' :: rest) = some (s, rest) := by
  induction s with
  | nil => rw [List.flatMap_nil, List.nil_append, scanString]
  | cons c s ih => rw [List.flatMap_cons, List.append_assoc, scanString_escape, ih, Option.map_some]

theorem isNumberChar_of_isDigit {c : Char} (h : c.isDigit = true) : isNumberChar c = true := by
  unfold isNumberChar
  rw [h]
  rfl

theorem mem_isExponent {cs : List Char} (h : isExponent cs = true) :
    ∀ c ∈ cs, isNumberChar c = true := by
  cases cs with
  | nil => exact fun c hc => absurd hc List.not_mem_nil
  | cons e rest =>
      unfold isExponent at h
      simp only [Bool.and_eq_true, Bool.or_eq_true, beq_iff_eq, List.all_eq_true] at h
      obtain ⟨⟨he, -⟩, hdigits⟩ := h
      have hrest : ∀ c ∈ rest, isNumberChar c = true := by
        intro c hc
        split at hdigits
        · rcases List.mem_cons.mp hc with rfl | hc
          · rfl
          · exact isNumberChar_of_isDigit (hdigits c hc)
        · rcases List.mem_cons.mp hc with rfl | hc
          · rfl
          · exact isNumberChar_of_isDigit (hdigits c hc)
        · exact isNumberChar_of_isDigit (hdigits c hc)
      refine List.forall_mem_cons.mpr ⟨?_, hrest⟩
      rcases he with rfl | rfl <;> rfl

theorem mem_isFraction {cs : List Char} (h : isFraction cs = true) :
    ∀ c ∈ cs, isNumberChar c = true := by
  unfold isFraction at h
  split at h
  · next rest =>
      rw [Bool.and_eq_true] at h
      refine List.forall_mem_cons.mpr ⟨rfl, fun c hc => ?_⟩
      rw [← List.takeWhile_append_dropWhile (p := Char.isDigit) (l := rest)] at hc
      rcases List.mem_append.mp hc with hc | hc
      · exact isNumberChar_of_isDigit (List.mem_takeWhile_imp hc)
      · exact mem_isExponent h.2 c hc
  · exact mem_isExponent h

/-- A number has the characters of numbers, and starts with a digit, perhaps after a
    sign. -/
theorem Literal.shape (literal : Literal) : (∀ c ∈ literal.val, isNumberChar c = true) ∧
    ∃ sign d ds, literal.val = sign ++ d :: ds ∧ (sign = [] ∨ sign = ['-']) ∧
      d.isDigit = true := by
  obtain ⟨cs, h⟩ := literal
  -- Without the sign, what is left is digits and what may follow them.
  have hmagnitude (magnitude : List Char)
      (hm : (isIntegral (magnitude.takeWhile Char.isDigit) &&
        isFraction (magnitude.dropWhile Char.isDigit)) = true) :
      (∀ c ∈ magnitude, isNumberChar c = true) ∧
        ∃ d ds, magnitude = d :: ds ∧ d.isDigit = true := by
    rw [Bool.and_eq_true] at hm
    constructor
    · intro c hc
      rw [← List.takeWhile_append_dropWhile (p := Char.isDigit) (l := magnitude)] at hc
      rcases List.mem_append.mp hc with hc | hc
      · exact isNumberChar_of_isDigit (List.mem_takeWhile_imp hc)
      · exact mem_isFraction hm.2 c hc
    · cases magnitude with
      | nil => exact absurd hm.1 (by decide)
      | cons d ds =>
          refine ⟨d, ds, rfl, ?_⟩
          by_contra hd
          rw [List.takeWhile_cons_of_neg hd] at hm
          exact absurd hm.1 (by decide)
  unfold isNumber at h
  dsimp only at h ⊢
  -- A sign comes first, or there is none.
  split at h
  · next rest =>
      obtain ⟨hall, d, ds, rfl, hd⟩ := hmagnitude rest h
      exact ⟨List.forall_mem_cons.mpr ⟨rfl, hall⟩, ['-'], d, ds, rfl, Or.inr rfl, hd⟩
  · obtain ⟨hall, d, ds, hcs, hd⟩ := hmagnitude cs h
    exact ⟨hall, [], d, ds, hcs, Or.inl rfl, hd⟩

theorem scanNumber_literal (literal : Literal) {rest : List Char} (h : Delimited rest) :
    scanNumber (literal.val ++ rest) = some (.number literal, rest) := by
  have hall := literal.shape.1
  have hrest : rest.takeWhile isNumberChar = [] ∧ rest.dropWhile isNumberChar = rest := by
    cases rest with
    | nil => exact ⟨rfl, rfl⟩
    | cons c rest =>
        have hc : ¬ isNumberChar c = true := by
          rw [h c rfl]
          exact Bool.false_ne_true
        exact ⟨List.takeWhile_cons_of_neg hc, List.dropWhile_cons_of_neg hc⟩
  have htake : (literal.val ++ rest).takeWhile isNumberChar = literal.val := by
    rw [List.takeWhile_append_of_pos hall, hrest.1, List.append_nil]
  have hdrop : (literal.val ++ rest).dropWhile isNumberChar = rest := by
    rw [List.dropWhile_append_of_pos hall, hrest.2]
  unfold scanNumber
  simp only [htake, hdrop]
  rw [dif_pos literal.property]
  rfl

theorem ne_of_isDigit {c d : Char} (hd : d.isDigit = true) (hc : c.isDigit = false) : d ≠ c := by
  rintro rfl
  rw [hd] at hc
  cases hc

theorem not_isWhitespace_of_isDigit {d : Char} (hd : d.isDigit = true) :
    isWhitespace d = false := by
  unfold isWhitespace
  simp only [Bool.or_eq_false_iff, beq_eq_false_iff_ne]
  exact ⟨⟨⟨ne_of_isDigit hd rfl, ne_of_isDigit hd rfl⟩, ne_of_isDigit hd rfl⟩,
    ne_of_isDigit hd rfl⟩

/-- The text of a tree starts with a character that is not white space and does not
    close an array. -/
theorem Tree.render_head (tree : Tree) : ∃ c cs, tree.render = c :: cs ∧
    isWhitespace c = false ∧ c ≠ ']' := by
  cases tree with
  | null => exact ⟨'n', _, rfl, rfl, by decide⟩
  | bool b =>
      cases b with
      | true => exact ⟨'t', _, rfl, rfl, by decide⟩
      | false => exact ⟨'f', _, rfl, rfl, by decide⟩
  | number literal =>
      obtain ⟨-, sign, d, ds, hliteral, hsign, hd⟩ := literal.shape
      rcases hsign with rfl | rfl
      · exact ⟨d, ds, hliteral, not_isWhitespace_of_isDigit hd, ne_of_isDigit hd rfl⟩
      · exact ⟨'-', d :: ds, hliteral, rfl, by decide⟩
  | nonfinite f =>
      cases f with
      | nan => exact ⟨'N', _, rfl, rfl, by decide⟩
      | infinity => exact ⟨'I', _, rfl, rfl, by decide⟩
      | negInfinity => exact ⟨'-', _, rfl, rfl, by decide⟩
  | str s => exact ⟨'"', _, rfl, rfl, by decide⟩
  | arr items => exact ⟨'[', _, rfl, rfl, by decide⟩
  | obj members => exact ⟨'\x7b', _, rfl, rfl, by decide⟩

theorem Tree.skip_render (tree : Tree) (rest : List Char) :
    skip (tree.render ++ rest) = tree.render ++ rest := by
  obtain ⟨c, cs, hrender, hspace, -⟩ := tree.render_head
  rw [hrender]
  exact skip_cons hspace _

/-- A text that starts like a number is read as one. -/
theorem scanValue_literal (strict : Bool) (fuel : Nat) (literal : Literal) {rest : List Char}
    (hrest : Delimited rest) :
    scanValue strict (fuel + 1) (literal.val ++ rest) = some (.number literal, rest) := by
  have hskip : skip (literal.val ++ rest) = literal.val ++ rest :=
    (Tree.number literal).skip_render rest
  rw [← scanNumber_literal literal hrest, scanValue, hskip]
  obtain ⟨-, sign, d, ds, hliteral, hsign, hd⟩ := literal.shape
  -- No other kind of value starts with a digit or a sign.
  have hne {c : Char} (hc : c.isDigit = false) : d ≠ c := ne_of_isDigit hd hc
  rw [hliteral]
  rcases hsign with rfl | rfl
  · rw [List.nil_append, List.cons_append]
    split
    · next h => exact absurd (List.cons.inj h).1 (hne rfl)
    · next h => exact absurd (List.cons.inj h).1 (hne rfl)
    · next h => exact absurd (List.cons.inj h).1 (hne rfl)
    · next h => exact absurd (List.cons.inj h).1 (hne rfl)
    · next h => exact absurd (List.cons.inj h).1 (hne rfl)
    · next h => exact absurd (List.cons.inj h).1 (hne rfl)
    · next h => exact absurd (List.cons.inj h).1 (hne rfl)
    · next h => exact absurd (List.cons.inj h).1 (hne rfl)
    · next h => exact absurd (List.cons.inj h).1 (hne rfl)
    · rfl
  · rw [List.singleton_append, List.cons_append, List.cons_append]
    split
    · next h => exact absurd (List.cons.inj h).1 (by decide)
    · next h => exact absurd (List.cons.inj h).1 (by decide)
    · next h => exact absurd (List.cons.inj h).1 (by decide)
    · next h => exact absurd (List.cons.inj h).1 (by decide)
    · next h => exact absurd (List.cons.inj h).1 (by decide)
    · next h => exact absurd (List.cons.inj h).1 (by decide)
    · next h => exact absurd (List.cons.inj h).1 (by decide)
    · next h => exact absurd (List.cons.inj h).1 (by decide)
    · next h => exact absurd (List.cons.inj (List.cons.inj h).2).1 (hne rfl)
    · rfl

theorem commas_singleton (text : List Char) : commas [text] = text := by
  unfold commas
  rw [List.intercalate_singleton]

theorem commas_cons_cons (text next : List Char) (texts : List (List Char)) :
    commas (text :: next :: texts) = text ++ ',' :: ' ' :: commas (next :: texts) := by
  unfold commas
  rw [List.intercalate_cons_cons, List.append_assoc]
  rfl

/-- An array with items starts with the first of them. -/
theorem skip_commas_renderItems (item : Tree) (items : List Tree) (rest : List Char) :
    ∃ c cs, skip (commas (renderItems (item :: items)) ++ rest) = c :: cs ∧ c ≠ ']' ∧
      c :: cs = commas (renderItems (item :: items)) ++ rest := by
  obtain ⟨c, cs, hrender, hspace, hclose⟩ := item.render_head
  have hhead : ∃ tail, commas (renderItems (item :: items)) ++ rest = c :: tail := by
    cases items with
    | nil =>
        rw [renderItems, renderItems, commas_singleton, hrender]
        exact ⟨_, rfl⟩
    | cons next items =>
        rw [renderItems, renderItems, commas_cons_cons, hrender]
        exact ⟨_, rfl⟩
  obtain ⟨tail, htail⟩ := hhead
  rw [htail]
  exact ⟨c, tail, skip_cons hspace tail, hclose, rfl⟩

theorem delimited_cons {c : Char} (h : isNumberChar c = false) (rest : List Char) :
    Delimited (c :: rest) := by
  intro d hd
  rw [← Option.some.inj (Option.mem_def.mp hd)]
  exact h

theorem scanValue_blank (strict : Bool) (fuel : Nat) (cs : List Char) :
    scanValue strict fuel (' ' :: cs) = scanValue strict fuel cs := by
  cases fuel with
  | zero => rfl
  | succ fuel => rw [scanValue, skip_blank, scanValue]

theorem scanItems_blank (strict : Bool) (fuel : Nat) (cs : List Char) :
    scanItems strict fuel (' ' :: cs) = scanItems strict fuel cs := by
  cases fuel with
  | zero => rfl
  | succ fuel => rw [scanItems, scanValue_blank, scanItems]

theorem scanMembers_blank (strict : Bool) (fuel : Nat) (cs : List Char) :
    scanMembers strict fuel (' ' :: cs) = scanMembers strict fuel cs := by
  cases fuel with
  | zero => rfl
  | succ fuel => rw [scanMembers, skip_blank, scanMembers]

/-- An array that does not close at once has items. -/
theorem scanValue_array (strict : Bool) (fuel : Nat) {cs cs' : List Char} {c : Char}
    (h : skip cs = c :: cs') (hc : c ≠ ']') : scanValue strict (fuel + 1) ('[' :: cs) =
      (scanItems strict fuel (c :: cs')).map (fun p => (.arr p.1, p.2)) := by
  have hmatch : scanValue strict (fuel + 1) ('[' :: cs) = (match skip cs with
      | ']' :: rest => some (.arr [], rest)
      | rest => (scanItems strict fuel rest).map (fun p => (.arr p.1, p.2))) := rfl
  rw [hmatch, h]
  split
  · next h => exact absurd (List.cons.inj h).1 hc
  · rfl

/-- What follows the key of a member is read as its value. -/
theorem scanMembers_member (strict : Bool) (fuel : Nat) (key cs : List Char) :
    scanMembers strict (fuel + 1) (quote key ++ ':' :: cs) =
      match scanValue strict fuel cs with
      | none => none
      | some (value, rest) =>
          match skip rest with
          | '\x7d' :: rest => some ([(key, value)], rest)
          | ',' :: rest => (scanMembers strict fuel rest).map (fun p => ((key, value) :: p.1, p.2))
          | _ => none := by
  have hmatch : scanMembers strict (fuel + 1) (quote key ++ ':' :: cs) =
      match scanString (key.flatMap escape ++ '"' :: ':' :: cs) with
      | none => none
      | some (key, rest) =>
          match skip rest with
          | ':' :: rest =>
              match scanValue strict fuel rest with
              | none => none
              | some (value, rest) =>
                  match skip rest with
                  | '\x7d' :: rest => some ([(key, value)], rest)
                  | ',' :: rest =>
                      (scanMembers strict fuel rest).map (fun p => ((key, value) :: p.1, p.2))
                  | _ => none
          | _ => none := by
    rw [quote, List.append_assoc]
    rfl
  rw [hmatch, scanString_quote]
  rfl

/-- A tree is refused by a strict reader for one of its parts. -/
theorem refused_and (strict a b : Bool) :
    (strict && !(a && b)) = ((strict && !a) || (strict && !b)) := by
  cases strict with
  | false => rfl
  | true => exact Bool.not_and a b

mutual

theorem scanValue_render (strict : Bool) : ∀ (tree : Tree) (fuel : Nat) (rest : List Char),
    tree.render.length < fuel → Delimited rest → scanValue strict fuel (tree.render ++ rest) =
      if strict && !tree.finite then none else some (tree, rest)
  | .null, fuel + 1, rest, _, _ => by cases strict <;> rfl
  | .bool true, fuel + 1, rest, _, _ => by cases strict <;> rfl
  | .bool false, fuel + 1, rest, _, _ => by cases strict <;> rfl
  | .number literal, fuel + 1, rest, _, hrest => by
      rw [Tree.render, scanValue_literal strict fuel literal hrest]
      cases strict <;> rfl
  | .nonfinite .nan, fuel + 1, rest, _, _ => by cases strict <;> rfl
  | .nonfinite .infinity, fuel + 1, rest, _, _ => by cases strict <;> rfl
  | .nonfinite .negInfinity, fuel + 1, rest, _, _ => by cases strict <;> rfl
  | .str s, fuel + 1, rest, _, _ => by
      have hscan : scanValue strict (fuel + 1) ((Tree.str s).render ++ rest) =
          (scanString (s.flatMap escape ++ '"' :: rest)).map (fun p => (.str p.1, p.2)) := by
        rw [Tree.render, quote, List.append_assoc]
        rfl
      rw [hscan, scanString_quote]
      cases strict <;> rfl
  | .arr [], fuel + 1, rest, _, _ => by cases strict <;> rfl
  | .arr (item :: items), fuel + 1, rest, hfuel, _ => by
      have hitems := scanItems_render strict item items fuel rest (by
        rw [Tree.render, List.length_append, List.length_cons] at hfuel
        change _ + 1 + 1 < _ at hfuel
        omega)
      -- After the bracket stands the first item, and no closing bracket.
      obtain ⟨c, cs, hskip, hclose, hcs⟩ := skip_commas_renderItems item items (']' :: rest)
      rw [Tree.render, List.append_assoc, List.cons_append, List.singleton_append,
        scanValue_array strict fuel hskip hclose, hcs, hitems]
      change _ = if (strict && !finiteItems (item :: items)) = true then _ else _
      cases strict && !finiteItems (item :: items) with
      | true => rfl
      | false => rfl
  | .obj [], fuel + 1, rest, _, _ => by cases strict <;> rfl
  | .obj ((key, value) :: members), fuel + 1, rest, hfuel, _ => by
      have hmembers := scanMembers_render strict key value members fuel rest (by
        rw [Tree.render, List.length_append, List.length_cons] at hfuel
        change _ + 1 + 1 < _ at hfuel
        omega)
      have hscan :
        scanValue strict (fuel + 1) ((Tree.obj ((key, value) :: members)).render ++ rest) =
          (scanMembers strict fuel (commas (renderMembers ((key, value) :: members)) ++
            '\x7d' :: rest)).map (fun p => (.obj p.1, p.2)) := by
        -- After the brace stands the quotation mark of a key.
        obtain ⟨cs, hcs⟩ : ∃ cs, commas (renderMembers ((key, value) :: members)) = '"' :: cs := by
          cases members with
          | nil => exact ⟨_, commas_singleton _⟩
          | cons next members => exact ⟨_, commas_cons_cons _ _ _⟩
        rw [Tree.render, List.append_assoc, List.cons_append, scanValue, skip_cons rfl, hcs]
        rfl
      rw [hscan, hmembers]
      change _ = if (strict && !finiteMembers ((key, value) :: members)) = true then _ else _
      cases strict && !finiteMembers ((key, value) :: members) with
      | true => rfl
      | false => rfl

theorem scanItems_render (strict : Bool) : ∀ (item : Tree) (items : List Tree) (fuel : Nat)
    (rest : List Char), (commas (renderItems (item :: items))).length + 1 < fuel →
      scanItems strict fuel (commas (renderItems (item :: items)) ++ ']' :: rest) =
        if strict && !finiteItems (item :: items) then none else some (item :: items, rest)
  | item, [], fuel + 1, rest, hfuel => by
      rw [renderItems, renderItems, commas_singleton] at hfuel ⊢
      have hitem := scanValue_render strict item fuel (']' :: rest) (by omega)
        (delimited_cons rfl rest)
      rw [scanItems, hitem, finiteItems, finiteItems, Bool.and_true]
      cases strict && !item.finite with
      | true => rfl
      | false => rfl
  | item, next :: items, fuel + 1, rest, hfuel => by
      rw [renderItems, renderItems, commas_cons_cons] at hfuel ⊢
      rw [List.length_append, List.length_cons, List.length_cons] at hfuel
      have hitems := scanItems_render strict next items fuel rest (by
        rw [renderItems]
        omega)
      rw [renderItems] at hitems
      have hitem := scanValue_render strict item fuel
        (',' :: ' ' :: (commas (next.render :: renderItems items) ++ ']' :: rest)) (by omega)
        (delimited_cons rfl _)
      rw [List.append_assoc, List.cons_append, List.cons_append, scanItems, hitem, finiteItems,
        refused_and]
      cases strict && !item.finite with
      | true => rfl
      | false =>
          change (scanItems strict fuel (' ' :: _)).map (fun p => (item :: p.1, p.2)) = _
          -- The blank after a comma is skipped.
          rw [scanItems_blank, hitems, Bool.false_or]
          cases strict && !finiteItems (next :: items) with
          | true => rfl
          | false => rfl

theorem scanMembers_render (strict : Bool) : ∀ (key : List Char) (value : Tree)
    (members : List (List Char × Tree)) (fuel : Nat) (rest : List Char),
    (commas (renderMembers ((key, value) :: members))).length + 1 < fuel →
      scanMembers strict fuel (commas (renderMembers ((key, value) :: members)) ++ '\x7d' :: rest) =
        if strict && !finiteMembers ((key, value) :: members) then none
        else some ((key, value) :: members, rest)
  | key, value, [], fuel + 1, rest, hfuel => by
      rw [renderMembers, renderMembers, commas_singleton] at hfuel ⊢
      rw [List.length_append, List.length_cons, List.length_cons] at hfuel
      have hvalue := scanValue_render strict value fuel ('\x7d' :: rest) (by omega)
        (delimited_cons rfl rest)
      rw [List.append_assoc, List.cons_append, List.cons_append, scanMembers_member,
        scanValue_blank, hvalue, finiteMembers, finiteMembers, Bool.and_true]
      cases strict && !value.finite with
      | true => rfl
      | false => rfl
  | key, value, (key', value') :: members, fuel + 1, rest, hfuel => by
      rw [renderMembers, renderMembers, commas_cons_cons] at hfuel ⊢
      rw [List.length_append, List.length_append, List.length_cons, List.length_cons,
        List.length_cons, List.length_cons] at hfuel
      have hmembers := scanMembers_render strict key' value' members fuel rest (by
        rw [renderMembers]
        omega)
      rw [renderMembers] at hmembers
      have hvalue := scanValue_render strict value fuel (',' :: ' ' ::
        (commas ((quote key' ++ ':' :: ' ' :: value'.render) :: renderMembers members) ++
          '\x7d' :: rest)) (by omega) (delimited_cons rfl _)
      rw [List.append_assoc, List.append_assoc, List.cons_append, List.cons_append,
        List.cons_append, List.cons_append, scanMembers_member, scanValue_blank, hvalue,
        finiteMembers, refused_and]
      cases strict && !value.finite with
      | true => rfl
      | false =>
          change (scanMembers strict fuel (' ' :: _)).map (fun p => ((key, value) :: p.1, p.2)) = _
          -- As with items, the blank after a comma is skipped.
          rw [scanMembers_blank, hmembers, Bool.false_or]
          cases strict && !finiteMembers ((key', value') :: members) with
          | true => rfl
          | false => rfl

end

/-- What was written is read back, by a strict reader if every number is finite. -/
theorem scan_render (strict : Bool) (tree : Tree) :
    scan strict tree.render = if strict && !tree.finite then none else some tree := by
  have hvalue := scanValue_render strict tree (tree.render.length + 1) []
    (Nat.lt_succ_self _) (fun c hc => by cases hc)
  rw [List.append_nil] at hvalue
  rw [scan, hvalue]
  cases strict && !tree.finite with
  | true => rfl
  | false => rfl

end RoundTrip

end Lib.JsonText
