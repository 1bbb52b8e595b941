import Mathlib.Data.List.Infix
import Mathlib.Tactic.Common

/-!
# Declarations of a Stylesheet

The syntax of stylesheets as far as it tells which custom properties a rule declares
and with what values. A text is read character by character: in strings, comments,
escapes, brackets and addresses a semicolon or a closing brace does not end a
declaration. A value is cut off at a top-level `;`, `}` or `!`, and is none if it has a
string with a line break in it, a bad address or a closing bracket too many.

A value that is read to its own end, and is complete there, is whole. Only whole
values are ever declared, and one that is written out as a declaration is declared
as it is.

A text has line breaks of one character. A declaration that is still open where the
text ends is none of the text's.

## Main definitions

* `Reader`: What has been read so far, and what it leaves open.
* `Reader.step`: One more character.
* `upTo`: The text before one of some marks.
* `declared`: What the first rule of a text declares for a custom property.
* `isWhole`: A complete value.

## Theorems

* `upTo_self`, `upTo_append`: A text before a mark, and what follows it.
* `whole_of_mem_declarations`: What is declared is whole.
* `declarations_line`: A whole value that is written out is declared.
* `whole_of_harmless`: A text with nothing special in it is whole.
-/

namespace Lib.CssText

section Characters

def isBreak (c : Char) : Bool := [10, 12, 13].contains c.toNat

/-- White space. -/
def isBlank (c : Char) : Bool := c == ' ' || c == '\t' || isBreak c

/-- The characters of names that are not ASCII, from one to another. -/
def nameRanges : List (Nat × Nat) :=
  [(0xb7, 0xb7), (0xc0, 0xd6), (0xd8, 0xf6), (0xf8, 0x37d), (0x37f, 0x1fff), (0x200c, 0x200d),
    (0x203f, 0x2040), (0x2070, 0x218f), (0x2c00, 0x2fef), (0x3001, 0xd7ff), (0xf900, 0xfdcf),
    (0xfdf0, 0xfffd), (0x10000, 0x10ffff)]

def isNameChar (c : Char) : Bool :=
  c.isAlphanum || c == '-' || c == '_' ||
    nameRanges.any (fun range => range.1 ≤ c.toNat && c.toNat ≤ range.2)

def isUnprintable (c : Char) : Bool :=
  c.toNat ≤ 8 || c.toNat == 11 || (14 ≤ c.toNat && c.toNat ≤ 31) || c.toNat == 127

def hexValue (c : Char) : Option Nat :=
  if c.isDigit then some (c.toNat - '0'.toNat)
  else if 'a' ≤ c ∧ c ≤ 'f' then some (c.toNat - 'a'.toNat + 10)
  else if 'A' ≤ c ∧ c ≤ 'F' then some (c.toNat - 'A'.toNat + 10)
  else none

/-- The character of a code. -/
def decode (code : Nat) : Char :=
  if code ≠ 0 ∧ code.isValidChar then Char.ofNat code else Char.ofNat 0xfffd

end Characters

section Reader

/-- What a character is a part of. -/
inductive Token where
  | plain
  | string (quote : Char)
  | url
  | badUrl
  deriving DecidableEq

/-- Where the next character stands. -/
inductive Place where
  | within (token : Token)
  /-- After a backslash. -/
  | escape (token : Token)
  /-- After a backslash and some hexadecimal digits. -/
  | hex (token : Token) (digits code : Nat)
  /-- After a slash that may begin a comment. -/
  | slash
  | comment
  /-- After a star in a comment. -/
  | star
  /-- After `url(`, and white space. -/
  | urlStart
  /-- After an address, and white space. -/
  | urlEnd
  /-- In `<!--`, with so many characters of it left. -/
  | cdo (left : Nat)
  deriving DecidableEq

/-- What has been read: the name that is being spelt, the brackets to be closed, and
    whether there was anything that makes a value invalid. -/
structure Reader where
  place : Place := .within .plain
  word : List Char := []
  closers : List Char := []
  bad : Bool := false

variable {r : Reader}

/-- The next character is read for itself. -/
def Reader.now (r : Reader) : Bool :=
  match r.place with
  | .within .plain | .slash | .hex .plain _ _ => true
  | _ => false

/-- What has been read is complete. -/
def Reader.closed (r : Reader) : Bool := r.now && r.closers.isEmpty && !r.bad

/-- The name with an escape that ends here. -/
def Reader.spelt (r : Reader) : List Char :=
  match r.place with
  | .hex _ _ code => r.word ++ [decode code]
  | _ => r.word

/-- Back to what is no string, address or comment. -/
def Reader.back (r : Reader) : Reader := { r with place := .within .plain, word := [] }

def Reader.opening (r : Reader) (closer : Char) : Reader :=
  { r.back with closers := closer :: r.closers }

/-- A closing bracket, which has to close the last one that is open. -/
def Reader.closing (r : Reader) (c : Char) : Reader :=
  if r.closers.head? = some c then { r.back with closers := r.closers.tail }
  else { r.back with bad := true }

/-- A character for itself, before some others. -/
def Reader.plain (r : Reader) (c : Char) (cs : List Char) : Reader :=
  if isNameChar c then { r with place := .within .plain, word := r.word ++ [c] }
  else if c = '#' ∨ c = '@' then { r with place := .within .plain, word := [c] }
  else if c = '\\' then { r with place := .escape .plain }
  else if c = '"' ∨ c = '\x27' then { r with place := .within (.string c), word := [] }
  else if c = '/' then { r with place := .slash, word := [] }
  else if c = '(' then
    if r.word.map Char.toLower = "url".toList then { r with place := .urlStart, word := [] }
    else r.opening ')'
  else if c = '[' then r.opening ']'
  else if c = '\x7b' then r.opening '\x7d'
  else if c = ')' ∨ c = ']' ∨ c = '\x7d' then r.closing c
  else if c = '<' ∧ ['!', '-', '-'] <+: cs then { r with place := .cdo 3, word := [] }
  else r.back

def Reader.inString (r : Reader) (quote c : Char) : Reader :=
  if c = quote then r.back
  else if isBreak c then { r.back with bad := true }
  else if c = '\\' then { r with place := .escape (.string quote) }
  else { r with place := .within (.string quote) }

def Reader.inBadUrl (r : Reader) (c : Char) : Reader :=
  if c = ')' then { r.back with bad := true }
  else if c = '\\' then { r with place := .escape .badUrl, bad := true }
  else { r with place := .within .badUrl, bad := true }

def Reader.inUrl (r : Reader) (c : Char) : Reader :=
  if c = ')' then r.back
  else if isBlank c then { r with place := .urlEnd }
  else if c = '"' ∨ c = '\x27' ∨ c = '(' ∨ isUnprintable c then r.inBadUrl c
  else if c = '\\' then { r with place := .escape .url }
  else { r with place := .within .url }

/-- A character in a token, before some others. -/
def Reader.stepIn (r : Reader) (token : Token) (c : Char) (cs : List Char) : Reader :=
  match token with
  | .plain => r.plain c cs
  | .string quote => r.inString quote c
  | .url => r.inUrl c
  | .badUrl => r.inBadUrl c

/-- A line break after a backslash: a string goes on after it, and elsewhere it is no
    escape. -/
def Reader.breakIn (r : Reader) (token : Token) : Reader :=
  match token with
  | .plain => r.back
  | .string quote => { r with place := .within (.string quote) }
  | .url | .badUrl => { r with place := .within .badUrl, bad := true }

/-- One more character, before some others. -/
def Reader.step (r : Reader) (c : Char) (cs : List Char) : Reader :=
  match r.place with
  | .within token => r.stepIn token c cs
  | .escape token =>
      if isBreak c then r.breakIn token
      else match hexValue c with
        | some digit => { r with place := .hex token 1 digit }
        | none => { r with place := .within token, word := r.word ++ [c] }
  | .hex token digits code =>
      match (if digits < 6 then hexValue c else none) with
      | some digit => { r with place := .hex token (digits + 1) (16 * code + digit) }
      | none =>
          if isBlank c then { r with place := .within token, word := r.spelt }
          else { r with word := r.spelt }.stepIn token c cs
  | .slash => if c = '*' then { r with place := .comment } else r.plain c cs
  | .comment => if c = '*' then { r with place := .star } else r
  | .star =>
      if c = '/' then r.back
      else if c = '*' then r
      else { r with place := .comment }
  | .urlStart =>
      if isBlank c then r
      else if c = '"' ∨ c = '\x27' then { r.opening ')' with place := .within (.string c) }
      else r.inUrl c
  | .urlEnd =>
      if isBlank c then r
      else if c = ')' then r.back
      else r.inBadUrl c
  | .cdo left => if left ≤ 1 then r.back else { r with place := .cdo (left - 1) }

/-- The reader stops before one of the marks. -/
def Reader.stops (r : Reader) (marks : List Char) (c : Char) : Bool :=
  r.now && r.closers.isEmpty && marks.contains c

/-- The text before the first of the marks that is outside all brackets, what is left,
    and the reader there. -/
def upTo (marks : List Char) : Reader → List Char → List Char × List Char × Reader
  | r, [] => ([], [], r)
  | r, c :: cs =>
      if r.stops marks c then ([], c :: cs, r)
      else (c :: (upTo marks (r.step c cs) cs).1, (upTo marks (r.step c cs) cs).2)

end Reader

section Declarations

/-- White space and comments at the beginning are left out; or what is left of a
    comment, first. -/
def skipFrom : Bool → List Char → List Char
  | _, [] => []
  | true, '*' :: '/' :: cs => skipFrom false cs
  | true, _ :: cs => skipFrom true cs
  | false, '/' :: '*' :: cs => skipFrom true cs
  | false, c :: cs => if isBlank c then skipFrom false cs else c :: cs

def skip (text : List Char) : List Char := skipFrom false text

/-- A name goes on: with a character of names, an escape, or the blank that ends one. -/
def Reader.spells (r : Reader) (c : Char) (cs : List Char) : Bool :=
  match r.place with
  | .within .plain => isNameChar c || (c == '\\' && !cs.head?.any isBreak)
  | .escape .plain => true
  | .hex .plain _ _ => isNameChar c || isBlank c || (c == '\\' && !cs.head?.any isBreak)
  | _ => false

/-- The name at the beginning of a text, and what follows it. -/
def readName : Reader → List Char → List Char × List Char
  | r, [] => (r.spelt, [])
  | r, c :: cs => if r.spells c cs then readName (r.step c cs) cs else (r.spelt, c :: cs)

/-- The custom property at the beginning of a text, and what follows its colon. -/
def property (text : List Char) : Option (List Char × List Char) :=
  match skip (readName {} text).2 with
  | ':' :: rest => if ['-', '-'] <+: (readName {} text).1 then some ((readName {} text).1, rest)
      else none
  | _ => none

/-- A text without the white space at its end, which an escape may keep. -/
def trimEnd : Reader → List Char → List Char
  | _, [] => []
  | r, c :: cs =>
      if trimEnd (r.step c cs) cs = [] ∧ isBlank c = true ∧
          (r.place = .within .plain ∨ r.place = .slash) then []
      else c :: trimEnd (r.step c cs) cs

/-- What may end a value. -/
def valueMarks : List Char := [';', '\x7d', '!']

def isImportant (text : List Char) : Bool :=
  (readName {} (skip text)).1.map Char.toLower == "important".toList &&
    (skip (readName {} (skip text)).2).isEmpty

structure Declaration where
  name : List Char
  value : List Char
  important : Bool
  deriving DecidableEq

/-- The value at the beginning of a text, with its flag, and what is left. -/
def readValue (text : List Char) : Option (List Char × Bool) × List Char :=
  match upTo valueMarks {} (text.dropWhile isBlank) with
  | (_, [], _) => (none, [])
  | (value, '!' :: cs, r) =>
      let (flag, rest, _) := upTo [';', '\x7d'] {} cs
      (if r.closed && isImportant flag && !rest.isEmpty then some (trimEnd {} value, true)
        else none, rest)
  | (value, rest, r) => (if r.closed then some (trimEnd {} value, false) else none, rest)

/-- What is left after something that is no custom property: it ends at a semicolon or
    with a block. -/
def skipItem (text : List Char) : List Char :=
  match upTo [';', '\x7b', '\x7d'] {} text with
  | (_, '\x7b' :: cs, _) => (upTo ['\x7d'] {} cs).2.1.drop 1
  | (_, rest, _) => rest

/-- The declaration at the beginning of a text, if it is one, and what is left. -/
def readItem (text : List Char) : Option Declaration × List Char :=
  match property text with
  | none => (none, skipItem text)
  | some (name, rest) =>
      ((readValue rest).1.map (fun v => ⟨name, v.1, v.2⟩), (readValue rest).2)

/-- The custom properties that are declared up to the end of a rule. -/
def declarations : Nat → List Char → List Declaration
  | 0, _ => []
  | fuel + 1, text =>
      match skip text with
      | [] => []
      | '\x7d' :: _ => []
      | ';' :: rest => declarations fuel rest
      | item => (readItem item).1.toList ++ declarations fuel (readItem item).2

/-- What stands between the braces of the first rule, and beyond it. -/
def ruleBody (text : List Char) : List Char := (upTo ['\x7b'] {} text).2.1.drop 1

/-- The values that the first rule of a text declares for a custom property, each with
    whether it is flagged as important. -/
def declared (text name : List Char) : List (List Char × Bool) :=
  ((declarations (text.length + 1) (ruleBody text)).filter (fun d => d.name == name)).map
    (fun d => (d.value, d.important))

/-- A value that is read to its end and is complete there. -/
def isWhole (value : List Char) : Bool :=
  (upTo valueMarks {} value).2.1.isEmpty && (upTo valueMarks {} value).2.2.closed

example : isWhole "rgba(17, 17, 17, 0.45) /* ; */ \\; \";\"".toList = true ∧
    isWhole "#FFFFFF; --a: b".toList = false ∧ isWhole "#FFFFFF /* x".toList = false ∧
    isWhole "url(a;b) <!-- c -->".toList = true ∧ isWhole "red\\".toList = false := by
  decide +kernel

end Declarations

section Reading
variable {r s : Reader} {marks v : List Char} {c : Char}

/-- The characters after the first one of `<!--`. -/
def afterAngle : List Char := ['!', '-', '-']

theorem plain_congr {cs ds : List Char} (h : afterAngle <+: cs ↔ afterAngle <+: ds) :
    r.plain c cs = r.plain c ds := by
  unfold afterAngle at h
  simp only [Reader.plain, h]

theorem stepIn_congr {token : Token} {cs ds : List Char}
    (h : afterAngle <+: cs ↔ afterAngle <+: ds) : r.stepIn token c cs = r.stepIn token c ds := by
  cases token with
  | plain => exact plain_congr h
  | string quote => rfl
  | url => rfl
  | badUrl => rfl

theorem step_congr {cs ds : List Char} (h : afterAngle <+: cs ↔ afterAngle <+: ds) :
    r.step c cs = r.step c ds := by
  unfold Reader.step
  rw [plain_congr h]
  simp only [stepIn_congr h]

theorem plain_cdo {cs : List Char} (h : afterAngle <+: cs) :
    (r.plain c cs).place = .cdo 3 ∨ ∀ ds, r.plain c ds = r.plain c cs := by
  by_cases hc : c = '<'
  · subst hc
    refine Or.inl ?_
    unfold afterAngle at h
    simp [Reader.plain, h, show isNameChar '<' = false by decide +kernel]
  · refine Or.inr (fun ds => ?_)
    simp only [Reader.plain, hc, false_and]

theorem stepIn_cdo {token : Token} {cs : List Char} (h : afterAngle <+: cs) :
    (r.stepIn token c cs).place = .cdo 3 ∨ ∀ ds, r.stepIn token c ds = r.stepIn token c cs := by
  cases token with
  | plain => exact plain_cdo h
  | string quote => exact Or.inr (fun ds => rfl)
  | url => exact Or.inr (fun ds => rfl)
  | badUrl => exact Or.inr (fun ds => rfl)

/-- What follows is looked at for the rest of `<!--` only, which is then read. -/
theorem step_cdo {cs : List Char} (h : afterAngle <+: cs) :
    (r.step c cs).place = .cdo 3 ∨ ∀ ds, r.step c ds = r.step c cs := by
  unfold Reader.step
  split
  · exact stepIn_cdo h
  · exact Or.inr (fun ds => rfl)
  · split
    · exact Or.inr (fun ds => rfl)
    · split
      · exact Or.inr (fun ds => rfl)
      · exact stepIn_cdo h
  · split
    · exact Or.inr (fun ds => rfl)
    · exact plain_cdo h
  all_goals exact Or.inr (fun ds => rfl)

theorem upTo_cons_of_stops {cs : List Char} (h : r.stops marks c = true) :
    upTo marks r (c :: cs) = ([], c :: cs, r) := by
  rw [upTo, if_pos h]

theorem upTo_cons {cs : List Char} (h : ¬ r.stops marks c = true) : upTo marks r (c :: cs) =
    (c :: (upTo marks (r.step c cs) cs).1, (upTo marks (r.step c cs) cs).2) := by
  rw [upTo, if_neg h]

theorem upTo_split (marks : List Char) (r : Reader) (text : List Char) :
    (upTo marks r text).1 ++ (upTo marks r text).2.1 = text := by
  induction text generalizing r with
  | nil => rfl
  | cons c cs ih =>
      by_cases h : r.stops marks c = true
      · rw [upTo_cons_of_stops h]
        rfl
      · rw [upTo_cons h, List.cons_append, ih]

theorem prefix_of_upTo (marks : List Char) (r : Reader) (text : List Char) :
    (upTo marks r text).1 <+: text := ⟨_, upTo_split marks r text⟩

/-- No mark is met in the middle of `<!--`. -/
theorem afterAngle_prefix_upTo {text : List Char} (hplace : r.place = .cdo 3)
    (h : afterAngle <+: text) : afterAngle <+: (upTo marks r text).1 := by
  obtain ⟨rest, rfl⟩ := h
  have hstops : ∀ left (s : Reader) d, s.place = .cdo left → ¬ s.stops marks d = true := by
    intro left s d hs
    simp [Reader.stops, Reader.now, hs]
  have hnext : ∀ left (s : Reader) d ds, 1 < left → s.place = .cdo left →
      (s.step d ds).place = .cdo (left - 1) := by
    intro left s d ds hleft hs
    simp [Reader.step, hs, Nat.not_le.mpr hleft]
  have htwo := hnext 3 r '!' ('-' :: '-' :: rest) (by decide) hplace
  have hone := hnext 2 _ '-' ('-' :: rest) (by decide) htwo
  change afterAngle <+: (upTo marks r ('!' :: '-' :: '-' :: rest)).1
  rw [upTo_cons (hstops 3 r '!' hplace), upTo_cons (hstops 2 _ '-' htwo),
    upTo_cons (hstops 1 _ '-' hone)]
  exact List.prefix_append _ _

/-- What was read before a mark is read alone in the same way. -/
theorem upTo_self (marks : List Char) (r : Reader) (text : List Char) :
    upTo marks r (upTo marks r text).1 =
      ((upTo marks r text).1, [], (upTo marks r text).2.2) := by
  induction text generalizing r with
  | nil => rfl
  | cons c cs ih =>
      by_cases h : r.stops marks c = true
      · rw [upTo_cons_of_stops h]
        rfl
      · have hsame : r.step c (upTo marks (r.step c cs) cs).1 = r.step c cs := by
          by_cases hcdo : afterAngle <+: cs
          · rcases step_cdo (r := r) (c := c) hcdo with hplace | hall
            · exact step_congr ⟨fun _ => hcdo, fun _ => afterAngle_prefix_upTo hplace hcdo⟩
            · exact hall _
          · exact step_congr ⟨fun hp => hp.trans (prefix_of_upTo _ _ _), fun hp => absurd hp hcdo⟩
        rw [upTo_cons h, upTo_cons h, hsame, ih]

/-- A text that is read to its end is read before a mark in the same way. -/
theorem upTo_append (hself : upTo marks r v = (v, [], s)) (hstop : s.stops marks c = true)
    (hc : c ∉ afterAngle) (rest : List Char) :
    upTo marks r (v ++ c :: rest) = (v, c :: rest, s) := by
  induction v generalizing r with
  | nil =>
      obtain rfl : r = s := congrArg (fun t => t.2.2) hself
      exact upTo_cons_of_stops hstop
  | cons a v ih =>
      by_cases h : r.stops marks a = true
      · rw [upTo_cons_of_stops h] at hself
        exact absurd (congrArg Prod.fst hself) (List.cons_ne_nil a v).symm
      · rw [upTo_cons h, Prod.mk.injEq, List.cons.injEq] at hself
        have hsame : r.step a (v ++ c :: rest) = r.step a v := by
          refine step_congr ⟨fun hp => ?_, fun hp => hp.trans (List.prefix_append _ _)⟩
          rcases List.prefix_or_prefix_of_prefix hp (List.prefix_append v (c :: rest)) with hv | hv
          · exact hv
          · -- The mark would be one of the characters that are looked for.
            obtain ⟨more, hmore⟩ := hv
            cases more with
            | nil => rw [← hmore, List.append_nil]
            | cons d more =>
                rw [← hmore, List.prefix_append_right_inj, List.cons_prefix_cons] at hp
                refine absurd ?_ hc
                rw [← hmore, ← hp.1]
                exact List.mem_append_right _ List.mem_cons_self
        rw [List.cons_append, upTo_cons h, hsame,
          ih (Prod.ext hself.1.2 hself.2)]

end Reading

section Whole
variable {r s : Reader} {v : List Char}

theorem isWhole_iff : isWhole v = true ↔
    ∃ s, upTo valueMarks {} v = (v, [], s) ∧ s.closed = true := by
  rw [isWhole, Bool.and_eq_true, List.isEmpty_iff]
  constructor
  · rintro ⟨hend, hclosed⟩
    have hsplit := upTo_split valueMarks {} v
    rw [hend, List.append_nil] at hsplit
    exact ⟨_, Prod.ext hsplit (Prod.ext hend rfl), hclosed⟩
  · rintro ⟨s, hread, hclosed⟩
    rw [hread]
    exact ⟨rfl, hclosed⟩

/-- A complete value can end at a mark. -/
theorem stops_of_closed {marks : List Char} {c : Char} (h : s.closed = true) (hc : c ∈ marks) :
    s.stops marks c = true := by
  rw [Reader.closed, Bool.and_eq_true, Bool.and_eq_true] at h
  rw [Reader.stops, Bool.and_eq_true, Bool.and_eq_true, List.contains_iff_mem]
  exact ⟨h.1, hc⟩

theorem prefix_of_trimEnd (r : Reader) (v : List Char) : trimEnd r v <+: v := by
  induction v generalizing r with
  | nil => exact List.prefix_refl []
  | cons c cs ih =>
      rw [trimEnd]
      split
      · exact List.nil_prefix
      · exact List.cons_prefix_cons.mpr ⟨rfl, ih _⟩

theorem trimEnd_cons {c : Char} (hc : isBlank c = false) (r : Reader) (cs : List Char) :
    trimEnd r (c :: cs) = c :: trimEnd (r.step c cs) cs := by
  rw [trimEnd, if_neg]
  rw [hc]
  simp

theorem trimEnd_eq_self (h : ∀ c ∈ v.getLast?, isBlank c = false) : trimEnd r v = v := by
  induction v generalizing r with
  | nil => rfl
  | cons c cs ih =>
      cases cs with
      | nil => exact trimEnd_cons (h c rfl) r []
      | cons d ds =>
          have hrest : trimEnd (r.step c (d :: ds)) (d :: ds) = d :: ds :=
            ih (fun e he => h e (by rwa [List.getLast?_cons_cons]))
          rw [trimEnd, hrest, if_neg]
          exact fun hnil => List.cons_ne_nil d ds hnil.1

theorem afterAngle_prefix_trimEnd {cs : List Char} (h : afterAngle <+: cs) :
    afterAngle <+: trimEnd r cs := by
  obtain ⟨rest, rfl⟩ := h
  change afterAngle <+: trimEnd r ('!' :: '-' :: '-' :: rest)
  rw [trimEnd_cons rfl, trimEnd_cons rfl, trimEnd_cons rfl]
  exact List.prefix_append _ _

theorem mem_of_isBlank {c : Char} (h : isBlank c = true) :
    c ∈ [' ', '\t', '\n', '\r', Char.ofNat 12] := by
  have hcode : ∀ n, c.toNat = n → c = Char.ofNat n := by
    intro n hn
    rw [← hn, Char.ofNat_toNat]
  simp only [isBlank, isBreak, Bool.or_eq_true, beq_iff_eq, List.contains_iff_mem,
    List.mem_cons, List.not_mem_nil, or_false] at h ⊢
  rcases h with (rfl | rfl) | h | h | h
  · exact Or.inl rfl
  · exact Or.inr (Or.inl rfl)
  · exact Or.inr (Or.inr (Or.inl (hcode 10 h)))
  · exact Or.inr (Or.inr (Or.inr (Or.inr (hcode 12 h))))
  · exact Or.inr (Or.inr (Or.inr (Or.inl (hcode 13 h))))

theorem plain_of_isBlank {c : Char} (h : isBlank c = true) (cs : List Char) :
    r.plain c cs = r.back := by
  have hmem := mem_of_isBlank h
  simp only [List.mem_cons, List.not_mem_nil, or_false] at hmem
  rcases hmem with rfl | rfl | rfl | rfl | rfl <;> rfl

/-- White space that is read for itself completes nothing. -/
theorem closed_of_step {c : Char} {cs : List Char} (hblank : isBlank c = true)
    (hplace : r.place = .within .plain ∨ r.place = .slash) (h : (r.step c cs).closed = true) :
    r.closed = true := by
  have hback : r.plain c cs = r.back := plain_of_isBlank hblank cs
  have hstar : c ≠ '*' := by
    rintro rfl
    exact absurd hblank (by decide)
  have hnow : r.now = true := by
    rcases hplace with hplace | hplace <;> rw [Reader.now, hplace]
  have hstep : r.step c cs = r.back := by
    rcases hplace with hplace | hplace
    · rw [Reader.step, hplace]
      exact hback
    · rw [Reader.step, hplace]
      simp only [if_neg hstar]
      exact hback
  rw [hstep] at h
  simp only [Reader.closed, Bool.and_eq_true] at h ⊢
  exact ⟨⟨hnow, h.1.2⟩, h.2⟩

/-- A complete value is complete without the white space at its end. -/
theorem upTo_trimEnd {marks : List Char} (hread : upTo marks r v = (v, [], s))
    (hclosed : s.closed = true) :
    ∃ t, upTo marks r (trimEnd r v) = (trimEnd r v, [], t) ∧ t.closed = true := by
  induction v generalizing r with
  | nil =>
      obtain rfl : r = s := congrArg (fun t => t.2.2) hread
      exact ⟨r, rfl, hclosed⟩
  | cons c cs ih =>
      by_cases h : r.stops marks c = true
      · rw [upTo_cons_of_stops h] at hread
        exact absurd (congrArg Prod.fst hread) (List.cons_ne_nil c cs).symm
      · rw [upTo_cons h, Prod.mk.injEq, List.cons.injEq] at hread
        obtain ⟨t, ht, htclosed⟩ := ih (Prod.ext hread.1.2 hread.2)
        rw [trimEnd]
        split
        · next hblank =>
            rw [hblank.1] at ht
            obtain rfl : r.step c cs = t := congrArg (fun t => t.2.2) ht
            exact ⟨r, rfl, closed_of_step hblank.2.1 hblank.2.2 htclosed⟩
        · have hsame : r.step c (trimEnd (r.step c cs) cs) = r.step c cs :=
            step_congr ⟨fun hp => hp.trans (prefix_of_trimEnd _ _), afterAngle_prefix_trimEnd⟩
          refine ⟨t, ?_, htclosed⟩
          rw [upTo_cons h, hsame, ht]

theorem isWhole_trimEnd {text : List Char} (h : (upTo valueMarks {} text).2.2.closed = true) :
    isWhole (trimEnd {} (upTo valueMarks {} text).1) = true :=
  isWhole_iff.mpr (upTo_trimEnd (upTo_self valueMarks {} text) h)

theorem isWhole_of_readValue {text : List Char} {v : List Char × Bool}
    (h : (readValue text).1 = some v) : isWhole v.1 = true := by
  have hwhole : _ → isWhole _ = true := @isWhole_trimEnd (text.dropWhile isBlank)
  unfold readValue at h
  split at h
  · cases h
  · next v cs r hread =>
      rw [hread] at hwhole
      dsimp only at h hwhole
      split at h
      · next hflag =>
          rw [Bool.and_eq_true, Bool.and_eq_true] at hflag
          rw [← Option.some.inj h]
          exact hwhole hflag.1.1
      · cases h
  · next v rest' r _ _ hread =>
      rw [hread] at hwhole
      dsimp only at h hwhole
      split at h
      · next hclosed =>
          rw [← Option.some.inj h]
          exact hwhole hclosed
      · cases h

theorem whole_of_readItem {text : List Char} {d : Declaration}
    (h : (readItem text).1 = some d) : isWhole d.value = true := by
  unfold readItem at h
  split at h
  · cases h
  · obtain ⟨v, hv, rfl⟩ := Option.map_eq_some_iff.mp h
    exact isWhole_of_readValue hv

/-- What is declared is whole. -/
theorem whole_of_mem_declarations {fuel : Nat} {text : List Char} {d : Declaration}
    (h : d ∈ declarations fuel text) : isWhole d.value = true := by
  induction fuel generalizing text with
  | zero => exact absurd h List.not_mem_nil
  | succ fuel ih =>
      unfold declarations at h
      split at h
      · exact absurd h List.not_mem_nil
      · exact absurd h List.not_mem_nil
      · exact ih h
      · rcases List.mem_append.mp h with h | h
        · exact whole_of_readItem (Option.mem_toList.mp h)
        · exact ih h

theorem whole_of_mem_declared {text name value : List Char} {important : Bool}
    (h : (value, important) ∈ declared text name) : isWhole value = true := by
  obtain ⟨d, hd, hvalue⟩ := List.mem_map.mp h
  obtain rfl : d.value = value := congrArg Prod.fst hvalue
  exact whole_of_mem_declarations (List.mem_of_mem_filter hd)

end Whole

section Writing
variable {r : Reader} {name value lead : List Char}

theorem skip_blank {c : Char} (hc : isBlank c = true) (cs : List Char) :
    skip (c :: cs) = skip cs := by
  have hmem := mem_of_isBlank hc
  simp only [List.mem_cons, List.not_mem_nil, or_false] at hmem
  rcases hmem with rfl | rfl | rfl | rfl | rfl <;> rfl

theorem skip_append (hlead : ∀ c ∈ lead, isBlank c = true) (text : List Char) :
    skip (lead ++ text) = skip text := by
  induction lead with
  | nil => rfl
  | cons c lead ih =>
      rw [List.cons_append, skip_blank (hlead c List.mem_cons_self)]
      exact ih (fun d hd => hlead d (List.mem_cons_of_mem c hd))

/-- A name is read to the first character that is none of a name. -/
theorem readName_append {c : Char} (hname : ∀ d ∈ name, isNameChar d = true)
    (hc : isNameChar c = false) (hescape : c ≠ '\\') (word rest : List Char) :
    readName { word := word } (name ++ c :: rest) = (word ++ name, c :: rest) := by
  induction name generalizing word with
  | nil =>
      have hspells : ¬ Reader.spells { word := word } c rest = true := by
        simp [Reader.spells, hc, hescape]
      rw [List.nil_append, List.append_nil, readName, if_neg hspells]
      rfl
  | cons d name ih =>
      have hd := hname d List.mem_cons_self
      have hspells : Reader.spells { word := word } d (name ++ c :: rest) = true := by
        simp [Reader.spells, hd]
      have hstep : Reader.step { word := word } d (name ++ c :: rest) =
          { word := word ++ [d] } := by
        simp [Reader.step, Reader.stepIn, Reader.plain, hd]
      rw [List.cons_append, readName, if_pos hspells, hstep,
        ih (fun e he => hname e (List.mem_cons_of_mem d he)), List.append_assoc,
        List.singleton_append]

/-- A name and a value that can be written out as a declaration. -/
structure Declarable (name value : List Char) : Prop where
  named : ∀ c ∈ name, isNameChar c = true
  custom : ['-', '-'] <+: name
  whole : isWhole value = true
  first : ∀ c ∈ value.head?, isBlank c = false
  last : ∀ c ∈ value.getLast?, isBlank c = false

theorem property_append (h : Declarable name value) (rest : List Char) :
    property (name ++ ':' :: rest) = some (name, rest) := by
  have hread := readName_append h.named (c := ':') (by decide +kernel) (by decide) [] rest
  have hread : readName {} (name ++ ':' :: rest) = (name, ':' :: rest) := hread
  rw [property, hread]
  exact if_pos h.custom

theorem readValue_append (h : Declarable name value) (rest : List Char) :
    readValue (' ' :: value ++ ';' :: rest) = (some (value, false), ';' :: rest) := by
  have hskip : (' ' :: value ++ ';' :: rest).dropWhile isBlank = value ++ ';' :: rest := by
    have hdrop : (' ' :: value ++ ';' :: rest).dropWhile isBlank =
        (value ++ ';' :: rest).dropWhile isBlank := rfl
    rw [hdrop]
    cases hvalue : value with
    | nil => rfl
    | cons c cs =>
        have hc : ¬ isBlank c = true := by
          rw [h.first c (by rw [hvalue]; rfl)]
          exact Bool.false_ne_true
        exact List.dropWhile_cons_of_neg hc
  obtain ⟨s, hread, hclosed⟩ := isWhole_iff.mp h.whole
  have hread := upTo_append hread (stops_of_closed hclosed (by decide)) (c := ';') (by decide) rest
  have hvalue : readValue (' ' :: value ++ ';' :: rest) =
      (if s.closed then some (trimEnd {} value, false) else none, ';' :: rest) := by
    rw [readValue, hskip, hread]
    rfl
  rw [hvalue, if_pos hclosed, trimEnd_eq_self h.last]

/-- A whole value that is written out is declared. -/
theorem declarations_line (hlead : ∀ c ∈ lead, isBlank c = true) (h : Declarable name value)
    (fuel : Nat) (rest : List Char) :
    declarations (fuel + 2) (lead ++ name ++ ':' :: ' ' :: value ++ ';' :: rest) =
      ⟨name, value, false⟩ :: declarations fuel rest := by
  obtain ⟨tail, htail⟩ := h.custom
  have hskip : skip (lead ++ name ++ ':' :: ' ' :: value ++ ';' :: rest) =
      name ++ ':' :: (' ' :: value ++ ';' :: rest) := by
    rw [List.append_assoc, List.append_assoc, skip_append hlead, ← htail]
    rfl
  have hitem : readItem (name ++ ':' :: (' ' :: value ++ ';' :: rest)) =
      (some ⟨name, value, false⟩, ';' :: rest) := by
    rw [readItem, property_append h]
    simp only [readValue_append h, Option.map_some]
  have hline : declarations (fuel + 2) (lead ++ name ++ ':' :: ' ' :: value ++ ';' :: rest) =
      (readItem (name ++ ':' :: (' ' :: value ++ ';' :: rest))).1.toList ++
        declarations (fuel + 1) (readItem (name ++ ':' :: (' ' :: value ++ ';' :: rest))).2 := by
    rw [declarations, hskip, ← htail]
    rfl
  rw [hline, hitem]
  rfl

/-- A line that declares a value for a name. -/
def lineOf (lead : List Char) (d : List Char × List Char) : List Char :=
  lead ++ d.1 ++ ':' :: ' ' :: d.2 ++ [';']

/-- What lines of declarations declare, and then the text that follows. -/
theorem declarations_lines (hlead : ∀ c ∈ lead, isBlank c = true)
    {ds : List (List Char × List Char)} (h : ∀ d ∈ ds, Declarable d.1 d.2) {fuel : Nat}
    {rest : List Char} (hfuel : (ds.flatMap (lineOf lead) ++ rest).length < fuel) :
    ∃ fuel', rest.length < fuel' ∧ declarations fuel (ds.flatMap (lineOf lead) ++ rest) =
      ds.map (fun d => ⟨d.1, d.2, false⟩) ++ declarations fuel' rest := by
  induction ds generalizing fuel with
  | nil => exact ⟨fuel, hfuel, rfl⟩
  | cons d ds ih =>
      have htext : (d :: ds).flatMap (lineOf lead) ++ rest = lead ++ d.1 ++ ':' :: ' ' :: d.2 ++
          ';' :: (ds.flatMap (lineOf lead) ++ rest) := by
        rw [List.flatMap_cons, lineOf, List.append_assoc, List.append_assoc]
        rfl
      rw [htext] at hfuel ⊢
      simp only [List.length_append, List.length_cons] at hfuel ih
      obtain ⟨n, rfl⟩ : ∃ n, fuel = n + 2 := ⟨fuel - 2, by omega⟩
      have hrest : (ds.flatMap (lineOf lead)).length + rest.length < n := by omega
      obtain ⟨fuel', hfuel', heq⟩ := ih (fun e he => h e (List.mem_cons_of_mem d he)) hrest
      refine ⟨fuel', hfuel', ?_⟩
      rw [declarations_line hlead (h d List.mem_cons_self), heq, List.map_cons, List.cons_append]

theorem declarations_of_skip {text text' : List Char} (h : skip text = skip text') (fuel : Nat) :
    declarations fuel text = declarations fuel text' := by
  cases fuel with
  | zero => rfl
  | succ fuel => rw [declarations, h, declarations]

/-- A character that is special nowhere outside strings, comments and addresses. -/
def isHarmless (c : Char) : Bool := isNameChar c || c == ' ' || c == '%' || c == '#'

/-- A text with nothing special in it is whole. -/
theorem whole_of_harmless (h : ∀ c ∈ value, isHarmless c = true) : isWhole value = true := by
  have hread : ∀ (v word : List Char), (∀ c ∈ v, isHarmless c = true) →
      ∃ last, upTo valueMarks { word := word } v = (v, [], { word := last }) := by
    intro v
    induction v with
    | nil => exact fun word _ => ⟨word, rfl⟩
    | cons c cs ih =>
        intro word hv
        have hc := hv c List.mem_cons_self
        -- A mark is no harmless character.
        have hmark : ¬ Reader.stops { word := word } valueMarks c = true := by
          have hharmful : ∀ d ∈ valueMarks, isHarmless d = false :=
            List.forall_iff_forall_mem.mp (by decide +kernel)
          intro hstops
          rw [Reader.stops, Bool.and_eq_true, List.contains_iff_mem] at hstops
          rw [hharmful c hstops.2] at hc
          cases hc
        -- Any harmless character leaves the reader outside of everything.
        have hstep : ∃ next, Reader.step { word := word } c cs = { word := next } := by
          by_cases hname : isNameChar c = true
          · refine ⟨word ++ [c], ?_⟩
            simp [Reader.step, Reader.stepIn, Reader.plain, hname]
          · simp only [isHarmless, hname, Bool.false_or, Bool.or_eq_true, beq_iff_eq] at hc
            rcases hc with (rfl | rfl) | rfl
            · exact ⟨[], rfl⟩
            · exact ⟨[], rfl⟩
            · exact ⟨['#'], rfl⟩
        obtain ⟨next, hnext⟩ := hstep
        obtain ⟨last, hlast⟩ := ih next (fun d hd => hv d (List.mem_cons_of_mem c hd))
        refine ⟨last, ?_⟩
        rw [upTo_cons hmark, hnext, hlast]
  obtain ⟨last, hlast⟩ := hread value [] h
  exact isWhole_iff.mpr ⟨_, hlast, rfl⟩

end Writing

end Lib.CssText
