import TechScreen.Lib.JsLiteral
import TechScreen.Lib.Nest
import TechScreen.Lib.SortOn
import TechScreen.Lib.Splice

/-!
# Design Tokens

The generator of the design tokens: it reads the tables of roles from Markdown
files, sorts the rows into buckets by the first segment of their paths, and emits
a tree of colours and a block of CSS variables. The block replaces what is between
two markers of a stylesheet.

The arithmetic on colours is a parameter: it takes the three channels of a colour
to its hue, saturation and lightness, rounded. A tree keeps its entries in the
order in which they were made, and lists them as the language does, with the keys
that are numbers first. No key is `__proto__`, since a path has no underscore.

## Main definitions

* `parseTokenRows`: The rows of one file.
* `buildBuckets`: The rows in their buckets.
* `buildTokensTs`: The module with the tree of colours, and the other buckets.
* `buildCssBlock`: The block of CSS variables.
* `assembleGlobalsCss`: The stylesheet with the block.
-/

namespace TechScreen.Frontend

open Lib

section Texts

/-- What `trim` takes off, and what `\s` matches. -/
def isSpace (c : Char) : Bool :=
  [9, 10, 11, 12, 13, 32, 160, 0x1680, 0x2028, 0x2029, 0x202f, 0x205f, 0x3000, 0xfeff].contains
    c.toNat || (0x2000 ≤ c.toNat && c.toNat ≤ 0x200a)

def trim (s : List Char) : List Char :=
  ((s.dropWhile isSpace).reverse.dropWhile isSpace).reverse

/-- What `.` does not match. -/
def isLineEnd (c : Char) : Bool := [10, 13, 0x2028, 0x2029].contains c.toNat

/-- There is no white space at either end. -/
def Trimmed (s : List Char) : Prop :=
  (∀ c ∈ s.head?, isSpace c = false) ∧ ∀ c ∈ s.getLast?, isSpace c = false

theorem all_not_iff (p : Char → Bool) (o : Option Char) :
    o.all (fun c => !p c) = true ↔ ∀ c ∈ o, p c = false := by
  cases o <;> simp

/-- Trimmed texts are told by their ends, and not by a search through all characters. -/
instance (s : List Char) : Decidable (Trimmed s) :=
  decidable_of_iff
    (s.head?.all (fun c => !isSpace c) = true ∧ s.getLast?.all (fun c => !isSpace c) = true)
    (and_congr (all_not_iff isSpace s.head?) (all_not_iff isSpace s.getLast?))

theorem head?_dropWhile {s : List Char} : ∀ c ∈ (s.dropWhile isSpace).head?, isSpace c = false := by
  intro c hc
  have hnot := List.head?_dropWhile_not isSpace s
  rw [Option.mem_def.mp hc] at hnot
  exact hnot

theorem trimmed_trim (s : List Char) : Trimmed (trim s) := by
  unfold Trimmed trim
  constructor
  · -- The first character is still there when the end is taken off.
    intro c hc
    obtain ⟨tail, htail⟩ := List.dropWhile_suffix isSpace (l := (s.dropWhile isSpace).reverse)
    have hsplit := congrArg List.reverse htail
    rw [List.reverse_append, List.reverse_reverse] at hsplit
    refine head?_dropWhile (s := s) c ?_
    rw [← hsplit, List.head?_append, Option.mem_def.mp hc]
    rfl
  · intro c hc
    rw [List.getLast?_reverse] at hc
    exact head?_dropWhile c hc

/-- `path.split(".")` -/
def segments (path : String) : List String := (path.toList.splitOn '.').map String.ofList

/-- `segs.join(".")` -/
def joinDots (segs : List String) : String :=
  String.ofList (['.'].intercalate (segs.map String.toList))

/-- `lines.join("\n")` -/
def joinLines (lines : List String) : String :=
  String.ofList (['\n'].intercalate (lines.map String.toList))

end Texts

section Parser

/-- A match of `/^[a-z][a-z0-9]*(\.[a-z0-9-]+)+$/i`. -/
def isTokenPath (path : String) : Bool :=
  match path.toList.splitOn '.' with
  | (c :: cs) :: seg :: segs =>
      c.isAlpha && cs.all Char.isAlphanum &&
        (seg :: segs).all (fun s => !s.isEmpty && s.all (fun c => c.isAlphanum || c == '-'))
  | _ => false

/-- A row of a table, with its cells cleaned. -/
structure ParsedRow where
  path : String
  value : String
  extra : Option String
  isPath : isTokenPath path = true
  trimmed : Trimmed value.toList

/-- ``.replace(/^`(.*)`$/, "$1")`` -/
def unquote (cell : List Char) : List Char :=
  match cell with
  | '\x60' :: rest =>
      if rest.getLast? = some '\x60' ∧ rest.dropLast.any isLineEnd = false then rest.dropLast
      else cell
  | _ => cell

def cleanCell (cell : List Char) : List Char := trim (unquote (trim cell))

/-- The cells of a line of a table. -/
def cellsOf (line : List Char) : Option (List (List Char)) :=
  let trimmed := trim line
  if trimmed.head? = some '|' ∧ trimmed.getLast? = some '|' then
    some (((trimmed.drop 1).dropLast.splitOn '|').map trim)
  else none

theorem cell_trimmed (cell : List Char) : Trimmed (String.ofList (cleanCell cell)).toList := by
  rw [String.toList_ofList]
  exact trimmed_trim _

/-- The row on a line, if there is one. -/
def parseRow (line : List Char) : Option ParsedRow :=
  match cellsOf line with
  | some (role :: value :: rest) =>
      if (trim role).head? = some '\x60' then
        if hpath : isTokenPath (String.ofList (cleanCell role)) = true then
          some
            { path := String.ofList (cleanCell role)
              value := String.ofList (cleanCell value)
              extra := rest.head?.map (fun cell => String.ofList (cleanCell cell))
              isPath := hpath
              trimmed := cell_trimmed value }
        else none
      else none
  | _ => none

/-- The rows of one file. -/
def parseTokenRows (md : String) : List ParsedRow :=
  (md.toList.splitOn '\n').filterMap parseRow

end Parser

section Buckets

def colorPrefixes : List String :=
  ["surface", "border", "content", "brand", "status", "focus", "overlay"]

/-- The colours by role: an object of objects with texts in them. -/
abbrev Colors := List (String × Nest String String)

/-- A size alone, or with its line height. -/
inductive FontSize where
  | plain (size : String)
  | withLineHeight (size lineHeight : String)
  deriving DecidableEq

structure Buckets where
  colors : Colors := []
  space : Dict String String := .empty
  fontSize : Dict String FontSize := .empty
  fontFamily : Dict String String := .empty
  borderRadius : Dict String String := .empty
  transitionDuration : Dict String String := .empty

/-- `setNested`: whatever is no object on the way is replaced by one. -/
def setNested (obj : Colors) (pathSegments : List String) (value : String) : Colors :=
  Nest.assign obj pathSegments value

/-- `\d+(?:\.\d+)?` at the beginning, and what is left. -/
def amountOf (s : List Char) : List Char × List Char :=
  match s.dropWhile Char.isDigit with
  | '.' :: rest =>
      if (rest.takeWhile Char.isDigit).isEmpty then (s.takeWhile Char.isDigit, '.' :: rest)
      else (s.takeWhile Char.isDigit ++ '.' :: rest.takeWhile Char.isDigit,
        rest.dropWhile Char.isDigit)
  | rest => (s.takeWhile Char.isDigit, rest)

/-- An amount of a unit is written without the space between them. -/
def unitValue (unit : String) (raw : String) : String :=
  let text := trim raw.toList
  let (amount, rest) := amountOf text
  if amount.isEmpty = false ∧ rest.dropWhile isSpace = unit.toList then
    String.ofList (amount ++ unit.toList)
  else String.ofList text

def pxValue (raw : String) : String := unitValue "px" raw

def msValue (raw : String) : String := unitValue "ms" raw

/-- One row into its bucket. -/
def addRow (buckets : Buckets) (row : ParsedRow) : Buckets :=
  let segs := segments row.path
  let head := segs.headD ""
  let key := joinDots segs.tail
  if head ∈ colorPrefixes then
    { buckets with colors := setNested buckets.colors segs row.value }
  else if head = "space" then
    { buckets with space := buckets.space.set key (pxValue row.value) }
  else if head = "radius" then
    { buckets with borderRadius := buckets.borderRadius.set key (pxValue row.value) }
  else if head = "text" then
    let size := pxValue row.value
    let lh := match row.extra with
      | some extra => if extra = "" then "" else pxValue extra
      | none => ""
    let font := if lh = "" then FontSize.plain size else FontSize.withLineHeight size lh
    { buckets with fontSize := buckets.fontSize.set key font }
  else if head = "motion" then
    { buckets with transitionDuration := buckets.transitionDuration.set key (msValue row.value) }
  else buckets

def buildBuckets (rows : List ParsedRow) : Buckets := rows.foldl addRow {}

/-- The row is one of the colours. -/
def ParsedRow.isColor (row : ParsedRow) : Bool :=
  colorPrefixes.contains ((segments row.path).headD "")

end Buckets

section Listing

/-- The number that a key of an array is, if it is one. -/
def arrayIndex (key : String) : Option Nat :=
  let digits := key.toList
  let index := digits.foldl (fun n c => 10 * n + (c.toNat - '0'.toNat)) 0
  if digits.all Char.isDigit ∧ (digits = ['0'] ∨ digits.head?.any (· != '0')) ∧
      index < 4294967295 then some index
  else none

/-- `Object.entries`: the keys of arrays first, in their order, and then the others in
    the order in which they were made. -/
def objectEntries {α : Type} (es : List (String × α)) : List (String × α) :=
  sortOn (fun e => (arrayIndex e.1).getD 0) (es.filter (fun e => (arrayIndex e.1).isSome)) ++
    es.filter (fun e => !(arrayIndex e.1).isSome)

example : (objectEntries [("base", 1), ("50", 2), ("01", 3), ("5", 4)]).map Prod.fst
    = ["5", "50", "base", "01"] := by
  decide +kernel

theorem objectEntries_perm {α : Type} (es : List (String × α)) : (objectEntries es).Perm es :=
  ((sortOn_perm _ _).append_right _).trans (List.filter_append_perm _ es)

end Listing

section Module

open JsLiteral (Literal writeKey)

mutual

/-- A tree whose dictionaries are listed, as a literal. -/
def literalOf : Nest String String → Literal
  | .leaf value => .str value.toList
  | .node es => .obj (membersOf es)

def membersOf : List (String × Nest String String) → List (List Char × Literal)
  | [] => []
  | (key, t) :: rest => (key.toList, literalOf t) :: membersOf rest

end

def stringsOf (d : Dict String String) : Literal :=
  .obj ((objectEntries d.entries).map (fun e => (e.1.toList, .str e.2.toList)))

def FontSize.literal : FontSize → Literal
  | .plain size => .str size.toList
  | .withLineHeight size lineHeight =>
      .arr [.str size.toList, .obj [("lineHeight".toList, .str lineHeight.toList)]]

/-- The buckets, with the entries of every object as they are listed. -/
def Buckets.literal (buckets : Buckets) : Literal :=
  .obj
    [("colors".toList, .obj (membersOf (Nest.arrange objectEntries buckets.colors))),
      ("space".toList, stringsOf buckets.space),
      ("fontSize".toList, .obj ((objectEntries buckets.fontSize.entries).map
        (fun e => (e.1.toList, e.2.literal)))),
      ("fontFamily".toList, stringsOf buckets.fontFamily),
      ("borderRadius".toList, stringsOf buckets.borderRadius),
      ("transitionDuration".toList, stringsOf buckets.transitionDuration)]

mutual

/-- A value whose entries are listed. -/
def serializeJsLike (indent : List Char) : Literal → List Char
  | .str s => JsonText.quote s
  | .arr items => '[' :: JsonText.commas (serializeItems (indent ++ [' ', ' ']) items) ++ [']']
  | .obj [] => ['\x7b', '\x7d']
  | .obj members =>
      '\x7b' :: '\n' :: [',', '\n'].intercalate (serializeMembers indent members) ++
        ',' :: '\n' :: indent ++ ['\x7d']

def serializeItems (indent : List Char) : List Literal → List (List Char)
  | [] => []
  | item :: items => serializeJsLike indent item :: serializeItems indent items

def serializeMembers (indent : List Char) : List (List Char × Literal) → List (List Char)
  | [] => []
  | (key, value) :: members =>
      (indent ++ ' ' :: ' ' :: writeKey key ++ ':' :: ' ' ::
        serializeJsLike (indent ++ [' ', ' ']) value) :: serializeMembers indent members

end

def tokensHeader : String :=
  "// AUTO-GENERATED by app/frontend/scripts/generate-tokens.ts — do not edit by hand.\n"

/-- The module with the tokens. -/
def buildTokensTs (buckets : Buckets) : String :=
  String.ofList (tokensHeader.toList ++ "export const tokens = ".toList ++
    serializeJsLike [] buckets.literal ++
    " as const;\nexport type Tokens = typeof tokens;\n".toList)

end Module

section Css
variable (toHsl : Nat → Nat → Nat → Int × Int × Int)

def roleToShadcnAlias : List (String × String) :=
  [("surface.base", "background"),
    ("content.primary", "foreground"),
    ("surface.base", "card"),
    ("content.primary", "card-foreground"),
    ("surface.base", "popover"),
    ("content.primary", "popover-foreground"),
    ("brand.primary", "primary"),
    ("content.inverted", "primary-foreground"),
    ("surface.muted", "secondary"),
    ("content.primary", "secondary-foreground"),
    ("surface.muted", "muted"),
    ("content.muted", "muted-foreground"),
    ("brand.primary-subtle", "accent"),
    ("content.primary", "accent-foreground"),
    ("status.danger", "destructive"),
    ("content.inverted", "destructive-foreground"),
    ("border.default", "border"),
    ("border.default", "input"),
    ("focus.ring", "ring")]

def isHexDigit (c : Char) : Bool :=
  c.isDigit || ('A' ≤ c && c ≤ 'F') || ('a' ≤ c && c ≤ 'f')

/-- A match of `/^#[0-9A-Fa-f]{3}$|^#[0-9A-Fa-f]{6}$/`. -/
def isHex (value : String) : Bool :=
  match value.toList with
  | '#' :: digits => digits.all isHexDigit && (digits.length == 3 || digits.length == 6)
  | _ => false

def hexDigit (c : Char) : Nat :=
  if c.isDigit then c.toNat - '0'.toNat
  else if 'a' ≤ c then c.toNat - 'a'.toNat + 10
  else c.toNat - 'A'.toNat + 10

/-- `parseInt` to the base 16, of two digits. -/
def parseByte (high low : Char) : Nat := 16 * hexDigit high + hexDigit low

def hslText (hsl : Int × Int × Int) : String :=
  toString hsl.1 ++ " " ++ toString hsl.2.1 ++ "% " ++ toString hsl.2.2 ++ "%"

def dropHash : List Char → List Char
  | '#' :: rest => rest
  | h => h

/-- The digits of a colour, each one twice in the short form. -/
def hexDigits (hex : List Char) : List Char :=
  let h := dropHash (trim hex)
  if h.length = 3 then h.flatMap (fun c => [c, c]) else h

/-- `hexToHsl`, of a text that is made of hexadecimal digits. -/
def hexToHsl (hex : String) : Except String String :=
  match hexDigits hex.toList with
  | [r₁, r₀, g₁, g₀, b₁, b₀] =>
      .ok (hslText (toHsl (parseByte r₁ r₀) (parseByte g₁ g₀) (parseByte b₁ b₀)))
  | _ => .error ("hexToHsl: unexpected hex \"" ++ hex ++ "\"")

def cssValue (value : String) : Except String String :=
  if isHex value then hexToHsl toHsl value else .ok value

/-- The paths and values of all colours. -/
def walkColors (colors : Colors) : List (String × String) :=
  (Nest.walkEntries [] (Nest.arrange objectEntries colors)).map (fun e => (joinDots e.1, e.2))

def hyphen (c : Char) : Char := if c = '.' then '-' else c

/-- `--${role.replace(/\./g, "-")}` -/
def roleToVar (role : String) : String := "--" ++ String.ofList (role.toList.map hyphen)

/-- The line of a colour. -/
def roleLine (row : ParsedRow) : Except String String := do
  let css ← cssValue toHsl row.value
  .ok ("  " ++ roleToVar row.path ++ ": " ++ css ++ ";")

/-- The line of an alias, whose role has to be there. -/
def aliasLine (buckets : Buckets) (entry : String × String) : Except String String :=
  if (walkColors buckets.colors).any (fun e => e.1 == entry.1) then
    .ok ("  --" ++ entry.2 ++ ": var(" ++ roleToVar entry.1 ++ ");")
  else .error ("generate-tokens: alias \"" ++ entry.2 ++ "\" references missing role \"" ++
    entry.1 ++ "\". Add it to docs/design/tokens/colors.md or remove the alias mapping.")

def radiusLine (buckets : Buckets) : List String :=
  match buckets.borderRadius.get? "md" with
  | some radiusMd => ["  --radius: " ++ radiusMd ++ ";"]
  | none => []

def cssLines (rows : List ParsedRow) (buckets : Buckets) : Except String (List String) := do
  let roles ← (rows.filter ParsedRow.isColor).mapM (roleLine toHsl)
  let aliases ← roleToShadcnAlias.mapM (aliasLine buckets)
  .ok (":root \x7b" :: roles ++ ["", "  /* shadcn aliases */"] ++ aliases ++
    radiusLine buckets ++ ["\x7d"])

def buildCssBlock (rows : List ParsedRow) (buckets : Buckets) : Except String String := do
  let lines ← cssLines toHsl rows buckets
  .ok (joinLines lines)

end Css

section Assembly

def tokensMarkerStart : String :=
  "/* TOKENS:START — generated by scripts/generate-tokens.ts, do not edit */"

def tokensMarkerEnd : String := "/* TOKENS:END */"

/-- The stylesheet at a path with a block between its markers. -/
def assembleGlobalsCss (globalsCssPath currentCss generatedBlock : String) :
    Except String String :=
  match splice tokensMarkerStart.toList tokensMarkerEnd.toList
      ('\n' :: generatedBlock.toList ++ ['\n']) currentCss.toList with
  | some css => .ok (String.ofList css)
  | none => .error ("generate-tokens: missing TOKENS markers in " ++ globalsCssPath ++
      ". Expected \"" ++ tokensMarkerStart ++ "\" and \"" ++ tokensMarkerEnd ++ "\".")

end Assembly

end TechScreen.Frontend
