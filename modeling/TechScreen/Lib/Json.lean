import Mathlib.Data.Rat.Defs
import TechScreen.Lib.Dict
import TechScreen.Lib.Uuid

/-!
# JSON Documents and Validators

JSON values as a scripting language holds them, integers and floating-point
numbers apart, and the vocabulary in which a validation library reads typed
values out of them and writes them back.

How a library coerces a scalar is its own business: it may read an integer out
of a numeric string, or a truth value out of a zero. `Scalars` therefore takes
the scalar readers as they come. All it fixes is that a scalar the library
wrote is read back unchanged, which is the whole contract a stored document
relies on. Everything built from scalars is defined here: optional values,
sequences, enumerations, dictionaries, and records with required fields,
defaulted fields and a closed set of keys.

A `Codec` is a writer and a reader with the law that reading undoes writing.
The combinators keep the law, so the codec of a nested document is assembled
from the codecs of its parts and needs no argument of its own beyond them.

## Main definitions

* `Json`: A JSON value.
* `Json.get?`: A field of an object.
* `Json.closed`: An object with no keys outside a list.
* `Scalars`: The scalar readers and writers of a validation library.
* `Scalars.strict`: A library that coerces nothing.
* `Codec`: A writer and a reader that undoes it.
* `Codec.option`, `Codec.list`, `Codec.dict`, `Codec.literal`: Combinators.
* `required`, `defaulted`: Reading a field of a record.

## Theorems

* `mapM_map_eq_some`: Reading back a written list, element by element.
-/

namespace Lib

/-- A JSON value. An object is the list of its fields. -/
inductive Json where
  | null
  | bool (b : Bool)
  | int (n : Int)
  | float (q : ℚ)
  | str (s : String)
  | arr (items : List Json)
  | obj (fields : List (String × Json))

namespace Json

/-- The field of an object under a key. -/
def get? : Json → String → Option Json
  | .obj fields, k => fields.lookup k
  | _, _ => none

/-- An object whose keys all lie in the list. -/
def closed (keys : List String) : Json → Bool
  | .obj fields => fields.all (fun p => keys.contains p.1)
  | _ => false

end Json

/-- Timestamps with a known offset, as microseconds on the UTC line. -/
abbrev Instant := Int

/-- How a validation library reads and writes scalars. The readers may coerce;
    what was written is read back unchanged. -/
class Scalars where
  readBool : Json → Option Bool
  readInt : Json → Option Int
  readFloat : Json → Option ℚ
  readStr : Json → Option String
  readUuid : Json → Option Uuid
  readInstant : Json → Option Instant
  writeUuid : Uuid → String
  writeInstant : Instant → String
  readBool_bool : ∀ b, readBool (.bool b) = some b
  readInt_int : ∀ n, readInt (.int n) = some n
  readFloat_float : ∀ q, readFloat (.float q) = some q
  readStr_str : ∀ s, readStr (.str s) = some s
  readUuid_writeUuid : ∀ u, readUuid (.str (writeUuid u)) = some u
  readInstant_writeInstant : ∀ t, readInstant (.str (writeInstant t)) = some t

/-- The number a list of decimal digits denotes. -/
def readDigits (ds : List Char) : Option Nat :=
  if ds.all Char.isDigit then some (Nat.ofDigitChars 10 ds 0) else none

theorem readDigits_toDigits (n : Nat) : readDigits (Nat.toDigits 10 n) = some n := by
  have hall : (Nat.toDigits 10 n).all Char.isDigit = true :=
    List.all_eq_true.mpr (fun c hc => Nat.isDigit_of_mem_toDigits (by decide) (by decide) hc)
  rw [readDigits, if_pos hall, Nat.ofDigitChars_ten_toDigits]

/-- A signed decimal numeral. -/
def readNumeral : List Char → Option Int
  | '-' :: ds => (readDigits ds).map (fun n => -(n : Int))
  | ds => (readDigits ds).map Int.ofNat

def numeral : Int → List Char
  | .ofNat n => Nat.toDigits 10 n
  | .negSucc n => '-' :: Nat.toDigits 10 (n + 1)

theorem readNumeral_numeral (t : Int) : readNumeral (numeral t) = some t := by
  cases t with
  | ofNat n =>
      have hd := readDigits_toDigits n
      rw [numeral]
      unfold readNumeral
      split
      · next ds heq =>
          have hmem : '-' ∈ Nat.toDigits 10 n := heq ▸ List.mem_cons_self
          have hdigit := Nat.isDigit_of_mem_toDigits (by decide) (by decide) hmem
          exact absurd hdigit (by decide)
      · rw [hd]
        rfl
  | negSucc n =>
      rw [numeral, readNumeral, readDigits_toDigits]
      rfl

/-- A strict reader: a scalar is read only from its own kind. Identifiers and
    timestamps are written as decimal numerals. -/
@[reducible] def Scalars.strict : Scalars where
  readBool
    | .bool b => some b
    | _ => none
  readInt
    | .int n => some n
    | _ => none
  readFloat
    | .float q => some q
    | _ => none
  readStr
    | .str s => some s
    | _ => none
  readUuid
    | .str s => (readDigits s.toList).map (fun n => ⟨BitVec.ofNat 128 n⟩)
    | _ => none
  readInstant
    | .str s => readNumeral s.toList
    | _ => none
  writeUuid u := String.ofList (Nat.toDigits 10 u.bits.toNat)
  writeInstant t := String.ofList (numeral t)
  readBool_bool _ := rfl
  readInt_int _ := rfl
  readFloat_float _ := rfl
  readStr_str _ := rfl
  readUuid_writeUuid u := by
    simp only [String.toList_ofList, readDigits_toDigits, Option.map_some, BitVec.ofNat_toNat,
      BitVec.setWidth_eq]
  readInstant_writeInstant t := by
    simp only [String.toList_ofList, readNumeral_numeral]

/-- A writer, and a reader that undoes it. -/
structure Codec (α : Type) where
  write : α → Json
  read : Json → Option α
  read_write : ∀ a, read (write a) = some a

/-- Reading back a written list, element by element. -/
theorem mapM_map_eq_some {α β : Type} (write : α → β) (read : β → Option α)
    (h : ∀ a, read (write a) = some a) (l : List α) : (l.map write).mapM read = some l := by
  induction l with
  | nil => rfl
  | cons a rest ih =>
      rw [List.map_cons, List.mapM_cons, h, ih]
      rfl

namespace Codec

section
variable [Scalars]

def bool : Codec Bool := ⟨.bool, Scalars.readBool, Scalars.readBool_bool⟩

def int : Codec Int := ⟨.int, Scalars.readInt, Scalars.readInt_int⟩

def float : Codec ℚ := ⟨.float, Scalars.readFloat, Scalars.readFloat_float⟩

def str : Codec String := ⟨.str, Scalars.readStr, Scalars.readStr_str⟩

def uuid : Codec Uuid :=
  ⟨fun u => .str (Scalars.writeUuid u), Scalars.readUuid, Scalars.readUuid_writeUuid⟩

def instant : Codec Instant :=
  ⟨fun t => .str (Scalars.writeInstant t), Scalars.readInstant, Scalars.readInstant_writeInstant⟩

end

/-- Any JSON value, kept as it is. -/
def any : Codec Json := ⟨id, some, fun _ => rfl⟩

/-- An optional value: absence is written as null, which no value may be. -/
def option {α : Type} (c : Codec α) (h : ∀ a, c.write a ≠ .null) : Codec (Option α) where
  write
    | none => .null
    | some a => c.write a
  read
    | .null => some none
    | j => (c.read j).map some
  read_write := by
    intro o
    cases o with
    | none => rfl
    | some a =>
        have hne := h a
        have hrw := c.read_write a
        cases hw : c.write a with
        | null => exact absurd hw hne
        | _ => rw [hw] at hrw; simp only [hw, hrw, Option.map_some]

/-- A sequence, written as an array. -/
def list {α : Type} (c : Codec α) : Codec (List α) where
  write l := .arr (l.map c.write)
  read
    | .arr items => items.mapM c.read
    | _ => none
  read_write := mapM_map_eq_some c.write c.read c.read_write

/-- A value of a finite vocabulary, written as its name in the table. -/
def literal {α : Type} (name : α → String) (table : List (String × α))
    (h : ∀ a, table.lookup (name a) = some a) : Codec α where
  write a := .str (name a)
  read
    | .str s => table.lookup s
    | _ => none
  read_write := h

/-- Read one entry of a dictionary. -/
def readEntry {α β : Type} (readKey : Json → Option α) (c : Codec β) (p : String × Json) :
    Option (α × β) := do
  let k ← readKey (.str p.1)
  let v ← c.read p.2
  some (k, v)

/-- A dictionary, its keys written as strings and read back as keys. -/
def dict {α β : Type} [DecidableEq α] (key : α → String) (readKey : Json → Option α)
    (hkey : ∀ a, readKey (.str (key a)) = some a) (c : Codec β) : Codec (Dict α β) where
  write d := .obj (d.entries.map (fun p => (key p.1, c.write p.2)))
  read
    | .obj fields => (fields.mapM (readEntry readKey c)).map Dict.ofList
    | _ => none
  read_write := by
    intro d
    have hentry : ∀ p : α × β, readEntry readKey c (key p.1, c.write p.2) = some p := by
      intro p
      simp only [readEntry, hkey, c.read_write, Option.bind_eq_bind, Option.bind_some]
    have hlist := mapM_map_eq_some _ (readEntry readKey c) hentry d.entries
    simp only [hlist, Option.map_some, Dict.ofList_entries]

end Codec

/-- Read a field that has to be there. -/
def required {α : Type} (c : Codec α) (key : String) (doc : Json) : Option α :=
  (doc.get? key).bind c.read

/-- Read a field that stands for its default where it is missing. -/
def defaulted {α : Type} (c : Codec α) (default : α) (key : String) (doc : Json) : Option α :=
  match doc.get? key with
  | none => some default
  | some j => c.read j

end Lib
