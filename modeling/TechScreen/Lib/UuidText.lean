import Mathlib.Data.List.Basic
import Mathlib.Tactic.Common
import TechScreen.Lib.Uuid

/-!
# Reading Identifiers

The reader of the canonical text of a UUID: 32 hexadecimal digits in five groups.
The digits are read with the hyphens left out, and what they denote is the
identifier if its text is the text that was read, so no other spelling passes.

## Main definitions

* `readHex`: The number that some hexadecimal digits denote.
* `Uuid.ofText?`: The identifier of a canonical text.

## Theorems

* `readHex_toDigits`: A written number is read back.
* `Uuid.ofText?_eq_some_iff`: Exactly the canonical text is read.
-/

namespace Lib

/-- The value of a hexadecimal digit. -/
def hexValue (c : Char) : Option Nat :=
  if '0' ≤ c ∧ c ≤ '9' then some (c.toNat - '0'.toNat)
  else if 'a' ≤ c ∧ c ≤ 'f' then some (c.toNat - 'a'.toNat + 10)
  else none

/-- The number that some digits denote after those that have been read. -/
def readHexFrom : Nat → List Char → Option Nat
  | n, [] => some n
  | n, c :: cs => (hexValue c).bind (fun d => readHexFrom (16 * n + d) cs)

/-- The number that some hexadecimal digits denote. -/
def readHex (cs : List Char) : Option Nat := readHexFrom 0 cs

theorem hexValue_digitChar {d : Nat} (h : d < 16) : hexValue d.digitChar = some d := by
  revert h
  revert d
  decide

theorem digitChar_ne_hyphen {d : Nat} (h : d < 16) : d.digitChar ≠ '-' := by
  revert h
  revert d
  decide

theorem readHexFrom_append (cs ds : List Char) (n : Nat) :
    readHexFrom n (cs ++ ds) = (readHexFrom n cs).bind (fun m => readHexFrom m ds) := by
  induction cs generalizing n with
  | nil => rfl
  | cons c cs ih =>
      rw [List.cons_append, readHexFrom, readHexFrom]
      cases hexValue c with
      | none => rfl
      | some d => exact ih (16 * n + d)

/-- A written number is read back. -/
theorem readHex_toDigits (n : Nat) : readHex (Nat.toDigits 16 n) = some n := by
  induction n using Nat.base_induction 16 (by decide) with
  | single d hd =>
      rw [Nat.toDigits_of_lt_base hd, readHex, readHexFrom, hexValue_digitChar hd,
        Option.bind_some, readHexFrom, Nat.mul_zero, Nat.zero_add]
  | digit m d hd hm ih =>
      rw [← Nat.toDigits_append_toDigits (by decide) hm hd, readHex, readHexFrom_append]
      rw [readHex] at ih
      rw [ih, Nat.toDigits_of_lt_base hd, Option.bind_some, readHexFrom, hexValue_digitChar hd]
      rfl

theorem readHex_leftpad (n k : Nat) : readHex ((Nat.toDigits 16 n).leftpad k '0') = some n := by
  have hzeros : ∀ m, readHexFrom 0 (List.replicate m '0') = some 0 := by
    intro m
    induction m with
    | zero => rfl
    | succ m ih => exact ih
  rw [List.leftpad, readHex, readHexFrom_append, hzeros, Option.bind_some]
  exact readHex_toDigits n

theorem not_hyphen_of_mem_toDigits {n : Nat} {c : Char} (h : c ∈ Nat.toDigits 16 n) : c ≠ '-' := by
  induction n using Nat.base_induction 16 (by decide) with
  | single d hd =>
      rw [Nat.toDigits_of_lt_base hd, List.mem_singleton] at h
      rw [h]
      exact digitChar_ne_hyphen hd
  | digit m d hd hm ih =>
      rw [← Nat.toDigits_append_toDigits (by decide) hm hd, List.mem_append] at h
      rcases h with h | h
      · exact ih h
      · rw [Nat.toDigits_of_lt_base hd, List.mem_singleton] at h
        rw [h]
        exact digitChar_ne_hyphen hd

/-- The text of an identifier without its hyphens. -/
theorem Uuid.filter_text (u : Uuid) : u.text.toList.filter (fun c => c != '-')
    = (Nat.toDigits 16 u.bits.toNat).leftpad 32 '0' := by
  have hlen : (Nat.toDigits 16 u.bits.toNat).length ≤ 32 :=
    (Nat.length_toDigits_le_iff (by decide) (by decide)).mpr
      (Nat.lt_of_lt_of_le u.bits.isLt (by decide))
  have hdigits : ∀ c ∈ (Nat.toDigits 16 u.bits.toNat).leftpad 32 '0', c ≠ '-' := by
    intro c hc
    rw [List.leftpad, List.mem_append] at hc
    rcases hc with hc | hc
    · rw [List.eq_of_mem_replicate hc]
      decide
    · exact not_hyphen_of_mem_toDigits hc
  unfold Uuid.text
  generalize hds : (Nat.toDigits 16 u.bits.toNat).leftpad 32 '0' = ds at hdigits
  have hlength : ds.length = 32 := by
    rw [← hds, List.leftpad, List.length_append, List.length_replicate]
    omega
  have hkeep : ∀ start size, ((ds.drop start).take size).filter (fun c => c != '-')
      = (ds.drop start).take size := by
    intro start size
    rw [List.filter_eq_self]
    intro c hc
    have hne := hdigits c (List.mem_of_mem_drop (List.mem_of_mem_take hc))
    simpa using hne
  have hcut : ∀ start size stop, start + size = stop →
      (ds.drop start).take size ++ ds.drop stop = ds.drop start := by
    rintro start size stop rfl
    rw [← List.drop_drop, List.take_append_drop]
  have hyphen : "-".toList.filter (fun c => c != '-') = [] := by decide
  have hlast : (ds.drop 20).take 12 = ds.drop 20 :=
    List.take_of_length_le (Nat.le_of_eq (by rw [List.length_drop, hlength]))
  -- The groups are put together from the last to the first.
  simp only [String.toList_append, String.toList_ofList, List.filter_append, hkeep, hyphen,
    List.nil_append, List.append_assoc]
  rw [hlast, hcut 16 4 20 rfl, hcut 12 4 16 rfl, hcut 8 4 12 rfl, hcut 0 8 8 rfl, List.drop_zero]

/-- The identifier of a canonical text. -/
def Uuid.ofText? (s : String) : Option Uuid :=
  (readHex (s.toList.filter (fun c => c != '-'))).bind (fun n =>
    if (Uuid.mk (BitVec.ofNat 128 n)).text = s then some ⟨BitVec.ofNat 128 n⟩ else none)

/-- Exactly the canonical text of an identifier is read as it. -/
theorem Uuid.ofText?_eq_some_iff (s : String) (u : Uuid) :
    Uuid.ofText? s = some u ↔ s = u.text := by
  constructor
  · intro h
    obtain ⟨n, _, hn⟩ := Option.bind_eq_some_iff.mp h
    split at hn
    · next htext =>
        rw [← Option.some.inj hn]
        exact htext.symm
    · cases hn
  · rintro rfl
    have hself : (⟨BitVec.ofNat 128 u.bits.toNat⟩ : Uuid) = u := by
      rw [BitVec.ofNat_toNat, BitVec.setWidth_eq]
    rw [Uuid.ofText?, Uuid.filter_text, readHex_leftpad, Option.bind_some, hself, if_pos rfl]

end Lib
