import Mathlib.Data.List.Basic
import Mathlib.Data.String.Basic
import Mathlib.Tactic.Common

/-!
# Lower-Casing Texts

`lower` is the lower-casing of a text by the Unicode tables: every character on
its own, where a character may become several, and the capital sigma by its
place, as it is another letter at the end of a word. Whether it is at the end of
a word is told from the letters around it, over characters that do not count.

The tables are parameters. Some characters are plain: they are no letters, they do
count, they are their own lower case, and nothing else becomes one of them. A
text may be cut at a plain character before or after it is lower-cased.

## Main definitions

* `CaseTables`: What the tables say, and the plain characters.
* `CaseTables.lower`: Lower-casing.

## Theorems

* `lowerFrom_plain_append`: A text after a plain prefix.
* `lowerFrom_snoc_plain`: A text before a plain character.
* `mem_lowerFrom_plain`: Plain characters neither come nor go.
-/

namespace Lib

/-- The case tables, with a class of plain characters. -/
structure CaseTables (plain : Char → Bool) where
  lowerChar : Char → List Char
  cased : Char → Bool
  ignorable : Char → Bool
  lowerChar_ne_nil : ∀ c, lowerChar c ≠ []
  lowerChar_plain : ∀ c, plain c = true → lowerChar c = [c]
  not_cased : ∀ c, plain c = true → cased c = false
  not_ignorable : ∀ c, plain c = true → ignorable c = false
  kept : ∀ c d, d ∈ lowerChar c → plain d = true → d = c
  sigma : plain 'Σ' = false ∧ plain 'σ' = false ∧ plain 'ς' = false

namespace CaseTables
variable {plain : Char → Bool} (tables : CaseTables plain)

/-- Whether a capital sigma is at the end of a word: the next character that counts
    before it is a letter, and the next one after it is none. -/
def finalSigma (before after : List Char) : Bool :=
  (before.dropWhile tables.ignorable).head?.any tables.cased &&
    !(after.dropWhile tables.ignorable).head?.any tables.cased

/-- The lower case of one character between what is before it, read backwards, and
    what is after it. -/
def lowerAt (before : List Char) (c : Char) (after : List Char) : List Char :=
  if c = 'Σ' then [if tables.finalSigma before after then 'ς' else 'σ'] else tables.lowerChar c

def lowerFrom : List Char → List Char → List Char
  | _, [] => []
  | before, c :: cs => tables.lowerAt before c cs ++ lowerFrom (c :: before) cs

/-- `str.lower` -/
def lower (s : String) : String := String.ofList (tables.lowerFrom [] s.toList)

include tables in
theorem ne_sigma {c : Char} (h : plain c = true) : c ≠ 'Σ' := by
  rintro rfl
  rw [tables.sigma.1] at h
  cases h

theorem lowerAt_plain {c : Char} (h : plain c = true) (before after : List Char) :
    tables.lowerAt before c after = [c] := by
  rw [lowerAt, if_neg (tables.ne_sigma h), tables.lowerChar_plain c h]

theorem lowerAt_ne_nil (before : List Char) (c : Char) (after : List Char) :
    tables.lowerAt before c after ≠ [] := by
  unfold lowerAt
  split
  · exact List.cons_ne_nil _ _
  · exact tables.lowerChar_ne_nil c

/-- Nothing but a plain character becomes one. -/
theorem eq_of_mem_lowerAt {before after : List Char} {c d : Char}
    (h : d ∈ tables.lowerAt before c after) (hd : plain d = true) : d = c := by
  unfold lowerAt at h
  by_cases hc : c = 'Σ'
  · rw [if_pos hc, List.mem_singleton] at h
    split at h
    · rw [h, tables.sigma.2.2] at hd
      cases hd
    · rw [h, tables.sigma.2.1] at hd
      cases hd
  · rw [if_neg hc] at h
    exact tables.kept c d h hd

/-- Beyond a plain character nothing is looked at. -/
theorem head?_dropWhile_plain {c : Char} (h : plain c = true) (pre rest : List Char) :
    ((pre ++ c :: rest).dropWhile tables.ignorable).head?.any tables.cased
      = (pre.dropWhile tables.ignorable).head?.any tables.cased := by
  induction pre with
  | nil =>
      rw [List.nil_append, List.dropWhile_cons_of_neg
        (by rw [tables.not_ignorable c h]; exact Bool.false_ne_true)]
      exact tables.not_cased c h
  | cons d pre ih =>
      by_cases hd : tables.ignorable d = true
      · rw [List.cons_append, List.dropWhile_cons_of_pos hd, List.dropWhile_cons_of_pos hd]
        exact ih
      · rw [List.cons_append, List.dropWhile_cons_of_neg hd, List.dropWhile_cons_of_neg hd]
        rfl

/-- What is before a plain character does not matter after it. -/
theorem lowerFrom_after_plain {c : Char} (h : plain c = true) (pre before s : List Char) :
    tables.lowerFrom (pre ++ c :: before) s = tables.lowerFrom pre s := by
  induction s generalizing pre with
  | nil => rfl
  | cons d s ih =>
      have hrest := ih (d :: pre)
      rw [List.cons_append] at hrest
      rw [lowerFrom, lowerFrom, hrest, lowerAt, lowerAt, finalSigma, finalSigma,
        tables.head?_dropWhile_plain h, ← finalSigma]

/-- A plain prefix is its own lower case, and the rest is lower-cased alone. -/
theorem lowerFrom_plain_append {ws : List Char} (h : ∀ c ∈ ws, plain c = true) (s : List Char) :
    tables.lowerFrom [] (ws ++ s) = ws ++ tables.lowerFrom [] s := by
  induction ws with
  | nil => rfl
  | cons c ws ih =>
      have hc := h c List.mem_cons_self
      have hrest := tables.lowerFrom_after_plain hc [] [] (ws ++ s)
      rw [List.nil_append] at hrest
      rw [List.cons_append, lowerFrom, tables.lowerAt_plain hc, hrest,
        ih (fun d hd => h d (List.mem_cons_of_mem c hd))]
      rfl

/-- The last character of a text is lower-cased at the end. -/
theorem lowerFrom_snoc (before s : List Char) (c : Char) :
    ∃ u before', tables.lowerFrom before (s ++ [c]) = u ++ tables.lowerAt before' c [] := by
  induction s generalizing before with
  | nil => exact ⟨[], before, by rw [List.nil_append, lowerFrom, lowerFrom, List.append_nil]; rfl⟩
  | cons d s ih =>
      obtain ⟨u, before', hu⟩ := ih (d :: before)
      refine ⟨tables.lowerAt before d (s ++ [c]) ++ u, before', ?_⟩
      rw [List.cons_append, lowerFrom, hu, List.append_assoc]

/-- A plain character at the end stays there. -/
theorem lowerFrom_snoc_plain {c : Char} (h : plain c = true) (before s : List Char) :
    ∃ u, tables.lowerFrom before (s ++ [c]) = u ++ [c] := by
  obtain ⟨u, before', hu⟩ := tables.lowerFrom_snoc before s c
  exact ⟨u, by rw [hu, tables.lowerAt_plain h]⟩

/-- No other character at the end becomes a plain one. -/
theorem last_lowerFrom {c d : Char} {before s u : List Char} (hd : plain d = true)
    (h : tables.lowerFrom before (s ++ [c]) = u ++ [d]) : d = c := by
  obtain ⟨v, before', hv⟩ := tables.lowerFrom_snoc before s c
  have hlast := congrArg List.getLast? (hv.symm.trans h)
  rw [List.getLast?_append_of_ne_nil _ (tables.lowerAt_ne_nil before' c []),
    List.getLast?_concat] at hlast
  exact tables.eq_of_mem_lowerAt (List.mem_of_getLast? hlast) hd

/-- Plain characters neither come nor go. -/
theorem mem_lowerFrom_plain {d : Char} (hd : plain d = true) (before s : List Char) :
    d ∈ tables.lowerFrom before s ↔ d ∈ s := by
  induction s generalizing before with
  | nil => exact Iff.rfl
  | cons c s ih =>
      rw [lowerFrom, List.mem_append, ih, List.mem_cons]
      refine or_congr_left ⟨fun h => tables.eq_of_mem_lowerAt h hd, ?_⟩
      rintro rfl
      rw [tables.lowerAt_plain hd]
      exact List.mem_cons_self

end CaseTables

end Lib
