import Mathlib.Data.List.Infix
import Mathlib.Tactic.Common

/-!
# Patterns and Substitution

Regular expressions that are sequences of character classes, each for one
character or for a run of at least so many, and what a backtracking engine does
with them. A run is taken as long as it can be and is given back a character at a
time when what follows does not match. `substitute` replaces what is found from
left to right, and goes on after it.

Which of several matches the engine prefers does not matter for the text that is
left. A place where something matches is a place where the engine finds
something, so what it passes over begins no match, and a match cannot reach over
a replacement that has a character on either side which no class of the pattern
takes.

## Main definitions

* `Piece`, `Pattern`: A pattern, which takes a character at least.
* `Matches`: The texts that a pattern is for.
* `matchAt`: The match at the beginning of a text, by backtracking.
* `substitute`: Every match replaced.
* `Free`: A text in which nothing matches.
* `Walled`: A replacement that no match can touch.

## Theorems

* `matchAt_sound`, `matchAt_complete`: The engine finds a match where there is one.
* `free_substitute`: Nothing matches in what is left.
* `substitute_of_free`: Where nothing matches nothing is replaced.
-/

namespace Lib

section Syntax
variable (α : Type)

/-- A character class, for one character or for a run. -/
inductive Piece where
  | one (test : α → Bool)
  | many (least : Nat) (test : α → Bool)

variable {α}

/-- The piece takes the character. -/
def Piece.test : Piece α → α → Bool
  | .one test => test
  | .many _ test => test

/-- The piece takes a character at least. -/
def Piece.takes : Piece α → Bool
  | .one _ => true
  | .many least _ => least ≠ 0

variable (α) in
/-- A sequence of pieces that takes a character at least. -/
structure Pattern where
  pieces : List (Piece α)
  takes : pieces.any Piece.takes = true

/-- The text is one that the pieces are for. -/
inductive Matches : List (Piece α) → List α → Prop
  | nil : Matches [] []
  | one (test : α → Bool) (c : α) {pieces : List (Piece α)} {w : List α} (hc : test c = true)
      (h : Matches pieces w) : Matches (.one test :: pieces) (c :: w)
  | many (least : Nat) (test : α → Bool) (run : List α) {pieces : List (Piece α)} {w : List α}
      (hrun : ∀ c ∈ run, test c = true) (hleast : least ≤ run.length) (h : Matches pieces w) :
      Matches (.many least test :: pieces) (run ++ w)

end Syntax

section Engine
variable {α : Type}

/-- A run of a class before what `next` looks for: as long as possible first. -/
def greedy (test : α → Bool) (next : List α → Option (List α)) : Nat → List α → Option (List α)
  | least, [] => if least = 0 then next [] else none
  | least, c :: cs =>
      match (if test c then greedy test next (least - 1) cs else none) with
      | some rest => some rest
      | none => if least = 0 then next (c :: cs) else none

/-- What is left of a text after the match at its beginning. -/
def matchAt : List (Piece α) → List α → Option (List α)
  | [], s => some s
  | .one _ :: _, [] => none
  | .one test :: pieces, c :: cs => if test c then matchAt pieces cs else none
  | .many least test :: pieces, s => greedy test (matchAt pieces) least s

/-- The matches replaced from left to right, with fuel for every character. -/
def substituteFrom (p : Pattern α) (replacement : List α) : Nat → List α → List α
  | 0, s => s
  | _ + 1, [] => []
  | fuel + 1, c :: cs =>
      match matchAt p.pieces (c :: cs) with
      | some rest => replacement ++ substituteFrom p replacement fuel rest
      | none => c :: substituteFrom p replacement fuel cs

/-- `re.sub`, for a pattern that takes a character at least. -/
def substitute (p : Pattern α) (replacement s : List α) : List α :=
  substituteFrom p replacement s.length s

theorem greedy_sound {test : α → Bool} {next : List α → Option (List α)} {least : Nat}
    {s rest : List α} (h : greedy test next least s = some rest) :
    ∃ run s', s = run ++ s' ∧ (∀ c ∈ run, test c = true) ∧ least ≤ run.length ∧
      next s' = some rest := by
  -- A run of no character is left over to what follows.
  have hstop : ∀ {s least}, (if least = 0 then next s else none) = some rest →
      ∃ run s', s = run ++ s' ∧ (∀ c ∈ run, test c = true) ∧ least ≤ run.length ∧
        next s' = some rest := by
    intro s least h
    by_cases hleast : least = 0
    · rw [if_pos hleast] at h
      exact ⟨[], s, rfl, fun c hc => absurd hc List.not_mem_nil, by omega, h⟩
    · rw [if_neg hleast] at h
      cases h
  induction s generalizing least with
  | nil => exact hstop h
  | cons c cs ih =>
      rw [greedy] at h
      by_cases hc : test c = true
      · rw [if_pos hc] at h
        cases hgo : greedy test next (least - 1) cs with
        | none =>
            rw [hgo] at h
            exact hstop h
        | some r =>
            simp only [hgo, Option.some.injEq] at h
            subst h
            obtain ⟨run, s', rfl, hrun, hleast, hnext⟩ := ih hgo
            refine ⟨c :: run, s', rfl, ?_, ?_, hnext⟩
            · rintro d (_ | ⟨_, hd⟩)
              · exact hc
              · exact hrun d hd
            · rw [List.length_cons]
              omega
      · rw [if_neg hc] at h
        exact hstop h

theorem greedy_complete {test : α → Bool} {next : List α → Option (List α)} {least : Nat}
    {run s : List α} (hrun : ∀ c ∈ run, test c = true) (hleast : least ≤ run.length)
    (hnext : (next s).isSome = true) : (greedy test next least (run ++ s)).isSome = true := by
  induction run generalizing least with
  | nil =>
      rw [List.length_nil] at hleast
      have hzero : least = 0 := by omega
      subst hzero
      cases s with
      | nil =>
          rw [List.nil_append, greedy, if_pos rfl]
          exact hnext
      | cons c cs =>
          rw [List.nil_append, greedy]
          split
          · rfl
          · rw [if_pos rfl]
            exact hnext
  | cons c run ih =>
      rw [List.length_cons] at hleast
      have hleast' : least - 1 ≤ run.length := by omega
      have hrest := ih (fun d hd => hrun d (List.mem_cons_of_mem c hd)) hleast'
      rw [List.cons_append, greedy, if_pos (hrun c List.mem_cons_self)]
      obtain ⟨r, hr⟩ := Option.isSome_iff_exists.mp hrest
      rw [hr]
      rfl

theorem matchAt_sound {pieces : List (Piece α)} {s rest : List α}
    (h : matchAt pieces s = some rest) : ∃ w, s = w ++ rest ∧ Matches pieces w := by
  induction pieces generalizing s with
  | nil =>
      rw [matchAt, Option.some.injEq] at h
      exact ⟨[], h, Matches.nil⟩
  | cons piece pieces ih =>
      cases piece with
      | one test =>
          cases s with
          | nil => cases h
          | cons c cs =>
              rw [matchAt] at h
              by_cases hc : test c = true
              · rw [if_pos hc] at h
                obtain ⟨w, rfl, hw⟩ := ih h
                exact ⟨c :: w, rfl, Matches.one test c hc hw⟩
              · rw [if_neg hc] at h
                cases h
      | many least test =>
          obtain ⟨run, s', rfl, hrun, hleast, hnext⟩ := greedy_sound h
          obtain ⟨w, rfl, hw⟩ := ih hnext
          exact ⟨run ++ w, (List.append_assoc _ _ _).symm,
            Matches.many least test run hrun hleast hw⟩

/-- Where something matches the engine finds something. -/
theorem matchAt_complete {pieces : List (Piece α)} {w : List α} (h : Matches pieces w)
    (rest : List α) : (matchAt pieces (w ++ rest)).isSome = true := by
  induction h with
  | nil => rfl
  | one test c hc h ih =>
      rw [List.cons_append, matchAt, if_pos hc]
      exact ih
  | many least test run hrun hleast h ih =>
      rw [List.append_assoc, matchAt]
      exact greedy_complete hrun hleast ih

/-- A match has only characters that a class of the pattern takes. -/
theorem Matches.tested {pieces : List (Piece α)} {w : List α} (h : Matches pieces w) :
    ∀ c ∈ w, ∃ piece ∈ pieces, piece.test c = true := by
  induction h with
  | nil => exact fun c hc => absurd hc List.not_mem_nil
  | one test d hd h ih =>
      rintro c (_ | ⟨_, hc⟩)
      · exact ⟨_, List.mem_cons_self, hd⟩
      · obtain ⟨piece, hpiece, htest⟩ := ih c hc
        exact ⟨piece, List.mem_cons_of_mem _ hpiece, htest⟩
  | many least test run hrun hleast h ih =>
      intro c hc
      rcases List.mem_append.mp hc with hc | hc
      · exact ⟨_, List.mem_cons_self, hrun c hc⟩
      · obtain ⟨piece, hpiece, htest⟩ := ih c hc
        exact ⟨piece, List.mem_cons_of_mem _ hpiece, htest⟩

/-- The match of a pattern is not empty. -/
theorem Matches.ne_nil {p : Pattern α} {w : List α} (h : Matches p.pieces w) : w ≠ [] := by
  have hpieces : ∀ {pieces : List (Piece α)} {w}, Matches pieces w →
      pieces.any Piece.takes = true → w ≠ [] := by
    intro pieces w h htakes
    induction h with
    | nil => cases htakes
    | one test c hc h ih => exact List.cons_ne_nil _ _
    | many least test run hrun hleast h ih =>
        intro hnil
        obtain ⟨rfl, rfl⟩ := List.append_eq_nil_iff.mp hnil
        rw [List.length_nil] at hleast
        rw [List.any_cons, Piece.takes, Bool.or_eq_true, decide_eq_true_eq] at htakes
        exact ih (htakes.resolve_left (fun hne => hne (by omega))) rfl
  exact hpieces h p.takes

end Engine

section Substitution
variable {α : Type} {p : Pattern α} {replacement : List α}

/-- Nothing in the text matches. -/
def Free (p : Pattern α) (s : List α) : Prop := ∀ w, w <:+: s → ¬ Matches p.pieces w

/-- No class of the pattern takes the character. -/
def Foreign (p : Pattern α) (c : α) : Prop := ∀ piece ∈ p.pieces, piece.test c = false

/-- The replacement begins and ends with a character that the pattern does not take,
    and nothing in between matches. -/
structure Walled (p : Pattern α) (replacement : List α) : Prop where
  walls : ∃ first inner last, replacement = first :: (inner ++ [last]) ∧ Foreign p first ∧
    Foreign p last ∧ Free p inner

theorem Foreign.not_mem {c : α} (hc : Foreign p c) {w : List α} (h : Matches p.pieces w) :
    c ∉ w := by
  intro hmem
  obtain ⟨piece, hpiece, htest⟩ := h.tested c hmem
  rw [hc piece hpiece] at htest
  cases htest

theorem free_nil : Free p [] := by
  intro w hw h
  exact h.ne_nil (List.infix_nil.mp hw)

/-- A match does not reach over a character that the pattern does not take. -/
theorem Free.append_cons {xs ys : List α} {c : α} (hxs : Free p xs) (hc : Foreign p c)
    (hys : Free p ys) : Free p (xs ++ c :: ys) := by
  intro w hw h
  obtain ⟨before, after, hsplit⟩ := hw
  have hnot := hc.not_mem h
  rw [List.append_assoc, List.append_eq_append_iff] at hsplit
  rcases hsplit with ⟨us, hxs', hrest⟩ | ⟨us, hbefore, hrest⟩
  · -- The match begins in the first part, so it ends there.
    rcases List.append_eq_append_iff.mp hrest with ⟨vs, hus, -⟩ | ⟨vs, hw', hafter⟩
    · exact hxs w ⟨before, vs, by rw [hxs', hus, List.append_assoc]⟩ h
    · cases vs with
      | nil =>
          rw [List.append_nil] at hw'
          exact hxs w ⟨before, [], by rw [hxs', hw', List.append_nil]⟩ h
      | cons d vs =>
          rw [List.cons_append, List.cons.injEq] at hafter
          refine hnot ?_
          rw [hw', hafter.1]
          exact List.mem_append_right _ List.mem_cons_self
  · cases us with
    | nil =>
        -- It would begin with the character.
        rw [List.nil_append] at hrest
        cases w with
        | nil => exact h.ne_nil rfl
        | cons d w =>
            rw [List.cons_append, List.cons.injEq] at hrest
            exact hnot (hrest.1 ▸ List.mem_cons_self)
    | cons d us =>
        rw [List.cons_append, List.cons.injEq] at hrest
        exact hys w ⟨us, after, by rw [List.append_assoc]; exact hrest.2.symm⟩ h

theorem Walled.free_append (h : Walled p replacement) {ys : List α} (hys : Free p ys) :
    Free p (replacement ++ ys) := by
  obtain ⟨first, inner, last, rfl, hfirst, hlast, hinner⟩ := h.walls
  have hinside : Free p (inner ++ last :: ys) := hinner.append_cons hlast hys
  have hall := free_nil.append_cons hfirst hinside
  rw [List.nil_append] at hall
  rw [List.cons_append, List.append_assoc, List.singleton_append]
  exact hall

/-- What begins the text that is left and can be matched began the text before. -/
theorem prefix_of_substituteFrom (hwalled : Walled p replacement) {fuel : Nat} {s w : List α}
    (h : w <+: substituteFrom p replacement fuel s) (hw : ∀ c ∈ w, ¬ Foreign p c) : w <+: s := by
  induction fuel generalizing s w with
  | zero => exact h
  | succ fuel ih =>
      cases s with
      | nil => exact h
      | cons c cs =>
          cases hmatch : matchAt p.pieces (c :: cs) with
          | some rest =>
              simp only [substituteFrom, hmatch] at h
              obtain ⟨first, inner, last, rfl, hfirst, -, -⟩ := hwalled.walls
              cases w with
              | nil => exact List.nil_prefix
              | cons d w =>
                  rw [List.cons_append, List.cons_prefix_cons] at h
                  exact absurd hfirst (h.1 ▸ hw d List.mem_cons_self)
          | none =>
              simp only [substituteFrom, hmatch] at h
              cases w with
              | nil => exact List.nil_prefix
              | cons d w =>
                  rw [List.cons_prefix_cons] at h ⊢
                  exact ⟨h.1, ih h.2 (fun e he => hw e (List.mem_cons_of_mem d he))⟩

theorem free_substituteFrom (hwalled : Walled p replacement) {fuel : Nat} {s : List α}
    (hfuel : s.length ≤ fuel) : Free p (substituteFrom p replacement fuel s) := by
  induction fuel generalizing s with
  | zero =>
      rw [List.eq_nil_of_length_eq_zero (by omega : s.length = 0)]
      exact free_nil
  | succ fuel ih =>
      cases s with
      | nil => exact free_nil
      | cons c cs =>
          rw [List.length_cons] at hfuel
          rw [substituteFrom]
          cases hmatch : matchAt p.pieces (c :: cs) with
          | some rest =>
              obtain ⟨w, hsplit, hw⟩ := matchAt_sound hmatch
              have hlength := congrArg List.length hsplit
              have hpos := List.length_pos_of_ne_nil hw.ne_nil
              rw [List.length_cons, List.length_append] at hlength
              exact hwalled.free_append (ih (by omega))
          | none =>
              intro w hinfix hw
              rcases List.infix_cons_iff.mp hinfix with hprefix | hinfix
              · -- A match at the character would have been found there.
                have hall : ∀ d ∈ w, ¬ Foreign p d := fun d hd hforeign =>
                  hforeign.not_mem hw hd
                have hbegins : w <+: c :: cs := by
                  have hsubst : w <+: substituteFrom p replacement (fuel + 1) (c :: cs) := by
                    rw [substituteFrom, hmatch]
                    exact hprefix
                  exact prefix_of_substituteFrom hwalled hsubst hall
                obtain ⟨rest, hrest⟩ := hbegins
                have hfound := matchAt_complete hw rest
                rw [hrest, hmatch] at hfound
                cases hfound
              · exact ih (by omega) w hinfix hw

/-- Nothing matches in what is left. -/
theorem free_substitute (hwalled : Walled p replacement) (s : List α) :
    Free p (substitute p replacement s) :=
  free_substituteFrom hwalled (Nat.le_refl _)

/-- Where nothing matches nothing is replaced. -/
theorem substitute_of_free {s : List α} (h : Free p s) : substitute p replacement s = s := by
  have hfrom : ∀ fuel, substituteFrom p replacement fuel s = s := by
    intro fuel
    induction fuel generalizing s with
    | zero => rfl
    | succ fuel ih =>
        cases s with
        | nil => rfl
        | cons c cs =>
            rw [substituteFrom]
            cases hmatch : matchAt p.pieces (c :: cs) with
            | some rest =>
                obtain ⟨w, hsplit, hw⟩ := matchAt_sound hmatch
                exact absurd hw (h w ⟨[], rest, hsplit.symm⟩)
            | none =>
                have hrest : Free p cs := fun w hw => h w (hw.trans (List.suffix_cons c cs).isInfix)
                simp only [ih hrest]
  exact hfrom s.length

end Substitution

end Lib
