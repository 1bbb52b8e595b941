import Mathlib.Data.List.Infix
import Mathlib.Tactic.Common

/-!
# Replacing What Is Between Two Markers

A text with a start marker and an end marker, each of which occurs in it once, and
the replacement of what is between them by something else on lines of its own.
The new text is marked in the same way if no marker is in what is put there: a
marker that has no line break in it cannot come about across one. So what is
outside the markers stays, and the same replacement once more changes nothing.

Beside it stands what a text has to do with the pieces that it is split into.

## Main definitions

* `indexOf`: The first occurrence of a block in a list.
* `splice`: The replacement.
* `Marked`: A text with the two markers.

## Theorems

* `mem_of_mem_splitOn`, `eq_or_mem_splitOn`: What the pieces of a list are made of.
* `splitOn_injective`: A list is told by its pieces.
* `occurs_append_cons`: A block does not occur across what is not in it.
* `splice_of_marked`: What a replacement comes to.
* `marked_splice`: The new text is marked as the old one was.
-/

namespace Lib

variable {α : Type}

section Pieces
variable [DecidableEq α]

/-- What is in a piece is in the list. -/
theorem mem_of_mem_splitOn {c d : α} {s w : List α} (h : w ∈ s.splitOn c) (hd : d ∈ w) : d ∈ s := by
  induction s generalizing w with
  | nil =>
      rw [List.splitOn_nil, List.mem_singleton] at h
      rwa [h] at hd
  | cons e s ih =>
      rw [List.splitOn_cons_eq_if_modifyHead] at h
      split at h
      · rcases List.mem_cons.mp h with rfl | hw
        · exact absurd hd List.not_mem_nil
        · exact List.mem_cons_of_mem e (ih hw hd)
      · obtain ⟨r, rs, hr⟩ := List.exists_cons_of_ne_nil (List.splitOn_ne_nil c s)
        rw [hr] at ih h
        rw [List.modifyHead_cons] at h
        rcases List.mem_cons.mp h with rfl | hw
        · rcases List.mem_cons.mp hd with rfl | hd
          · exact List.mem_cons_self
          · exact List.mem_cons_of_mem e (ih List.mem_cons_self hd)
        · exact List.mem_cons_of_mem e (ih (List.mem_cons_of_mem r hw) hd)

/-- What is in no piece is what the list is split at. -/
theorem eq_or_mem_splitOn {c d : α} {s : List α} (hd : d ∈ s) :
    d = c ∨ ∃ w ∈ s.splitOn c, d ∈ w := by
  induction s with
  | nil => exact absurd hd List.not_mem_nil
  | cons e s ih =>
      rw [List.splitOn_cons_eq_if_modifyHead]
      split
      · next he =>
          rcases List.mem_cons.mp hd with rfl | hd
          · exact Or.inl (beq_iff_eq.mp he)
          · exact (ih hd).imp_right (fun ⟨w, hw, hdw⟩ => ⟨w, List.mem_cons_of_mem _ hw, hdw⟩)
      · obtain ⟨r, rs, hr⟩ := List.exists_cons_of_ne_nil (List.splitOn_ne_nil c s)
        rw [hr] at ih ⊢
        rw [List.modifyHead_cons]
        rcases List.mem_cons.mp hd with rfl | hd
        · exact Or.inr ⟨d :: r, List.mem_cons_self, List.mem_cons_self⟩
        · rcases ih hd with hc | ⟨w, hw, hdw⟩
          · exact Or.inl hc
          · rcases List.mem_cons.mp hw with rfl | hw
            · exact Or.inr ⟨e :: w, List.mem_cons_self, List.mem_cons_of_mem e hdw⟩
            · exact Or.inr ⟨w, List.mem_cons_of_mem _ hw, hdw⟩

/-- The first of several pieces, and what follows it. -/
theorem eq_append_of_splitOn {c : α} {s w v : List α} {vs : List (List α)}
    (h : s.splitOn c = w :: v :: vs) : ∃ rest, s = w ++ c :: rest := by
  have hs : [c].intercalate (s.splitOn c) = s := List.intercalate_splitOn c
  rw [h, List.intercalate_cons_cons, List.append_assoc, List.singleton_append] at hs
  exact ⟨_, hs.symm⟩

theorem splitOn_injective {c : α} {s t : List α} (h : s.splitOn c = t.splitOn c) : s = t := by
  have hs : [c].intercalate (s.splitOn c) = s := List.intercalate_splitOn c
  have ht : [c].intercalate (t.splitOn c) = t := List.intercalate_splitOn c
  rw [← hs, h, ht]

end Pieces

section Occurrences
variable [DecidableEq α]

/-- Where a block occurs first. -/
def indexOf (pat : List α) : List α → Option Nat
  | [] => if pat = [] then some 0 else none
  | c :: cs => if pat <+: c :: cs then some 0 else (indexOf pat cs).map (· + 1)

theorem indexOf_of_first {pat s before after : List α} (hsplit : s = before ++ pat ++ after)
    (hfirst : ∀ b a, s = b ++ pat ++ a → before.length ≤ b.length) :
    indexOf pat s = some before.length := by
  induction before generalizing s with
  | nil =>
      rw [List.nil_append] at hsplit
      cases s with
      | nil =>
          have hpat := (List.append_eq_nil_iff.mp hsplit.symm).1
          rw [indexOf, if_pos hpat, List.length_nil]
      | cons c cs => rw [indexOf, if_pos ⟨after, hsplit.symm⟩, List.length_nil]
  | cons c before ih =>
      rw [List.cons_append, List.cons_append] at hsplit
      have hnot : ¬ pat <+: s := by
        rintro ⟨rest, hrest⟩
        have hle := hfirst [] rest (by rw [List.nil_append, hrest])
        rw [List.length_cons, List.length_nil] at hle
        exact Nat.not_succ_le_zero _ hle
      subst hsplit
      have htail := ih rfl (fun b a hb => by
        have hle := hfirst (c :: b) a (by rw [hb]; rfl)
        rw [List.length_cons, List.length_cons] at hle
        exact Nat.le_of_succ_le_succ hle)
      rw [indexOf, if_neg hnot, htail, Option.map_some, List.length_cons]

/-- Replace what is between the first start marker and the first end marker. -/
def splice (start stop body s : List α) : Option (List α) :=
  match indexOf start s, indexOf stop s with
  | some i, some j => some (s.take i ++ start ++ body ++ stop ++ s.drop (j + stop.length))
  | _, _ => none

end Occurrences

/-- A block does not occur across an element that is not in it. -/
theorem occurs_append_cons {pat xs ys b a : List α} {c : α} (hc : c ∉ pat)
    (h : xs ++ c :: ys = b ++ pat ++ a) :
    (∃ a', xs = b ++ pat ++ a') ∨ ∃ b', b = xs ++ c :: b' ∧ ys = b' ++ pat ++ a := by
  rcases List.append_eq_append_iff.mp h with ⟨us, hus, hrest⟩ | ⟨us, hus, -⟩
  · cases us with
    | nil => exact Or.inl ⟨[], by rw [hus, List.append_nil, List.append_nil]⟩
    | cons d us =>
        obtain ⟨rfl, rfl⟩ := List.cons.inj hrest
        rcases List.append_eq_append_iff.mp hus with ⟨vs, -, hpat⟩ | ⟨vs, hb, hpat⟩
        · -- The element would be in the block.
          refine absurd ?_ hc
          rw [hpat]
          exact List.mem_append_right _ List.mem_cons_self
        · cases vs with
          | nil =>
              refine absurd ?_ hc
              rw [← List.nil_append pat, ← hpat]
              exact List.mem_cons_self
          | cons d vs =>
              obtain ⟨rfl, rfl⟩ := List.cons.inj hpat
              exact Or.inr ⟨vs, hb, rfl⟩
  · exact Or.inl ⟨us, hus⟩

/-- A text with one start marker and one end marker after it. -/
structure Marked (start stop s pre mid post : List α) : Prop where
  split : s = pre ++ start ++ mid ++ stop ++ post
  start_once : ∀ b a, s = b ++ start ++ a → b = pre
  stop_once : ∀ b a, s = b ++ stop ++ a → b = pre ++ start ++ mid

/-- Where a block occurs once can be told from the places it could begin at. -/
theorem once_of_places {pat s pre rest : List α} (hs : pre ++ rest = s)
    (h : ∀ i < s.length + 1, pat <+: s.drop i → i = pre.length) :
    ∀ b a, s = b ++ pat ++ a → b = pre := by
  intro b a hb
  have hplace : b.length = pre.length := by
    refine h b.length ?_ ⟨a, ?_⟩
    · rw [hb, List.length_append, List.length_append]
      omega
    · rw [hb, List.append_assoc, List.drop_left]
  exact (List.append_inj ((List.append_assoc b pat a).symm.trans (hb.symm.trans hs.symm)) hplace).1

theorem marked_of_places {start stop s pre mid post : List α}
    (hsplit : s = pre ++ start ++ mid ++ stop ++ post)
    (hstart : ∀ i < s.length + 1, start <+: s.drop i → i = pre.length)
    (hstop : ∀ i < s.length + 1, stop <+: s.drop i → i = (pre ++ start ++ mid).length) :
    Marked start stop s pre mid post where
  split := hsplit
  start_once := by
    rw [List.append_assoc, List.append_assoc, List.append_assoc] at hsplit
    exact once_of_places hsplit.symm hstart
  stop_once := by
    rw [List.append_assoc] at hsplit
    exact once_of_places hsplit.symm hstop

section Replacing
variable [DecidableEq α] {start stop s pre mid post : List α}

/-- Outside the markers the text stays as it is. -/
theorem splice_of_marked (h : Marked start stop s pre mid post) (body : List α) :
    splice start stop body s = some (pre ++ start ++ body ++ stop ++ post) := by
  have hstart : indexOf start s = some pre.length := by
    refine indexOf_of_first (by rw [h.split, List.append_assoc (pre ++ start),
      List.append_assoc (pre ++ start)]) (fun b a hb => ?_)
    rw [h.start_once b a hb]
  have hstop : indexOf stop s = some (pre ++ start ++ mid).length := by
    refine indexOf_of_first h.split (fun b a hb => ?_)
    rw [h.stop_once b a hb]
  have hpre : s.take pre.length = pre := by
    rw [h.split, List.append_assoc, List.append_assoc, List.append_assoc, List.take_left']
    rfl
  have hpost : s.drop ((pre ++ start ++ mid).length + stop.length) = post := by
    rw [h.split, ← List.length_append, List.drop_left']
    rfl
  rw [splice, hstart, hstop]
  dsimp only
  rw [hpre, hpost]

omit [DecidableEq α] in
/-- Between two breaks that are in no marker a text without markers can be put. -/
theorem marked_splice {c : α} {body : List α} (h : Marked start stop s pre mid post)
    (hstart : c ∉ start) (hstop : c ∉ stop) (hstart_ne : start ≠ []) (hstop_ne : stop ≠ [])
    (hbody_start : ¬ start <:+: body) (hbody_stop : ¬ stop <:+: body) :
    Marked start stop (pre ++ start ++ (c :: body ++ [c]) ++ stop ++ post) pre (c :: body ++ [c])
      post := by
  have hshape : pre ++ start ++ (c :: body ++ [c]) ++ stop ++ post
      = (pre ++ start) ++ c :: (body ++ c :: (stop ++ post)) := by
    simp only [List.append_assoc, List.cons_append, List.nil_append]
  refine ⟨rfl, fun b a hb => ?_, fun b a hb => ?_⟩
  · rw [hshape] at hb
    rcases occurs_append_cons hstart hb with ⟨a', hleft⟩ | ⟨b', rfl, hright⟩
    · exact h.start_once b (a' ++ mid ++ stop ++ post) (by rw [h.split, hleft]; simp)
    · rcases occurs_append_cons hstart hright with ⟨a', hmid⟩ | ⟨b'', rfl, hlast⟩
      · exact absurd ⟨b', a', hmid.symm⟩ hbody_start
      · -- It would be a second start marker of the old text.
        have hsame := h.start_once (pre ++ start ++ mid ++ b'') a (by
          rw [h.split, List.append_assoc _ stop, hlast]; simp)
        have hlen := congrArg List.length hsame
        rw [List.append_assoc, List.append_assoc, List.length_append, List.length_append] at hlen
        have hpos := List.length_pos_iff.mpr hstart_ne
        omega
  · rw [hshape] at hb
    rcases occurs_append_cons hstop hb with ⟨a', hleft⟩ | ⟨b', rfl, hright⟩
    · have hsame := h.stop_once b (a' ++ mid ++ stop ++ post) (by rw [h.split, hleft]; simp)
      have hlen := congrArg List.length hleft
      rw [hsame] at hlen
      simp only [List.length_append] at hlen
      have hpos := List.length_pos_iff.mpr hstop_ne
      omega
    · rcases occurs_append_cons hstop hright with ⟨a', hmid⟩ | ⟨b'', rfl, hlast⟩
      · exact absurd ⟨b', a', hmid.symm⟩ hbody_stop
      · have hsame := h.stop_once (pre ++ start ++ mid ++ b'') a (by
          rw [h.split, List.append_assoc _ stop, hlast]; simp)
        rw [List.append_right_eq_self] at hsame
        rw [hsame]
        simp

end Replacing

end Lib
