import Mathlib.Data.List.Infix
import TechScreen.Lib.Dict

/-!
# Trees of Dictionaries

A tree is a value or a dictionary of trees, and a value in it is told by the path
of keys that leads to it. An assignment at a path goes down from dictionary to
dictionary and makes one wherever it finds none: a value that is in its way is
lost, and so is a dictionary where it ends.

Two paths get into each other's way if one of them begins with the other. After
any number of assignments a path holds the value of the last one that is in its
way, if that one is its own, and nothing otherwise.

## Main definitions

* `Nest.assign`, `Nest.find`: Assignment at a path, and what is found there.
* `Nest.Meets`: One path begins with the other.
* `Nest.build`: A number of assignments in order.
* `Nest.walkEntries`: All values with their paths.
* `Nest.Tidy`: No dictionary has a key twice.
* `Nest.Keyed`: All keys are of a kind.
* `Nest.arrange`: Every dictionary with its entries in an order of their own.

## Theorems

* `Nest.find_assign_self`, `Nest.find_assign_of_meets`,
  `Nest.find_assign_of_not_meets`: What an assignment does to each path.
* `Nest.find_build_eq_some_iff`: What a number of assignments leave.
* `Nest.find_build_all_iff`: They keep all values if no two paths meet.
* `Nest.mem_walkEntries_iff`: The values that are walked are the ones that are found.
* `Nest.find_arrange`: The order of the entries does not matter.
-/

namespace Lib

/-- A value, or a dictionary of trees. -/
inductive Nest (κ α : Type) where
  | leaf (value : α)
  | node (entries : List (κ × Nest κ α))

namespace Nest
variable {κ α : Type}

section Paths
variable {p q : List κ}

/-- One of the paths begins with the other. -/
def Meets (p q : List κ) : Prop := p <+: q ∨ q <+: p

instance [DecidableEq κ] (p q : List κ) : Decidable (Meets p q) :=
  inferInstanceAs (Decidable (p <+: q ∨ q <+: p))

theorem Meets.symm (h : Meets p q) : Meets q p := Or.symm h

theorem Meets.refl (p : List κ) : Meets p p := Or.inl (List.prefix_refl p)

theorem meets_cons {k j : κ} : Meets (k :: p) (j :: q) ↔ k = j ∧ Meets p q := by
  unfold Meets
  rw [List.cons_prefix_cons, List.cons_prefix_cons, @eq_comm _ j, ← and_or_left]

end Paths

section Assign
variable [DecidableEq κ] {es : List (κ × Nest κ α)} {p q : List κ} {v : α}

/-- The dictionary under a key. -/
def under (es : List (κ × Nest κ α)) (k : κ) : List (κ × Nest κ α) :=
  match es.lookup k with
  | some (.node sub) => sub
  | _ => []

/-- Assign at a path, making the dictionaries on the way. -/
def assign : List (κ × Nest κ α) → List κ → α → List (κ × Nest κ α)
  | es, [], _ => es
  | es, [k], v => insertIn k (.leaf v) es
  | es, k :: j :: ks, v => insertIn k (.node (assign (under es k) (j :: ks) v)) es

/-- The value at a path. -/
def find : List (κ × Nest κ α) → List κ → Option α
  | _, [] => none
  | es, [k] =>
      match es.lookup k with
      | some (.leaf v) => some v
      | _ => none
  | es, k :: j :: ks => find (under es k) (j :: ks)

@[simp] theorem find_nil (q : List κ) : find ([] : List (κ × Nest κ α)) q = none := by
  induction q with
  | nil => rfl
  | cons k q ih =>
      cases q with
      | nil => rfl
      | cons j q => exact ih

theorem under_insertIn_leaf (k : κ) : under (insertIn k (.leaf v) es) k = [] := by
  rw [under, lookup_insertIn_self]

theorem under_insertIn_node (k : κ) (sub : List (κ × Nest κ α)) :
    under (insertIn k (.node sub) es) k = sub := by
  rw [under, lookup_insertIn_self]

theorem under_insertIn_of_ne {k j : κ} (h : j ≠ k) (t : Nest κ α) :
    under (insertIn k t es) j = under es j := by
  rw [under, under, lookup_insertIn_of_ne k j t es h]

/-- What is under other keys is not touched. -/
theorem find_insertIn_of_ne {k j : κ} (h : j ≠ k) (t : Nest κ α) (q : List κ) :
    find (insertIn k t es) (j :: q) = find es (j :: q) := by
  cases q with
  | nil => rw [find, find, lookup_insertIn_of_ne k j t es h]
  | cons i q => rw [find, find, under_insertIn_of_ne h]

theorem find_assign_self (es : List (κ × Nest κ α)) (hp : p ≠ []) (v : α) :
    find (assign es p v) p = some v := by
  induction p generalizing es with
  | nil => exact absurd rfl hp
  | cons k p ih =>
      cases p with
      | nil => rw [assign, find, lookup_insertIn_self]
      | cons j p =>
          rw [assign, find, under_insertIn_node]
          exact ih (under es k) (List.cons_ne_nil j p)

/-- The paths in the way of an assignment are lost. -/
theorem find_assign_of_meets (es : List (κ × Nest κ α)) (hp : p ≠ []) (v : α) (h : Meets p q)
    (hne : q ≠ p) : find (assign es p v) q = none := by
  induction p generalizing es q with
  | nil => exact absurd rfl hp
  | cons k p ih =>
      cases q with
      | nil => exact find.eq_1 _
      | cons j q =>
          obtain ⟨rfl, hmeets⟩ := meets_cons.mp h
          have htail : q ≠ p := fun heq => hne (by rw [heq])
          cases p with
          | nil =>
              cases q with
              | nil => exact absurd rfl htail
              | cons i q => rw [assign, find, under_insertIn_leaf, find_nil]
          | cons i p =>
              cases q with
              | nil => rw [assign, find, lookup_insertIn_self]
              | cons l q =>
                  rw [assign, find, under_insertIn_node]
                  exact ih (under es k) (List.cons_ne_nil i p) hmeets htail

theorem find_assign_of_not_meets (es : List (κ × Nest κ α)) (v : α) (h : ¬ Meets p q) :
    find (assign es p v) q = find es q := by
  induction p generalizing es q with
  | nil => exact absurd (Or.inl List.nil_prefix) h
  | cons k p ih =>
      cases q with
      | nil => exact absurd (Or.inr List.nil_prefix) h
      | cons j q =>
          by_cases hk : j = k
          · subst hk
            have htail : ¬ Meets p q := fun hmeets => h (meets_cons.mpr ⟨rfl, hmeets⟩)
            cases p with
            | nil => exact absurd (Or.inl List.nil_prefix) htail
            | cons i p =>
                cases q with
                | nil => exact absurd (Or.inr List.nil_prefix) htail
                | cons l q =>
                    rw [assign, find, find, under_insertIn_node]
                    exact ih (under es j) htail
          · cases p with
            | nil => exact find_insertIn_of_ne hk _ q
            | cons i p => exact find_insertIn_of_ne hk _ q

end Assign

section Build
variable [DecidableEq κ] {rows : List (List κ × α)} {q : List κ} {v : α}

/-- A number of assignments in order. -/
def build (rows : List (List κ × α)) : List (κ × Nest κ α) :=
  rows.foldl (fun es r => assign es r.1 r.2) []

theorem build_snoc (rows : List (List κ × α)) (r : List κ × α) :
    build (rows ++ [r]) = assign (build rows) r.1 r.2 := by
  rw [build, List.foldl_append, List.foldl_cons, List.foldl_nil, build]

/-- A path holds the value of an assignment that has come after all the others that
    are in its way. -/
theorem find_build_eq_some_iff (hne : ∀ r ∈ rows, r.1 ≠ []) : find (build rows) q = some v ↔
    ∃ before after, rows = before ++ (q, v) :: after ∧ ∀ r ∈ after, ¬ Meets r.1 q := by
  induction rows using List.reverseRecOn with
  | nil =>
      constructor
      · intro h
        rw [build, List.foldl_nil, find_nil] at h
        cases h
      · rintro ⟨before, after, hsplit, -⟩
        exact absurd hsplit (List.append_ne_nil_of_right_ne_nil _ (List.cons_ne_nil _ _)).symm
  | append_singleton rows r ih =>
      have hr : r.1 ≠ [] := hne r (List.mem_append_right _ List.mem_cons_self)
      have hrows := ih (fun s hs => hne s (List.mem_append_left _ hs))
      rw [build_snoc]
      constructor
      · intro h
        by_cases hmeets : Meets r.1 q
        · by_cases hq : q = r.1
          · -- The last assignment is the path's own.
            rw [hq, find_assign_self _ hr, Option.some.injEq] at h
            refine ⟨rows, [], ?_, fun s hs => absurd hs List.not_mem_nil⟩
            rw [hq, ← h]
          · rw [find_assign_of_meets _ hr _ hmeets hq] at h
            cases h
        · rw [find_assign_of_not_meets _ _ hmeets] at h
          obtain ⟨before, after, rfl, hafter⟩ := hrows.mp h
          refine ⟨before, after ++ [r], by rw [List.append_assoc, List.cons_append], ?_⟩
          intro s hs
          rw [List.mem_append, List.mem_singleton] at hs
          rcases hs with hs | rfl
          · exact hafter s hs
          · exact hmeets
      · rintro ⟨before, after, hsplit, hafter⟩
        rcases List.eq_nil_or_concat after with rfl | ⟨front, s, rfl⟩
        · obtain ⟨-, hlast⟩ := List.append_inj' hsplit rfl
          obtain rfl := (List.cons.inj hlast).1
          exact find_assign_self _ hr _
        · rw [List.concat_eq_append] at hsplit hafter
          have hsplit' : rows ++ [r] = (before ++ (q, v) :: front) ++ [s] := by
            rw [hsplit, List.append_assoc, List.cons_append]
          obtain ⟨hinit, hlast⟩ := List.append_inj' hsplit' rfl
          obtain rfl := (List.cons.inj hlast).1
          have hmeets := hafter r (List.mem_append_right _ List.mem_cons_self)
          rw [find_assign_of_not_meets _ _ hmeets]
          exact hrows.mpr ⟨before, front, hinit, fun s hs => hafter s (List.mem_append_left _ hs)⟩

/-- Where the paths differ all values are kept just if no two paths meet. -/
theorem find_build_all_iff (hne : ∀ r ∈ rows, r.1 ≠ []) (hnodup : (rows.map Prod.fst).Nodup) :
    (∀ r ∈ rows, find (build rows) r.1 = some r.2) ↔
      rows.Pairwise (fun r s => ¬ Meets r.1 s.1) := by
  constructor
  · intro h
    rw [List.pairwise_iff_forall_sublist]
    intro r s hsub hmeets
    obtain ⟨before, after, hsplit, hafter⟩ :=
      (find_build_eq_some_iff hne).mp (h r (hsub.subset List.mem_cons_self))
    -- The later row is among those after the only place of the earlier one.
    rw [hsplit, List.map_append, List.map_cons] at hnodup
    have hbefore : r ∉ before := fun hmem => (List.nodup_append.mp hnodup).2.2 r.1
      (List.mem_map_of_mem hmem) r.1 List.mem_cons_self rfl
    rw [hsplit] at hsub
    have hs : s ∈ after := by
      obtain ⟨l₁, l₂, heq, h₁, h₂⟩ := List.sublist_append_iff.mp hsub
      cases l₁ with
      | nil =>
          rw [List.nil_append] at heq
          rw [← heq] at h₂
          exact List.singleton_sublist.mp (List.cons_sublist_cons.mp h₂)
      | cons x l₁ =>
          rw [List.cons_append, List.cons.injEq] at heq
          rw [← heq.1] at h₁
          exact absurd (h₁.subset List.mem_cons_self) hbefore
    exact hafter s hs hmeets.symm
  · intro h r hr
    obtain ⟨before, after, rfl⟩ := List.append_of_mem hr
    refine (find_build_eq_some_iff hne).mpr ⟨before, after, rfl, fun s hs hmeets => ?_⟩
    have hpair := (List.pairwise_cons.mp (List.pairwise_append.mp h).2.1).1 s hs
    exact hpair hmeets.symm

end Build

section Walk

mutual

/-- All values of a tree with their paths. -/
def walkNest (path : List κ) : Nest κ α → List (List κ × α)
  | .leaf v => [(path, v)]
  | .node es => walkEntries path es

def walkEntries (path : List κ) : List (κ × Nest κ α) → List (List κ × α)
  | [] => []
  | (k, t) :: rest => walkNest (path ++ [k]) t ++ walkEntries path rest

end

/-- No dictionary has a key twice. -/
inductive Tidy : List (κ × Nest κ α) → Prop
  | mk (es : List (κ × Nest κ α)) (hnodup : (es.map Prod.fst).Nodup)
      (hunder : ∀ k sub, (k, .node sub) ∈ es → Tidy sub) : Tidy es

theorem tidy_nil : Tidy ([] : List (κ × Nest κ α)) :=
  Tidy.mk [] List.nodup_nil (fun _ _ h => absurd h List.not_mem_nil)

theorem Tidy.nodup {es : List (κ × Nest κ α)} (h : Tidy es) : (es.map Prod.fst).Nodup := by
  cases h with
  | mk _ hnodup _ => exact hnodup

theorem Tidy.sub {es sub : List (κ × Nest κ α)} {k : κ} (h : Tidy es) (hmem : (k, .node sub) ∈ es) :
    Tidy sub := by
  cases h with
  | mk _ _ hunder => exact hunder k sub hmem

theorem mem_walkEntries {path q : List κ} {v : α} {es : List (κ × Nest κ α)} :
    (q, v) ∈ walkEntries path es ↔ ∃ e ∈ es, (q, v) ∈ walkNest (path ++ [e.1]) e.2 := by
  induction es with
  | nil =>
      rw [walkEntries]
      exact ⟨fun h => absurd h List.not_mem_nil, fun ⟨e, he, _⟩ => absurd he List.not_mem_nil⟩
  | cons e es ih =>
      rw [walkEntries, List.mem_append, ih, List.exists_mem_cons_iff]

variable [DecidableEq κ]

theorem Tidy.under {es : List (κ × Nest κ α)} (h : Tidy es) (k : κ) : Tidy (under es k) := by
  unfold Nest.under
  split
  · next sub hlookup =>
      exact h.sub ((Dict.lookup_eq_some_iff_of_nodup h.nodup k _).mp hlookup)
  · exact tidy_nil

theorem Tidy.insert {es : List (κ × Nest κ α)} (h : Tidy es) (k : κ) {t : Nest κ α}
    (ht : ∀ sub, t = .node sub → Tidy sub) : Tidy (insertIn k t es) := by
  refine Tidy.mk _ (nodup_insertIn k t es h.nodup) (fun j sub hmem => ?_)
  rcases mem_insertIn hmem with heq | hmem
  · cases heq
    exact ht sub rfl
  · exact h.sub hmem

theorem Tidy.assign {es : List (κ × Nest κ α)} (h : Tidy es) (p : List κ) (v : α) :
    Tidy (assign es p v) := by
  induction p generalizing es with
  | nil => exact h
  | cons k p ih =>
      cases p with
      | nil => exact h.insert k (fun sub hsub => by cases hsub)
      | cons j p =>
          refine h.insert k (fun sub hsub => ?_)
          cases hsub
          exact ih (h.under k)

theorem tidy_build (rows : List (List κ × α)) : Tidy (build rows) := by
  induction rows using List.reverseRecOn with
  | nil => exact tidy_nil
  | append_singleton rows r ih =>
      rw [build_snoc]
      exact ih.assign r.1 r.2

/-- The values that are walked are the ones that are found. -/
theorem mem_walkEntries_iff {es : List (κ × Nest κ α)} (h : Tidy es) {path q : List κ} {v : α} :
    (q, v) ∈ walkEntries path es ↔ ∃ p, q = path ++ p ∧ find es p = some v := by
  induction h generalizing path q with
  | mk es hnodup hunder ih =>
      rw [mem_walkEntries]
      constructor
      · -- What is walked at a key is found under it, since no key stands twice.
        rintro ⟨⟨k, t⟩, he, hwalk⟩
        have hlookup := (Dict.lookup_eq_some_iff_of_nodup hnodup k t).mpr he
        cases t with
        | leaf u =>
            rw [walkNest, List.mem_singleton, Prod.mk.injEq] at hwalk
            exact ⟨[k], hwalk.1, by rw [find, hlookup, hwalk.2]⟩
        | node sub =>
            rw [walkNest, ih k sub he] at hwalk
            obtain ⟨p, rfl, hfind⟩ := hwalk
            cases p with
            | nil => cases hfind
            | cons j p =>
                refine ⟨k :: j :: p, by rw [List.append_assoc, List.singleton_append], ?_⟩
                rw [find, Nest.under, hlookup]
                exact hfind
      · -- What is found by a path is an entry, or in the tree of one.
        rintro ⟨p, rfl, hfind⟩
        cases p with
        | nil => cases hfind
        | cons k p =>
            cases p with
            | nil =>
                rw [find] at hfind
                split at hfind
                · next u hlookup =>
                    cases hfind
                    have hmem := (Dict.lookup_eq_some_iff_of_nodup hnodup k _).mp hlookup
                    refine ⟨(k, .leaf v), hmem, ?_⟩
                    rw [walkNest]
                    exact List.mem_cons_self
                · cases hfind
            | cons j p =>
                rw [find, Nest.under] at hfind
                split at hfind
                · next sub hlookup =>
                    have hmem := (Dict.lookup_eq_some_iff_of_nodup hnodup k _).mp hlookup
                    refine ⟨(k, .node sub), hmem, ?_⟩
                    rw [walkNest, ih k sub hmem]
                    exact ⟨j :: p, by rw [List.append_assoc, List.singleton_append], hfind⟩
                · rw [find_nil] at hfind
                  cases hfind

end Walk

section Keyed
variable {P : κ → Prop}

/-- All keys are of a kind. -/
inductive Keyed (P : κ → Prop) : List (κ × Nest κ α) → Prop
  | mk (es : List (κ × Nest κ α)) (hkeys : ∀ e ∈ es, P e.1)
      (hunder : ∀ k sub, (k, .node sub) ∈ es → Keyed P sub) : Keyed P es

theorem keyed_nil : Keyed P ([] : List (κ × Nest κ α)) :=
  Keyed.mk [] (fun _ h => absurd h List.not_mem_nil) (fun _ _ h => absurd h List.not_mem_nil)

variable [DecidableEq κ]

theorem Keyed.under {es : List (κ × Nest κ α)} (h : Keyed P es) (k : κ) : Keyed P (under es k) := by
  cases h with
  | mk _ _ hunder =>
      unfold Nest.under
      split
      · next sub hlookup =>
          obtain ⟨l₁, l₂, hsplit, -⟩ := List.lookup_eq_some_iff.mp hlookup
          refine hunder k sub ?_
          rw [hsplit]
          exact List.mem_append_right _ List.mem_cons_self
      · exact keyed_nil

theorem Keyed.insert {es : List (κ × Nest κ α)} (h : Keyed P es) {k : κ} (hk : P k)
    {t : Nest κ α} (ht : ∀ sub, t = .node sub → Keyed P sub) : Keyed P (insertIn k t es) := by
  cases h with
  | mk _ hkeys hunder =>
      refine Keyed.mk _ (fun e hmem => ?_) (fun j sub hmem => ?_)
      · rcases mem_insertIn hmem with rfl | hmem
        · exact hk
        · exact hkeys e hmem
      · rcases mem_insertIn hmem with heq | hmem
        · cases heq
          exact ht sub rfl
        · exact hunder j sub hmem

theorem Keyed.assign {es : List (κ × Nest κ α)} (h : Keyed P es) {p : List κ}
    (hp : ∀ k ∈ p, P k) (v : α) : Keyed P (assign es p v) := by
  induction p generalizing es with
  | nil => exact h
  | cons k p ih =>
      have hk := hp k List.mem_cons_self
      have hrest := fun j hj => hp j (List.mem_cons_of_mem k hj)
      cases p with
      | nil => exact h.insert hk (fun sub hsub => by cases hsub)
      | cons j p =>
          refine h.insert hk (fun sub hsub => ?_)
          cases hsub
          exact ih (h.under k) hrest

theorem keyed_build {rows : List (List κ × α)} (h : ∀ r ∈ rows, ∀ k ∈ r.1, P k) :
    Keyed P (build rows) := by
  induction rows using List.reverseRecOn with
  | nil => exact keyed_nil
  | append_singleton rows r ih =>
      rw [build_snoc]
      exact (ih (fun s hs => h s (List.mem_append_left _ hs))).assign
        (h r (List.mem_append_right _ List.mem_cons_self)) r.2

end Keyed

section Arranged
variable (order : List (κ × Nest κ α) → List (κ × Nest κ α))

mutual

def arrangeNest : Nest κ α → Nest κ α
  | .leaf v => .leaf v
  | .node es => .node (order (arrangeEntries es))

def arrangeEntries : List (κ × Nest κ α) → List (κ × Nest κ α)
  | [] => []
  | (k, t) :: rest => (k, arrangeNest t) :: arrangeEntries rest

end

/-- Every dictionary with its entries in an order of their own. -/
def arrange (es : List (κ × Nest κ α)) : List (κ × Nest κ α) := order (arrangeEntries order es)

theorem arrangeEntries_eq (es : List (κ × Nest κ α)) :
    arrangeEntries order es = es.map (fun e => (e.1, arrangeNest order e.2)) := by
  induction es with
  | nil => rfl
  | cons e es ih => rw [arrangeEntries, ih, List.map_cons]

variable {order} (horder : ∀ es, (order es).Perm es)
include horder

/-- The entries of an arranged dictionary. -/
theorem arrange_perm (es : List (κ × Nest κ α)) :
    (arrange order es).Perm (es.map (fun e => (e.1, arrangeNest order e.2))) := by
  rw [arrange, ← arrangeEntries_eq]
  exact horder _

theorem arrange_nil : arrange order ([] : List (κ × Nest κ α)) = [] :=
  List.Perm.eq_nil (arrange_perm horder [])

theorem nodup_arrange {es : List (κ × Nest κ α)} (h : (es.map Prod.fst).Nodup) :
    ((arrange order es).map Prod.fst).Nodup := by
  have hperm := (arrange_perm horder es).map Prod.fst
  rw [List.map_map] at hperm
  exact hperm.nodup_iff.mpr h

theorem Tidy.arrange {es : List (κ × Nest κ α)} (h : Tidy es) : Tidy (arrange order es) := by
  induction h with
  | mk es hnodup hunder ih =>
      refine Tidy.mk _ (nodup_arrange horder hnodup) (fun k sub hmem => ?_)
      obtain ⟨e, he, heq⟩ := List.mem_map.mp ((arrange_perm horder es).mem_iff.mp hmem)
      obtain ⟨j, t⟩ := e
      cases t with
      | leaf v => cases heq
      | node sub' =>
          cases heq
          exact ih j sub' he

theorem Keyed.arrange {P : κ → Prop} {es : List (κ × Nest κ α)} (h : Keyed P es) :
    Keyed P (arrange order es) := by
  induction h with
  | mk es hkeys hunder ih =>
      refine Keyed.mk _ (fun e hmem => ?_) (fun k sub hmem => ?_)
      · obtain ⟨d, hd, rfl⟩ := List.mem_map.mp ((arrange_perm horder es).mem_iff.mp hmem)
        exact hkeys d hd
      · obtain ⟨⟨j, t⟩, he, heq⟩ := List.mem_map.mp ((arrange_perm horder es).mem_iff.mp hmem)
        cases t with
        | leaf v => cases heq
        | node sub' =>
            cases heq
            exact ih j sub' he

variable [DecidableEq κ]

theorem lookup_arrange {es : List (κ × Nest κ α)} (h : (es.map Prod.fst).Nodup) (k : κ) :
    (arrange order es).lookup k = (es.lookup k).map (arrangeNest order) := by
  refine Option.ext (fun t => ?_)
  rw [Dict.lookup_eq_some_iff_of_nodup (nodup_arrange horder h),
    (arrange_perm horder es).mem_iff, Option.map_eq_some_iff, List.mem_map]
  constructor
  · rintro ⟨⟨j, t'⟩, he, heq⟩
    cases heq
    exact ⟨t', (Dict.lookup_eq_some_iff_of_nodup h j t').mpr he, rfl⟩
  · rintro ⟨t', hlookup, rfl⟩
    exact ⟨(k, t'), (Dict.lookup_eq_some_iff_of_nodup h k t').mp hlookup, rfl⟩

theorem under_arrange {es : List (κ × Nest κ α)} (h : (es.map Prod.fst).Nodup) (k : κ) :
    under (arrange order es) k = arrange order (under es k) := by
  rw [under, under, lookup_arrange horder h]
  cases hlookup : es.lookup k with
  | none => exact (arrange_nil horder).symm
  | some t =>
      cases t with
      | leaf v => exact (arrange_nil horder).symm
      | node sub => rfl

/-- The order of the entries does not matter. -/
theorem find_arrange {es : List (κ × Nest κ α)} (h : Tidy es) (p : List κ) :
    find (arrange order es) p = find es p := by
  induction p generalizing es with
  | nil => rw [find, find]
  | cons k p ih =>
      cases p with
      | nil =>
          rw [find, find, lookup_arrange horder h.nodup]
          cases hlookup : es.lookup k with
          | none => rfl
          | some t => cases t <;> rfl
      | cons j p =>
          rw [find, find, under_arrange horder h.nodup]
          exact ih (h.under k)

end Arranged

end Nest

end Lib
