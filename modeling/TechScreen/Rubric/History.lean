import Mathlib.Data.List.Destutter
import TechScreen.Lib.Run
import TechScreen.Rubric.Editions

/-!
# Histories of Seeds

Calls of `seed` that come one after another, each transaction starting later than
the one before. From the empty tables, what the tables hold after any number of
them is the editions that were seeded, in order; so what holds of every history
is a question about the list of editions.

The reader of the active rubric relies on there being one active version, but no
seed deactivates what was seeded before. And the no-op test looks at the latest
version only, while the hashes of all versions have to differ: a payload that
goes back to an earlier edition is refused.

## Main definitions

* `Store`, `SeedCall`, `historyStep`: Seeds one after another.
* `seeded`: The edition that a call has seeded.
* `Archived`: The tables hold these editions.
* `OneActive`: The active version is the one seeded last.
* `Alike`: All seeded payloads have one hash.
* `Push`, `Reconciles`: Payloads that are all seeded.
* `Publishable`: Editions that can follow one another.

## Theorems

* `run_keeps`: The tables hold the editions that were seeded.
* `oneActive_iff`: There is one active version just where no payload changes.
* `reviseAll_isSome_iff`: Payloads can be seeded in turn just where their changes
  are publishable.
* `reconciles_iff`: The same of the importer.
-/

namespace TechScreen.Rubric

open Lib

section Histories

/-- The tables, and the start of the last transaction on them. -/
structure Store where
  clock : Instant
  tables : Tables := {}

/-- A call that comes some time after the one before. -/
structure SeedCall where
  dir : RubricDir
  dryRun : Bool
  delay : Nat

variable (kit : Toolkit)

/-- A transaction starts later than the one before. -/
def SeedCall.now (c : SeedCall) (s : Store) : Instant := s.clock + c.delay + 1

/-- One call on the tables. -/
def historyStep : Step Store SeedCall SeedResult ImporterError := fun s c =>
  match seed kit c.dir c.dryRun (c.now s) s.tables with
  | .ok (result, tables) => .ok (⟨c.now s, tables⟩, [result])
  | .error e => .error e

/-- The edition that a directory has. -/
def editionOf (dir : RubricDir) : Option Edition :=
  match loadYamlDir kit dir with
  | .ok docs => some ⟨computePayloadHash kit dir, docs⟩
  | .error _ => none

/-- The edition that a call has made a version of. -/
def seeded (t : Taken Store SeedCall SeedResult) : Option Edition :=
  if t.out.any (fun r => r.newVersionId.isSome) then editionOf kit t.event.dir else none

variable {kit}

/-- The tables hold some editions, none of them from the future. -/
structure Archived (s : Store) (past : List Edition) : Prop where
  archives : Archives s.tables past
  clock : ∀ v ∈ s.tables.versions, v.createdAt ≤ s.clock

/-- What a call that succeeds has done: nothing, or added its edition. -/
inductive Seeds (kit : Toolkit) (past : List Edition) (t : Taken Store SeedCall SeedResult)
    (e : Edition) (result : SeedResult) : Prop
  | noop (hash : past.getLast?.map Edition.hash = some e.hash) (noop : result.noop = true)
      (newVersionId : result.newVersionId = none) (tables : t.after.tables = t.before.tables)
  | dryRun (hash : past.getLast?.map Edition.hash ≠ some e.hash) (noop : result.noop = false)
      (dryRun : t.event.dryRun = true) (newVersionId : result.newVersionId = none)
      (tables : t.after.tables = t.before.tables)
  | created (hash : past.getLast?.map Edition.hash ≠ some e.hash) (noop : result.noop = false)
      (dryRun : t.event.dryRun = false)
      (newVersionId : result.newVersionId = some t.before.tables.nextId)
      (versioned : Versioned e.docs e.hash (t.event.now t.before) t.before.tables t.after.tables)
      (archives : Archives t.after.tables (past ++ [e]))

/-- A call succeeds when its directory is read and its transaction succeeds. -/
theorem historyStep_ok {s s' : Store} {c : SeedCall} {out : List SeedResult}
    (h : historyStep kit s c = .ok (s', out)) :
    ∃ docs result, loadYamlDir kit c.dir = .ok docs ∧ out = [result] ∧ s'.clock = c.now s ∧
      seedTransaction docs (computePayloadHash kit c.dir) c.dryRun (c.now s) s.tables =
        .ok (result, s'.tables) := by
  unfold historyStep at h
  cases hseed : seed kit c.dir c.dryRun (c.now s) s.tables with
  | error e =>
      rw [hseed] at h
      cases h
  | ok r =>
      rw [hseed] at h
      rcases seed_ok hseed with ⟨docs, hload, htransaction⟩
      cases h
      exact ⟨docs, r.1, hload, rfl, rfl, htransaction⟩

theorem before_now {s : Store} {past : List Edition} (h : Archived s past) (c : SeedCall) :
    ∀ v ∈ s.tables.versions, v.createdAt < c.now s := by
  intro v hv
  have hle : v.createdAt ≤ s.clock := h.clock v hv
  unfold SeedCall.now
  have hdelay : (0 : Int) ≤ c.delay := Int.natCast_nonneg _
  exact Int.lt_add_one_of_le (le_trans hle (le_add_of_nonneg_right hdelay))

theorem historyStep_seeds {s s' : Store} {c : SeedCall} {out : List SeedResult}
    {past : List Edition} (hkeeps : Archived s past) (h : historyStep kit s c = .ok (s', out)) :
    ∃ e result, editionOf kit c.dir = some e ∧ e.hash = computePayloadHash kit c.dir ∧
      loadYamlDir kit c.dir = .ok e.docs ∧ out = [result] ∧ s'.clock = c.now s ∧
      Seeds kit past ⟨s, c, s', out⟩ e result := by
  rcases historyStep_ok h with ⟨docs, result, hload, rfl, hclock, htransaction⟩
  refine ⟨⟨computePayloadHash kit c.dir, docs⟩, result, ?_, rfl, hload, rfl, hclock, ?_⟩
  · rw [editionOf, hload]
  · rcases seedTransaction_of_archives (e := ⟨computePayloadHash kit c.dir, docs⟩)
      hkeeps.archives (before_now hkeeps c) htransaction with
      ⟨hash, hnoop, hid, htables⟩ |
        ⟨hash, hnoop, ⟨hdry, hid, htables⟩ | ⟨hdry, hid, hversioned, harchives⟩⟩
    · exact Seeds.noop hash hnoop hid htables
    · exact Seeds.dryRun hash hnoop hdry hid htables
    · exact Seeds.created hash hnoop hdry hid hversioned harchives

/-- What one call adds to the editions. -/
theorem historyStep_keeps {s s' : Store} {c : SeedCall} {out : List SeedResult}
    {past : List Edition} (hkeeps : Archived s past) (h : historyStep kit s c = .ok (s', out)) :
    Archived s' (past ++ (seeded kit ⟨s, c, s', out⟩).toList) := by
  rcases historyStep_seeds hkeeps h with ⟨e, result, hedition, _, _, rfl, hclock, hseeds⟩
  have hunchanged (htables : s'.tables = s.tables) (hid : result.newVersionId = none) :
      Archived s' (past ++ (seeded kit ⟨s, c, s', [result]⟩).toList) := by
    have hnone : seeded kit ⟨s, c, s', [result]⟩ = none := by simp [seeded, hid]
    rw [hnone, Option.toList_none, List.append_nil]
    refine ⟨htables ▸ hkeeps.archives, fun v hv => ?_⟩
    rw [htables] at hv
    exact hclock ▸ le_of_lt (before_now hkeeps c v hv)
  cases hseeds with
  | noop _ _ hid htables => exact hunchanged htables hid
  | dryRun _ _ _ hid htables => exact hunchanged htables hid
  | created _ _ _ hid hversioned harchives =>
      have hsome : seeded kit ⟨s, c, s', [result]⟩ = some e := by simp [seeded, hid, hedition]
      rw [hsome, Option.toList_some]
      refine ⟨harchives, fun v hv => ?_⟩
      rw [hversioned.versions] at hv
      rcases List.mem_append.mp hv with hv | hv
      · exact hclock ▸ le_of_lt (before_now hkeeps c v hv)
      · rw [List.mem_singleton.mp hv, hclock]
        exact le_refl _

theorem filterMap_concat {α β : Type} (f : α → Option β) (xs : List α) (x : α) :
    (xs ++ [x]).filterMap f = xs.filterMap f ++ (f x).toList := by
  rw [List.filterMap_append]
  cases hx : f x with
  | none => rw [List.filterMap_cons_none hx]; rfl
  | some y => rw [List.filterMap_cons_some hx]; rfl

/-- The tables hold the editions that were seeded. -/
theorem run_keeps {clock : Instant} {ts : List (Taken Store SeedCall SeedResult)} {s : Store}
    (h : Run (historyStep kit) ⟨clock, {}⟩ ts s) : Archived s (ts.filterMap (seeded kit)) := by
  induction h with
  | nil => exact ⟨archives_empty, fun v hv => absurd hv List.not_mem_nil⟩
  | snoc ts s s' c out _ hstep ih =>
      rw [filterMap_concat]
      exact historyStep_keeps ih hstep

end Histories

section OneActive

variable {kit : Toolkit}

/-- The identifier of the version seeded last. -/
def lastSeeded (ts : List (Taken Store SeedCall SeedResult)) : Option RowId :=
  ((outputs ts).filterMap SeedResult.newVersionId).getLast?

/-- At most one version is active, it is the one seeded last, and what the reader
    gets is the tree of the payload seeded last. -/
structure OneActive (kit : Toolkit) (collation : String → String → Bool)
    (ts : List (Taken Store SeedCall SeedResult)) (s : Store) : Prop where
  atMostOne : (s.tables.versions.filter VersionRow.isActive).length ≤ 1
  latest : ∀ v ∈ s.tables.versions, v.isActive = true ↔ some v.id = lastSeeded ts
  snapshot : ∀ answer, ActiveSnapshot collation s.tables answer →
    answer.map RubricSnapshot.tree = ((ts.filterMap (seeded kit)).getLast?).map Edition.tree

/-- All payloads that are seeded for real have one hash. -/
def Alike (kit : Toolkit) (ts : List (Taken Store SeedCall SeedResult)) : Prop :=
  ∀ t ∈ ts, ∀ u ∈ ts, t.event.dryRun = false → u.event.dryRun = false →
    computePayloadHash kit t.event.dir = computePayloadHash kit u.event.dir

/-- The hashes of the editions are those of the payloads. -/
theorem run_hashes {clock : Instant} {ts : List (Taken Store SeedCall SeedResult)} {s : Store}
    (h : Run (historyStep kit) ⟨clock, {}⟩ ts s) (hash : String) :
    hash ∈ (ts.filterMap (seeded kit)).map Edition.hash ↔
      ∃ t ∈ ts, t.event.dryRun = false ∧ computePayloadHash kit t.event.dir = hash := by
  induction h with
  | nil => simp
  | snoc ts s s' c out hrun hstep ih =>
      rcases historyStep_seeds (run_keeps hrun) hstep with
        ⟨e, result, hedition, hhash, _, rfl, _, hseeds⟩
      simp only [filterMap_concat, List.map_append, List.mem_append, ih, List.mem_singleton,
        or_and_right, exists_or, exists_eq_left]
      refine or_congr_right' fun hearlier => ?_
      cases hseeds with
      | noop hsame _ hid _ =>
          have hnone : seeded kit ⟨s, c, s', [result]⟩ = none := by simp [seeded, hid]
          rw [hnone]
          refine iff_of_false (by simp) ?_
          rintro ⟨_, rfl⟩
          -- The last edition has this hash, so it was seeded before.
          rcases Option.map_eq_some_iff.mp hsame with ⟨last, hlast, hlasthash⟩
          refine hearlier (ih.mp ?_)
          rw [← hhash, ← hlasthash]
          exact List.mem_map_of_mem (List.mem_of_getLast? hlast)
      | dryRun _ _ hdry hid _ =>
          have hnone : seeded kit ⟨s, c, s', [result]⟩ = none := by simp [seeded, hid]
          rw [hnone]
          refine iff_of_false (by simp) ?_
          rintro ⟨hdry', _⟩
          exact Bool.false_ne_true (hdry'.symm.trans hdry)
      | created _ _ hdry hid _ _ =>
          have hsome : seeded kit ⟨s, c, s', [result]⟩ = some e := by simp [seeded, hid, hedition]
          rw [hsome, Option.toList_some, List.map_singleton, List.mem_singleton, hhash]
          exact ⟨fun h => ⟨hdry, h.symm⟩, fun h => h.2.symm⟩

/-- The versions are those that the calls have answered with. -/
theorem run_ids {clock : Instant} {ts : List (Taken Store SeedCall SeedResult)} {s : Store}
    (h : Run (historyStep kit) ⟨clock, {}⟩ ts s) :
    (outputs ts).filterMap SeedResult.newVersionId = s.tables.versions.map VersionRow.id := by
  induction h with
  | nil => rfl
  | snoc ts s s' c out hrun hstep ih =>
      rcases historyStep_seeds (run_keeps hrun) hstep with ⟨e, result, _, _, _, rfl, _, hseeds⟩
      rw [outputs_snoc, filterMap_concat, ih]
      cases hseeds with
      | noop _ _ hid htables =>
          simp only at htables
          rw [hid, htables, Option.toList_none, List.append_nil]
      | dryRun _ _ _ hid htables =>
          simp only at htables
          rw [hid, htables, Option.toList_none, List.append_nil]
      | created _ _ _ hid hversioned _ =>
          have hversions := hversioned.versions
          simp only at hversions
          rw [hid, hversions, List.map_append]
          rfl

/-- No two editions have the same hash. -/
theorem Archives.hashes_nodup {t : Tables} {past : List Edition} (h : Archives t past) :
    (past.map Edition.hash).Nodup :=
  h.hashes ▸ h.sound.hashes_nodup

/-- There is at most one edition just where the payloads are alike. -/
theorem length_le_one_iff {clock : Instant} {ts : List (Taken Store SeedCall SeedResult)}
    {s : Store} (h : Run (historyStep kit) ⟨clock, {}⟩ ts s) :
    (ts.filterMap (seeded kit)).length ≤ 1 ↔ Alike kit ts := by
  have hhashes := run_hashes h
  have hnodup := (run_keeps h).archives.hashes_nodup
  generalize ts.filterMap (seeded kit) = past at hhashes hnodup
  constructor
  · intro hlen t ht u hu htd hud
    have hmt := (hhashes _).mpr ⟨t, ht, htd, rfl⟩
    have hmu := (hhashes _).mpr ⟨u, hu, hud, rfl⟩
    rcases past with _ | ⟨e, _ | ⟨e', past⟩⟩
    · exact absurd hmt List.not_mem_nil
    · exact (List.mem_singleton.mp hmt).trans (List.mem_singleton.mp hmu).symm
    · simp only [List.length_cons] at hlen
      omega
  · intro halike
    rcases past with _ | ⟨e, _ | ⟨e', past⟩⟩
    · exact Nat.zero_le _
    · exact le_refl _
    · rcases (hhashes e.hash).mp List.mem_cons_self with ⟨t, ht, htd, hte⟩
      rcases (hhashes e'.hash).mp (List.mem_cons_of_mem _ List.mem_cons_self) with
        ⟨u, hu, hud, hue⟩
      have hsame : e.hash = e'.hash := by rw [← hte, ← hue, halike t ht u hu htd hud]
      rw [List.map_cons, List.map_cons, hsame] at hnodup
      exact absurd List.mem_cons_self (List.nodup_cons.mp hnodup).1

theorem Archives.filter_isActive {t : Tables} {past : List Edition} (h : Archives t past) :
    t.versions.filter VersionRow.isActive = t.versions := by
  refine List.filter_eq_self.mpr (fun v hv => ?_)
  have hforall (versions : List VersionRow) (past : List Edition)
      (h : List.Forall₂ t.Holds versions past) : ∀ v ∈ versions, v.isActive = true := by
    induction h with
    | nil => exact fun v hv => absurd hv List.not_mem_nil
    | cons hv _ ih =>
        intro w hw
        rcases List.mem_cons.mp hw with rfl | hw
        · exact hv.active
        · exact ih w hw
  exact hforall _ _ h.holds v hv

/-- After any calls that succeed, one version is active, and it is the latest,
    just where all payloads seeded for real have one hash. -/
theorem oneActive_iff (collation : String → String → Bool) {clock : Instant}
    {ts : List (Taken Store SeedCall SeedResult)} {s : Store}
    (hrun : Run (historyStep kit) ⟨clock, {}⟩ ts s) :
    OneActive kit collation ts s ↔ Alike kit ts := by
  have harchives := (run_keeps hrun).archives
  have hids := run_ids hrun
  -- Every payload that was seeded for real has a version, and all are active.
  have hlength : s.tables.versions.length = (ts.filterMap (seeded kit)).length :=
    harchives.holds.length_eq
  rw [← length_le_one_iff hrun]
  constructor
  · intro hone
    have := hone.atMostOne
    rwa [harchives.filter_isActive, hlength] at this
  · intro hlen
    refine ⟨?_, ?_, ?_⟩
    · rw [harchives.filter_isActive, hlength]
      exact hlen
    · intro v hv
      have hactive : v.isActive = true := by
        rw [← harchives.filter_isActive] at hv
        exact (List.mem_filter.mp hv).2
      rw [lastSeeded, hids]
      refine iff_of_true hactive ?_
      rw [← hlength] at hlen
      -- There is at most one version, so an active one is the latest.
      rcases hversions : s.tables.versions with _ | ⟨w, _ | ⟨w', rest⟩⟩
      · rw [hversions] at hv
        exact absurd hv List.not_mem_nil
      · rw [hversions] at hv
        rw [List.mem_singleton.mp hv]
        rfl
      · rw [hversions, List.length_cons, List.length_cons] at hlen
        omega
    · intro answer hanswer
      -- The snapshot of the only version is the tree of the only payload.
      have hholds := harchives.holds
      generalize ts.filterMap (seeded kit) = past at hlen hholds
      rcases past with _ | ⟨e, _ | ⟨e', past⟩⟩
      · have hnone : s.tables.versions = [] := List.forall₂_nil_right_iff.mp hholds
        cases answer with
        | none => rfl
        | some snapshot =>
            rcases hanswer with ⟨v, hv, _⟩
            rw [hnone] at hv
            exact absurd hv List.not_mem_nil
      · rcases List.forall₂_cons_right_iff.mp hholds with ⟨v, rest, hv, hrest, hversions⟩
        rw [List.forall₂_nil_right_iff.mp hrest] at hversions
        cases answer with
        | none =>
            have hinactive := hanswer v (hversions ▸ List.mem_cons_self)
            exact absurd (hv.active.symm.trans hinactive) Bool.noConfusion
        | some snapshot =>
            rcases hanswer with ⟨w, hw, _, hsnapshot⟩
            rw [hversions] at hw
            rw [List.mem_singleton.mp hw] at hsnapshot
            rw [Option.map_some, snapshotRubric_tree collation hsnapshot, hv.tree]
            rfl
      · rw [List.length_cons, List.length_cons] at hlen
        omega

/-- A matrix seeded twice, and another one tried out. -/
def sampleCalls : List SeedCall :=
  [⟨sampleDir "D", false, 0⟩, ⟨sampleDir "D", false, 3⟩, ⟨sampleDir "E", true, 0⟩]

/-- Whether a step was tried out only, and whether its payload is the first. -/
def isSampleD (t : Taken Store SeedCall SeedResult) : Bool × Bool :=
  (t.event.dryRun, computePayloadHash sampleKit t.event.dir ==
    computePayloadHash sampleKit (sampleDir "D"))

theorem oneActive_sample : ∃ ts s, Run (historyStep sampleKit) ⟨0, {}⟩ ts s ∧
    s.tables.versions.length = 1 ∧ OneActive sampleKit (fun a b => decide (a ≤ b)) ts s := by
  have hrec : (record (historyStep sampleKit) ⟨0, {}⟩ sampleCalls).map
      (fun r => (r.1.map isSampleD, r.2.tables.versions.length))
        = .ok ([(false, true), (false, true), (true, false)], 1) := by
    decide +kernel
  rcases exists_run_of_record _ _ _ _ _ hrec with ⟨ts, s, hrun, hshown⟩
  rw [Prod.mk.injEq] at hshown
  refine ⟨ts, s, hrun, hshown.2, (oneActive_iff _ hrun).mpr ?_⟩
  have hhash (t) (ht : t ∈ ts) (hdry : t.event.dryRun = false) :
      computePayloadHash sampleKit t.event.dir =
        computePayloadHash sampleKit (sampleDir "D") := by
    have hmem : isSampleD t ∈ [(false, true), (false, true), (true, false)] :=
      hshown.1 ▸ List.mem_map_of_mem ht
    simpa [isSampleD, hdry] using hmem
  intro t ht u hu htd hud
  rw [hhash t ht htd, hhash u hu hud]

/-- After a second matrix both versions are active. -/
theorem twoActive : ∃ ts s, Run (historyStep sampleKit) ⟨0, {}⟩ ts s ∧
    ¬ OneActive sampleKit (fun a b => decide (a ≤ b)) ts s := by
  have hrec : (record (historyStep sampleKit) ⟨0, {}⟩
      [⟨sampleDir "D", false, 0⟩, ⟨sampleDir "E", false, 0⟩]).map
      (fun r => (r.2.tables.versions.filter VersionRow.isActive).length) = .ok 2 := by
    decide +kernel
  rcases exists_run_of_record _ _ _ _ _ hrec with ⟨ts, s, hrun, hshown⟩
  refine ⟨ts, s, hrun, fun hone => ?_⟩
  have hlen := hone.atMostOne
  simp only at hshown
  omega

end OneActive

section Reverts

variable {kit : Toolkit}

/-- The editions after several payloads, or nothing if one is refused. -/
def reviseAll (past es : List Edition) : Option (List Edition) := es.foldlM revise past

/-- The payloads of a sequence whose hash is not that of the one before. -/
def changes (es : List Edition) : List Edition := es.destutter (fun a b => a.hash ≠ b.hash)

theorem revise_of_isSome {past : List Edition} {e : Edition} (h : (revise past e).isSome) :
    revise past e =
      some (if past.getLast?.map Edition.hash = some e.hash then past else past ++ [e]) := by
  unfold revise at h ⊢
  by_cases hsame : past.getLast?.map Edition.hash = some e.hash
  · rw [if_pos hsame, if_pos hsame]
  · rw [if_neg hsame] at h ⊢
    by_cases hfollows : e.Follows past
    · rw [if_pos hfollows, if_neg hsame]
    · rw [if_neg hfollows] at h
      exact absurd h Bool.false_ne_true

/-- Editions that can follow one another: all hashes differ, all levels can be
    stored, and none but the last has a competency whose id starts like a
    block's. -/
def Publishable (es : List Edition) : Prop :=
  (es.map Edition.hash).Nodup ∧ (∀ e ∈ es, e.Storable) ∧
    ∀ e ∈ es.dropLast, ∀ name ∈ e.names, isBlockId name = false

instance (es : List Edition) : Decidable (Publishable es) :=
  inferInstanceAs (Decidable ((es.map Edition.hash).Nodup ∧ (∀ e ∈ es, e.Storable) ∧
    ∀ e ∈ es.dropLast, ∀ name ∈ e.names, isBlockId name = false))

/-- What the last edition and a change need. -/
theorem follows_of_publishable {init rest : List Edition} {a e : Edition} (hkept : a.ids ⊆ e.ids)
    (h : Publishable (init ++ a :: e :: rest)) : e.Follows (init ++ [a]) := by
  rcases h with ⟨hnodup, hstorable, hblocks⟩
  refine ⟨?_, ?_, ?_⟩
  · intro last hlast
    rw [List.getLast?_concat, Option.mem_some_iff] at hlast
    subst hlast
    refine (keeps_iff hkept).mpr (hblocks _ ?_)
    rw [List.dropLast_append_of_ne_nil (List.cons_ne_nil _ _), List.dropLast_cons_cons]
    exact List.mem_append_right _ List.mem_cons_self
  · intro hmem
    have happend : init ++ a :: e :: rest = (init ++ [a]) ++ e :: rest := by
      rw [List.append_assoc]
      rfl
    rw [happend, List.map_append, List.nodup_append] at hnodup
    exact hnodup.2.2 _ hmem _ List.mem_cons_self rfl
  · exact hstorable e (List.mem_append_right _ (List.mem_cons_of_mem _ List.mem_cons_self))

/-- A change that follows publishable editions is publishable with them. -/
theorem Publishable.concat {init : List Edition} {a e : Edition} (hkept : a.ids ⊆ e.ids)
    (h : Publishable (init ++ [a])) (hfollows : e.Follows (init ++ [a])) :
    Publishable (init ++ [a] ++ [e]) := by
  rcases h with ⟨hnodup, hstorable, hblocks⟩
  rcases hfollows with ⟨hkeeps, hfresh, hstore⟩
  refine ⟨?_, ?_, ?_⟩
  · rw [List.map_append, List.nodup_append]
    refine ⟨hnodup, List.nodup_singleton _, ?_⟩
    rintro i hi j hj rfl
    have hhash : i = e.hash := List.mem_singleton.mp hj
    exact hfresh (hhash ▸ hi)
  · intro f hf
    rcases List.mem_append.mp hf with hf | hf
    · exact hstorable f hf
    · exact List.mem_singleton.mp hf ▸ hstore
  · rw [List.dropLast_concat]
    intro f hf
    rcases List.mem_append.mp hf with hf | hf
    · refine hblocks f ?_
      rw [List.dropLast_concat]
      exact hf
    · rw [List.mem_singleton.mp hf]
      exact (keeps_iff hkept).mp (hkeeps a (List.getLast?_concat ▸ rfl))

/-- The first of a sequence stays. -/
theorem exists_destutter'_eq_cons {α : Type} (R : α → α → Prop) [DecidableRel R] (l : List α)
    (a : α) : ∃ rest, l.destutter' R a = a :: rest := by
  induction l with
  | nil => exact ⟨[], rfl⟩
  | cons b l ih =>
      by_cases h : R a b
      · exact ⟨_, List.destutter'_cons_pos _ h⟩
      · rw [List.destutter'_cons_neg _ h]
        exact ih

/-- After a first edition: by induction on the payloads to come, with the last
    edition in hand. -/
theorem reviseAll_concat_isSome_iff (es init : List Edition) (a : Edition)
    (hkept : (a :: es).Pairwise (fun a b => a.ids ⊆ b.ids)) (h : Publishable (init ++ [a])) :
    (reviseAll (init ++ [a]) es).isSome ↔
      Publishable (init ++ es.destutter' (fun a b => a.hash ≠ b.hash) a) := by
  induction es generalizing init a with
  | nil => exact iff_of_true rfl h
  | cons e es ih =>
      have hlast : (init ++ [a]).getLast? = some a := List.getLast?_concat
      have hae : a.ids ⊆ e.ids := (List.pairwise_cons.mp hkept).1 e List.mem_cons_self
      by_cases hsame : a.hash = e.hash
      · -- No change: the last edition stays.
        have hrevise : revise (init ++ [a]) e = some (init ++ [a]) := by
          rw [revise, hlast, Option.map_some, if_pos (congrArg some hsame)]
        rw [reviseAll, List.foldlM_cons, hrevise, List.destutter'_cons_neg _ (not_not.mpr hsame)]
        refine ih init a (hkept.sublist ?_) h
        exact (List.sublist_cons_self e es).cons_cons a
      · have hne : some a.hash ≠ some e.hash := fun hc => hsame (Option.some.inj hc)
        rw [List.destutter'_cons_pos _ hsame, reviseAll, List.foldlM_cons]
        by_cases hfollows : e.Follows (init ++ [a])
        · have hrevise : revise (init ++ [a]) e = some (init ++ [a] ++ [e]) := by
            rw [revise, hlast, Option.map_some, if_neg hne, if_pos hfollows]
          rw [hrevise]
          have hrest := ih (init ++ [a]) e (List.pairwise_cons.mp hkept).2 (h.concat hae hfollows)
          rw [List.append_assoc init [a] (List.destutter' _ _ _), List.singleton_append] at hrest
          exact hrest
        · have hrevise : revise (init ++ [a]) e = none := by
            rw [revise, hlast, Option.map_some, if_neg hne, if_neg hfollows]
          rw [hrevise]
          refine iff_of_false Bool.false_ne_true fun hpub => hfollows ?_
          rcases exists_destutter'_eq_cons (fun a b : Edition => a.hash ≠ b.hash) es e with
            ⟨rest, hrest⟩
          rw [hrest] at hpub
          exact follows_of_publishable hae hpub

/-- Payloads from which no id goes missing can be seeded in turn just where their
    changes are publishable. -/
theorem reviseAll_isSome_iff (es : List Edition)
    (hkept : es.Pairwise (fun a b => a.ids ⊆ b.ids)) :
    (reviseAll [] es).isSome ↔ Publishable (changes es) := by
  cases es with
  | nil => exact iff_of_true rfl (by decide)
  | cons a es =>
      rw [changes, List.destutter_cons', reviseAll, List.foldlM_cons]
      by_cases hfollows : a.Follows []
      · have hrevise : revise [] a = some [a] := if_pos hfollows
        have hfirst : Publishable ([] ++ [a]) :=
          ⟨List.nodup_singleton _, fun e he => List.mem_singleton.mp he ▸ hfollows.2.2,
            fun e he => absurd he List.not_mem_nil⟩
        rw [hrevise]
        exact reviseAll_concat_isSome_iff es [] a hkept hfirst
      · have hrevise : revise [] a = none := if_neg hfollows
        rw [hrevise]
        refine iff_of_false Bool.false_ne_true fun hpub => hfollows ?_
        refine ⟨fun last hlast => ?_, List.not_mem_nil, hpub.2.1 a ?_⟩
        · cases hlast
        · exact List.mem_destutter' _ _ _

/-- A payload that can be read, and how long after the one before it comes. -/
structure Push (kit : Toolkit) where
  dir : RubricDir
  docs : List (String × Document)
  delay : Nat
  loads : loadYamlDir kit dir = .ok docs

def Push.call (p : Push kit) : SeedCall := ⟨p.dir, false, p.delay⟩

def Push.edition (p : Push kit) : Edition := ⟨computePayloadHash kit p.dir, p.docs⟩

theorem Push.editionOf_dir (p : Push kit) : editionOf kit p.dir = some p.edition := by
  rw [editionOf, p.loads]
  rfl

/-- A seed did nothing if the latest version has the hash of its payload, and
    else made the payload a new version. -/
def Reconciled (p : Push kit) (t : Taken Store SeedCall SeedResult) : Prop :=
  t.event = p.call ∧ ∃ result, t.out = [result] ∧
    (result.noop = true ↔
      t.before.tables.latest?.map VersionRow.payloadHash = some p.edition.hash) ∧
    (result.noop = true → t.after.tables = t.before.tables) ∧
    (result.noop = false → ∃ v ∈ t.after.tables.versions, result.newVersionId = some v.id ∧
      v.id ∉ t.before.tables.versions.map VersionRow.id ∧ v.payloadHash = p.edition.hash ∧
      (t.after.tables.rows.of v.id).tree = p.edition.tree)

/-- Every payload of a sequence is seeded. -/
def Reconciles (clock : Instant) (pushes : List (Push kit)) : Prop :=
  ∃ ts s, Run (historyStep kit) ⟨clock, {}⟩ ts s ∧ List.Forall₂ Reconciled pushes ts

/-- A call that succeeds reconciles. -/
theorem reconciled_of_step {s s' : Store} {p : Push kit} {out : List SeedResult}
    {past : List Edition} (hkeeps : Archived s past)
    (h : historyStep kit s p.call = .ok (s', out)) :
    Reconciled p ⟨s, p.call, s', out⟩ := by
  rcases historyStep_seeds hkeeps h with ⟨e, result, hedition, _, _, rfl, _, hseeds⟩
  rcases Option.some.inj (p.editionOf_dir.symm.trans hedition) with rfl
  refine ⟨rfl, result, rfl, ?_⟩
  simp only
  rw [hkeeps.archives.latest_hash]
  cases hseeds with
  | noop hash hnoop _ htables =>
      exact ⟨iff_of_true hnoop hash, fun _ => htables,
        fun hfalse => absurd (hfalse.symm.trans hnoop) Bool.noConfusion⟩
  | dryRun _ _ hdry _ _ => exact absurd hdry Bool.noConfusion
  | created hash hnoop _ hid hversioned _ =>
      refine ⟨iff_of_false (fun h => Bool.noConfusion (hnoop.symm.trans h)) hash,
        fun h => absurd (hnoop.symm.trans h) Bool.noConfusion, fun _ => ?_⟩
      refine ⟨newVersion s.tables.nextId p.edition.hash (p.call.now s), ?_, hid, ?_, rfl,
        (hversioned.tree hkeeps.archives.sound).1⟩
      · rw [hversioned.versions]
        exact List.mem_append_right _ List.mem_cons_self
      · intro hmem
        rcases List.mem_map.mp hmem with ⟨v, hv, hvid⟩
        exact Nat.ne_of_lt (hkeeps.archives.sound.versions_lt v hv) hvid

/-- A call succeeds just when the editions can be revised, and then they are. -/
theorem historyStep_revise {s : Store} {past : List Edition} (hkeeps : Archived s past)
    (p : Push kit) :
    (revise past p.edition = none ∧ ∃ e, historyStep kit s p.call = .error e) ∨
      ∃ past' s' out, revise past p.edition = some past' ∧
        historyStep kit s p.call = .ok (s', out) ∧ Archived s' past' := by
  have hok := seedTransaction_isOk_iff p.edition (p.call.now s) hkeeps.archives
  have hseed : seed kit p.dir false (p.call.now s) s.tables =
      seedTransaction p.edition.docs p.edition.hash false (p.call.now s) s.tables := by
    unfold seed
    rw [p.loads]
    rfl
  cases htransaction : seedTransaction p.edition.docs p.edition.hash false (p.call.now s)
      s.tables with
  | error e =>
      rw [htransaction] at hok hseed
      refine Or.inl ⟨?_, e, ?_⟩
      · rw [← Option.not_isSome_iff_eq_none, ← hok]
        rintro ⟨r, hr⟩
        cases hr
      · unfold historyStep
        rw [show p.call.dir = p.dir from rfl, show p.call.dryRun = false from rfl, hseed]
  | ok r =>
      rw [htransaction] at hok hseed
      have hstep : historyStep kit s p.call = .ok (⟨p.call.now s, r.2⟩, [r.1]) := by
        unfold historyStep
        rw [show p.call.dir = p.dir from rfl, show p.call.dryRun = false from rfl, hseed]
      refine Or.inr ⟨_, _, _, revise_of_isSome (hok.mp ⟨r, rfl⟩), hstep, ?_⟩
      have hafter := historyStep_keeps hkeeps hstep
      rcases historyStep_seeds hkeeps hstep with ⟨e, result, hedition, _, _, hout, _, hseeds⟩
      rcases Option.some.inj (p.editionOf_dir.symm.trans hedition) with rfl
      rw [hout] at hafter
      cases hseeds with
      | noop hash _ hid _ =>
          rw [if_pos hash]
          simpa [seeded, hid] using hafter
      | dryRun _ _ hdry _ _ => exact absurd hdry Bool.noConfusion
      | created hash _ _ hid _ _ =>
          rw [if_neg hash]
          simpa [seeded, hid, hedition] using hafter

/-- From any tables that hold some editions, payloads can be seeded in turn just
    when the editions can be revised in turn. -/
theorem run_revise (pushes : List (Push kit)) (s : Store) (past : List Edition)
    (hkeeps : Archived s past) :
    (∃ ts s', Run (historyStep kit) s ts s' ∧ List.Forall₂ Reconciled pushes ts) ↔
      (reviseAll past (pushes.map Push.edition)).isSome := by
  induction pushes generalizing s past with
  | nil => exact iff_of_true ⟨[], s, Run.nil, List.Forall₂.nil⟩ rfl
  | cons p pushes ih =>
      rw [List.map_cons, reviseAll, List.foldlM_cons]
      constructor
      · rintro ⟨ts, s', hrun, hall⟩
        rcases List.forall₂_cons_left_iff.mp hall with ⟨t, rest, ht, hrest, rfl⟩
        have hbefore := hrun.split [] t rest rfl
        have hs : t.before = s := hbefore.1.eq_of_nil
        have hstep := hbefore.2
        rw [hs, ht.1] at hstep
        rcases historyStep_revise hkeeps p with
          ⟨_, e, herror⟩ | ⟨past', s₁, out, hrevise, hok, hkeeps'⟩
        · rw [herror] at hstep
          cases hstep
        · rw [hok, Except.ok.injEq, Prod.mk.injEq] at hstep
          rw [hrevise]
          refine (ih s₁ past' hkeeps').mp ⟨rest, s', ?_, hrest⟩
          rw [hstep.1]
          exact hrun.rest [] t rest rfl
      · intro hsome
        rcases historyStep_revise hkeeps p with
          ⟨hrevise, _⟩ | ⟨past', s₁, out, hrevise, hok, hkeeps'⟩
        · rw [hrevise] at hsome
          exact absurd hsome Bool.false_ne_true
        · rw [hrevise] at hsome
          rcases (ih s₁ past' hkeeps').mpr hsome with ⟨rest, s', hrun, hrest⟩
          exact ⟨_, s', hrun.cons hok, List.Forall₂.cons (reconciled_of_step hkeeps hok) hrest⟩

/-- Payloads from which no id goes missing are all seeded, each of them a no-op
    just if the latest version has its hash and else a new version, just where
    the changes among them are publishable. -/
theorem reconciles_iff (clock : Instant) (pushes : List (Push kit))
    (hkept : (pushes.map Push.edition).Pairwise (fun a b => a.ids ⊆ b.ids)) :
    Reconciles clock pushes ↔ Publishable (changes (pushes.map Push.edition)) :=
  (run_revise pushes ⟨clock, {}⟩ [] ⟨archives_empty, fun _ hv => absurd hv List.not_mem_nil⟩).trans
    (reviseAll_isSome_iff _ hkept)

def pushD : Push sampleKit :=
  ⟨sampleDir "D", [("go", sampleDocument "D" sampleD_ne)], 0, loads_sampleD⟩

def pushE : Push sampleKit :=
  ⟨sampleDir "E", [("go", sampleDocument "E" sampleE_ne)], 0, loads_sampleE⟩

theorem reconciles_sample : Reconciles 0 [pushD, pushD, pushE] :=
  (reconciles_iff 0 [pushD, pushD, pushE] (by decide +kernel)).mpr (by decide +kernel)

/-- A payload that goes back to the one before the last is refused. -/
theorem revert_refused :
    ([pushD, pushE, pushD].map Push.edition).Pairwise (fun a b => a.ids ⊆ b.ids) ∧
      ¬ Reconciles 0 [pushD, pushE, pushD] := by
  refine ⟨by decide +kernel, ?_⟩
  have hrefused : (reviseAll [] ([pushD, pushE, pushD].map Push.edition)).isSome = false := by
    decide +kernel
  rw [Reconciles, run_revise _ _ [] ⟨archives_empty, fun _ hv => absurd hv List.not_mem_nil⟩,
    hrefused]
  exact Bool.false_ne_true

end Reverts

end TechScreen.Rubric
