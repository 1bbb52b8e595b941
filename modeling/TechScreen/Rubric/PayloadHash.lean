import TechScreen.Rubric.Editions

/-!
# What a Payload Hash Binds

A directory is hashed as the contents of its files with a zero byte between each
two. A text that can be read has no zero byte, and an empty text is no document,
so the bytes that are hashed determine the contents, each file for itself. They
do not determine the names, and a stack has its name from its file: a file that
is renamed without another taking its place changes the rubric and not the hash.

## Main definitions

* `NoopSound`: A seed that reports a no-op has nothing to do.

## Theorems

* `framed_injective`: The hashed bytes determine the contents.
* `noopSound_iff`: A no-op is sound just where the contents determine the names.
-/

namespace TechScreen.Rubric

open Lib

section Framing

/-- Texts without the separator can be told apart by what they are joined to, if
    none of them is empty. -/
theorem intercalate_injective {α : Type} [DecidableEq α] (sep : α) {xs ys : List (List α)}
    (hxs : ∀ x ∈ xs, x ≠ [] ∧ sep ∉ x) (hys : ∀ y ∈ ys, y ≠ [] ∧ sep ∉ y)
    (h : [sep].intercalate xs = [sep].intercalate ys) : xs = ys := by
  -- Nothing is joined to nothing; one text or more are found again by cutting.
  have hempty {zs : List (List α)} (hzs : ∀ z ∈ zs, z ≠ [] ∧ sep ∉ z)
      (hz : [sep].intercalate zs = []) : zs = [] := by
    cases zs with
    | nil => rfl
    | cons z zs =>
        have hcut := List.splitOn_intercalate sep (fun l hl => (hzs l hl).2)
          (List.cons_ne_nil z zs)
        rw [hz, List.splitOn_nil] at hcut
        exact absurd (List.cons.inj hcut).1.symm (hzs z List.mem_cons_self).1
  by_cases hx : xs = []
  · subst hx
    exact (hempty hys h.symm).symm
  · by_cases hy : ys = []
    · subst hy
      exact hempty hxs h
    · rw [← List.splitOn_intercalate sep (fun l hl => (hxs l hl).2) hx, h,
        List.splitOn_intercalate sep (fun l hl => (hys l hl).2) hy]

variable {kit : Toolkit}

/-- A document that is read has a text, and no zero byte in it. -/
theorem loadDocument_content {origin : String} {content : Bytes} {doc : Document}
    (h : loadDocument kit origin content = .ok doc) : content ≠ [] ∧ 0 ∉ content := by
  constructor
  · rintro rfl
    have hnone : Document.ofJson (.obj []) = none := rfl
    simp only [loadDocument, kit.safeLoad_nil, Except.mapError, bind, Except.bind, orEmpty, hnone,
      reduceCtorEq] at h
  · intro hzero
    rcases kit.safeLoad_zero content hzero with ⟨e, he⟩
    simp only [loadDocument, he, Except.mapError, bind, Except.bind, reduceCtorEq] at h

/-- What is read does not depend on where it is from. -/
theorem loadDocument_origin (origin origin' : String) (content : Bytes) :
    (loadDocument kit origin content).toOption = (loadDocument kit origin' content).toOption := by
  unfold loadDocument
  cases kit.safeLoad content with
  | error e => rfl
  | ok doc =>
      simp only [Except.mapError, bind, Except.bind]
      cases orEmpty doc with
      | obj fields =>
          simp only
          cases Document.ofJson (.obj fields) with
          | none => rfl
          | some document => rfl
      | _ => rfl

variable {P Q : RubricDir} {docsP docsQ : List (String × Document)}

/-- One file with its document. -/
theorem loadYamlDir_step {path : String} {file : String × Bytes} {d : String × Document}
    (h : (do
      let doc ← loadDocument kit (path ++ "/" ++ file.1) file.2
      return (stem file.1, doc) : Except ImporterError (String × Document)) = .ok d) :
    loadDocument kit (path ++ "/" ++ file.1) file.2 = .ok d.2 ∧ d.1 = stem file.1 := by
  cases hdoc : loadDocument kit (path ++ "/" ++ file.1) file.2 with
  | error e => simp only [hdoc, bind, Except.bind, reduceCtorEq] at h
  | ok doc =>
      simp only [hdoc, bind, Except.bind, pure, Except.pure, Except.ok.injEq] at h
      rw [← h]
      exact ⟨rfl, rfl⟩

theorem mem_of_mapM_ok {α β err : Type} {f : α → Except err β} {as : List α} {bs : List β}
    (h : as.mapM f = .ok bs) : ∀ a ∈ as, ∃ b, f a = .ok b := by
  induction as generalizing bs with
  | nil => exact fun a ha => absurd ha List.not_mem_nil
  | cons a as ih =>
      rw [List.mapM_cons] at h
      cases ha : f a with
      | error e => simp only [ha, bind, Except.bind, reduceCtorEq] at h
      | ok b =>
          cases has : as.mapM f with
          | error e => simp only [ha, has, bind, Except.bind, reduceCtorEq] at h
          | ok rest =>
              intro x hx
              rcases List.mem_cons.mp hx with rfl | hx
              · exact ⟨b, ha⟩
              · exact ih has x hx

theorem contents_of_load (hP : loadYamlDir kit P = .ok docsP) :
    ∀ content ∈ P.files.map Prod.snd, content ≠ [] ∧ 0 ∉ content := by
  intro content hcontent
  rcases List.mem_map.mp hcontent with ⟨file, hfile, rfl⟩
  rcases mem_of_mapM_ok hP file hfile with ⟨d, hd⟩
  exact loadDocument_content (loadYamlDir_step hd).1

/-- The hashed bytes determine the contents of the files. -/
theorem framed_injective (hP : loadYamlDir kit P = .ok docsP) (hQ : loadYamlDir kit Q = .ok docsQ)
    (h : framed P.files = framed Q.files) : P.files.map Prod.snd = Q.files.map Prod.snd :=
  intercalate_injective 0 (contents_of_load hP) (contents_of_load hQ) h

/-- The same files have the same documents. -/
theorem docs_of_files (hP : loadYamlDir kit P = .ok docsP) (hQ : loadYamlDir kit Q = .ok docsQ)
    (h : P.files = Q.files) : docsP = docsQ := by
  have hdocs {D : RubricDir} {docs : List (String × Document)} (hD : loadYamlDir kit D = .ok docs) :
      docs.map (fun d => (d.1, some d.2)) =
        D.files.map (fun file => (stem file.1, (loadDocument kit "" file.2).toOption)) := by
    refine map_of_mapM_ok (fun file d hd => ?_) hD
    rcases loadYamlDir_step hd with ⟨hdoc, hname⟩
    rw [loadDocument_origin "" (D.path ++ "/" ++ file.1), hdoc, hname]
    rfl
  have hsame := (hdocs hP).trans ((congrArg _ h).trans (hdocs hQ).symm)
  refine List.map_injective_iff.mpr (fun a b hab => ?_) hsame
  rw [Prod.mk.injEq, Option.some.injEq] at hab
  exact Prod.ext hab.1 hab.2

end Framing

section Noops

variable {kit : Toolkit}

/-- A seed of one directory that reports a no-op where the latest version was made
    from another has nothing to do: the directories have the same files, and the
    version has the tree that it would write. -/
structure NoopSound (kit : Toolkit) (P Q : RubricDir) (docsP docsQ : List (String × Document)) :
    Prop where
  files : computePayloadHash kit P = computePayloadHash kit Q → P.files = Q.files
  tree : ∀ (t t' : Tables) (v : VersionRow) (dryRun : Bool) (now : Instant) (result : SeedResult),
    t.latest? = some v → t.Holds v ⟨computePayloadHash kit P, docsP⟩ →
    seed kit Q dryRun now t = .ok (result, t') → result.noop = true →
      (t.rows.of v.id).tree = payloadTree (distinctDocs docsQ)

/-- A seed reports a no-op just where the latest version has its hash. -/
theorem hash_of_noop {Q : RubricDir} {t t' : Tables} {v : VersionRow} {dryRun : Bool}
    {now : Instant} {result : SeedResult} (hlatest : t.latest? = some v)
    (h : seed kit Q dryRun now t = .ok (result, t')) (hnoop : result.noop = true) :
    v.payloadHash = computePayloadHash kit Q := by
  rcases seed_ok h with ⟨docs, _, htransaction⟩
  rcases seedTransaction_cases htransaction with
    ⟨hsame, _, _⟩ | ⟨_, _, ⟨_, rfl, _⟩ | ⟨_, hwrite⟩⟩
  · rw [hlatest] at hsame
    exact Option.some.inj hsame
  · cases hnoop
  · exact absurd (hnoop.symm.trans (writeVersion_versioned hwrite).2.2) Bool.noConfusion

/-- If the hash has no collision on the two directories, a no-op is sound just
    where the same contents, in the order of the names, have the same names. -/
theorem noopSound_iff {P Q : RubricDir} {docsP docsQ : List (String × Document)}
    (hP : loadYamlDir kit P = .ok docsP) (hQ : loadYamlDir kit Q = .ok docsQ)
    (hcollision : kit.sha256 (framed P.files) = kit.sha256 (framed Q.files) →
      framed P.files = framed Q.files) :
    NoopSound kit P Q docsP docsQ ↔
      (P.files.map Prod.snd = Q.files.map Prod.snd →
        P.files.map Prod.fst = Q.files.map Prod.fst) := by
  constructor
  · intro h hcontents
    have hhash : computePayloadHash kit P = computePayloadHash kit Q := by
      unfold computePayloadHash framed
      rw [hcontents]
    rw [h.files hhash]
  · intro hnames
    have hfiles (hhash : computePayloadHash kit P = computePayloadHash kit Q) :
        P.files = Q.files := by
      have hcontents := framed_injective hP hQ (hcollision hhash)
      rw [List.zip_of_prod (hnames hcontents) hcontents]
      exact (List.zip_of_prod rfl rfl).symm
    refine ⟨hfiles, fun t t' v dryRun now result hlatest hholds hseed hnoop => ?_⟩
    have hhash : computePayloadHash kit P = computePayloadHash kit Q :=
      hholds.hash.symm.trans (hash_of_noop hlatest hseed hnoop)
    rw [hholds.tree, docs_of_files hP hQ (hfiles hhash)]
    rfl

theorem noopSound_sample : NoopSound sampleKit (sampleDir "D") (sampleDir "D")
    [("go", sampleDocument "D" sampleD_ne)] [("go", sampleDocument "D" sampleD_ne)] :=
  (noopSound_iff loads_sampleD loads_sampleD (fun _ => rfl)).mpr (fun _ => rfl)

theorem yaml_renamed : ".yaml".toList <:+ "py.yaml".toList := by decide +kernel

/-- The first matrix under another name. -/
def renamedDir : RubricDir where
  path := "configs/rubric"
  files := [("py.yaml", sampleText "D")]
  sorted := List.pairwise_singleton _ _
  yaml file hfile := by
    rw [List.mem_singleton.mp hfile]
    exact yaml_renamed

/-- A matrix under another name is another rubric with the same hash. -/
theorem renamed_noop :
    loadYamlDir sampleKit renamedDir = .ok [("py", sampleDocument "D" sampleD_ne)] ∧
      ¬ NoopSound sampleKit (sampleDir "D") renamedDir
        [("go", sampleDocument "D" sampleD_ne)] [("py", sampleDocument "D" sampleD_ne)] := by
  refine ⟨by decide +kernel, fun h => ?_⟩
  have hnames := congrArg (List.map Prod.fst) (h.files rfl)
  exact absurd hnames (by decide)

end Noops

end TechScreen.Rubric
