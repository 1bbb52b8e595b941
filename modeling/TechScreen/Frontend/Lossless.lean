import TechScreen.Frontend.Emission
import TechScreen.Lib.CssText

/-!
# What Survives Generation

When the module of the tokens and the block of variables hold every row that was
read. The module loses a row if another path begins with its path, or its path with
another: an assignment replaces what is in its way. The block gives two rows one
variable if their paths are the same once the dots are hyphens, and it holds a value
only if the value is whole: otherwise the value ends early, or takes in what follows
it. None of this is noticed, but for the roles with an alias, which are looked for
in the tree.

The block is read as a stylesheet is. Outside its markers the stylesheet stays, and
the same block once more changes nothing.

## Main definitions

* `Survives`: Each row is in the module and in the block, in a place of its own.
* `Kept`: A role that no later row is in the way of.
* `Apart`: No two rows get into each other's way, and all values are whole.

## Theorems

* `find_colors_iff`: The rows in the tree.
* `tokenAt_colors`: The rows in the module.
* `declared_block`: What the block declares.
* `tokens_survive_iff`: When all rows survive; and the stylesheet always does.
-/

namespace TechScreen.Frontend

open Lib

section Paths

theorem segments_injective {s t : String} (h : segments s = segments t) : s = t := by
  have hpieces : s.toList.splitOn '.' = t.toList.splitOn '.' := by
    refine List.map_injective_iff.mpr ?_ h
    intro a b hab
    have hlists := congrArg String.toList hab
    rwa [String.toList_ofList, String.toList_ofList] at hlists
  exact String.toList_inj.mp (splitOn_injective hpieces)

theorem segments_ne_nil (s : String) : segments s ≠ [] := by
  unfold segments
  rw [ne_eq, List.map_eq_nil_iff]
  exact List.splitOn_ne_nil _ _

theorem joinDots_segments (s : String) : joinDots (segments s) = s := by
  have hpieces : (segments s).map String.toList = s.toList.splitOn '.' := by
    unfold segments
    rw [List.map_map]
    conv_rhs => rw [← List.map_id (s.toList.splitOn '.')]
    exact List.map_congr_left (fun w _ => String.toList_ofList)
  rw [joinDots, hpieces, List.intercalate_splitOn, String.ofList_toList]

end Paths

section Nest
variable {rows : List ParsedRow}

/-- A row as an assignment. -/
def ParsedRow.entry (row : ParsedRow) : List String × String := (segments row.path, row.value)

/-- The rows of the colours. -/
def colorRows (rows : List ParsedRow) : List ParsedRow := rows.filter ParsedRow.isColor

theorem colors_addRow (buckets : Buckets) (row : ParsedRow) : (addRow buckets row).colors =
    if row.isColor then setNested buckets.colors (segments row.path) row.value
    else buckets.colors := by
  have hiff : row.isColor = true ↔ (segments row.path).headD "" ∈ colorPrefixes :=
    List.contains_iff_mem
  unfold addRow
  by_cases hcolor : (segments row.path).headD "" ∈ colorPrefixes
  · rw [if_pos (hiff.mpr hcolor)]
    simp only [if_pos hcolor]
  · rw [if_neg (fun hc => hcolor (hiff.mp hc))]
    simp only [if_neg hcolor]
    split_ifs <;> rfl

theorem colors_buildBuckets (rows : List ParsedRow) :
    (buildBuckets rows).colors = Nest.build ((colorRows rows).map ParsedRow.entry) := by
  induction rows using List.reverseRecOn with
  | nil => rfl
  | append_singleton rows row ih =>
      have hrows : colorRows (rows ++ [row]) = colorRows rows ++ [row].filter ParsedRow.isColor :=
        List.filter_append rows [row]
      rw [buildBuckets, List.foldl_append, List.foldl_cons, List.foldl_nil, ← buildBuckets,
        colors_addRow, ih, hrows]
      by_cases hcolor : row.isColor = true
      · rw [if_pos hcolor, List.filter_cons_of_pos hcolor, List.filter_nil, List.map_append,
          List.map_singleton, Nest.build_snoc]
        rfl
      · rw [if_neg hcolor, List.filter_cons_of_neg hcolor, List.filter_nil, List.append_nil]

theorem entry_ne_nil : ∀ e ∈ (colorRows rows).map ParsedRow.entry, e.1 ≠ [] := by
  intro e he
  obtain ⟨row, -, rfl⟩ := List.mem_map.mp he
  exact segments_ne_nil row.path

theorem tidy_colors (rows : List ParsedRow) : Nest.Tidy (buildBuckets rows).colors := by
  rw [colors_buildBuckets]
  exact Nest.tidy_build _

/-- A role that no later row is in the way of. -/
def Kept (rows : List ParsedRow) (role : String) : Prop :=
  ∃ before row after, colorRows rows = before ++ row :: after ∧ row.path = role ∧
    ∀ later ∈ after, ¬ Nest.Meets (segments later.path) (segments role)

/-- What is found in the tree is a row that is kept. -/
theorem find_colors_iff (role value : String) :
    Nest.find (buildBuckets rows).colors (segments role) = some value ↔
      ∃ before row after, colorRows rows = before ++ row :: after ∧
        row.entry = (segments role, value) ∧
        ∀ later ∈ after, ¬ Nest.Meets (segments later.path) (segments role) := by
  rw [colors_buildBuckets, Nest.find_build_eq_some_iff entry_ne_nil]
  constructor
  · rintro ⟨before, after, hsplit, hafter⟩
    obtain ⟨front, rest, hrows, rfl, hrest⟩ := List.map_eq_append_iff.mp hsplit
    obtain ⟨row, back, rfl, hrow, rfl⟩ := List.map_eq_cons_iff.mp hrest
    exact ⟨front, row, back, hrows, hrow,
      fun later hlater => hafter _ (List.mem_map_of_mem hlater)⟩
  · rintro ⟨before, row, after, hrows, hrow, hafter⟩
    refine ⟨before.map ParsedRow.entry, after.map ParsedRow.entry, ?_, fun e he => ?_⟩
    · rw [hrows, List.map_append, List.map_cons, hrow]
    · obtain ⟨later, hlater, rfl⟩ := List.mem_map.mp he
      exact hafter later hlater

theorem kept_iff (role : String) : Kept rows role ↔
    ∃ value, Nest.find (buildBuckets rows).colors (segments role) = some value := by
  constructor
  · rintro ⟨before, row, after, hrows, rfl, hafter⟩
    exact ⟨row.value, (find_colors_iff row.path row.value).mpr
      ⟨before, row, after, hrows, rfl, hafter⟩⟩
  · rintro ⟨value, hfind⟩
    obtain ⟨before, row, after, hrows, hrow, hafter⟩ := (find_colors_iff role value).mp hfind
    exact ⟨before, row, after, hrows, segments_injective (congrArg Prod.fst hrow), hafter⟩

/-- A role is walked just if it is kept. -/
theorem walkColors_any_iff (role : String) :
    (walkColors (buildBuckets rows).colors).any (fun e => e.1 == role) = true ↔
      Kept rows role := by
  have horder : ∀ es : List (String × Nest String String), (objectEntries es).Perm es :=
    objectEntries_perm
  have htidy := tidy_colors rows
  rw [kept_iff, List.any_eq_true]
  constructor
  · rintro ⟨e, he, hrole⟩
    obtain ⟨⟨p, value⟩, hwalk, rfl⟩ := List.mem_map.mp he
    obtain ⟨q, hq, hfind⟩ := (Nest.mem_walkEntries_iff (htidy.arrange horder)).mp hwalk
    rw [List.nil_append] at hq
    subst hq
    rw [Nest.find_arrange horder htidy] at hfind
    -- The path is that of a row, whose segments have no dots in them.
    rw [colors_buildBuckets] at hfind
    obtain ⟨before, after, hsplit, -⟩ := (Nest.find_build_eq_some_iff entry_ne_nil).mp hfind
    have hmem : (p, value) ∈ (colorRows rows).map ParsedRow.entry := by
      rw [hsplit]
      exact List.mem_append_right _ List.mem_cons_self
    obtain ⟨row, -, hrow⟩ := List.mem_map.mp hmem
    obtain rfl : segments row.path = p := congrArg Prod.fst hrow
    rw [joinDots_segments, beq_iff_eq] at hrole
    rw [← hrole, colors_buildBuckets]
    exact ⟨value, hfind⟩
  · rintro ⟨value, hfind⟩
    refine ⟨(role, value), List.mem_map.mpr ⟨(segments role, value), ?_, ?_⟩, beq_self_eq_true role⟩
    · rw [← Nest.find_arrange horder htidy] at hfind
      exact (Nest.mem_walkEntries_iff (htidy.arrange horder)).mpr ⟨segments role, rfl, hfind⟩
    · rw [joinDots_segments]

end Nest

section Values
variable (toHsl : Nat → Nat → Nat → Int × Int × Int)

theorem trim_eq_self {s : List Char} (h : ∀ c ∈ s, isSpace c = false) : trim s = s := by
  have hdrop : ∀ l : List Char, (∀ c ∈ l, isSpace c = false) → l.dropWhile isSpace = l := by
    intro l hl
    cases l with
    | nil => rfl
    | cons c l =>
        refine List.dropWhile_cons_of_neg ?_
        rw [hl c List.mem_cons_self]
        exact Bool.false_ne_true
  rw [trim, hdrop s h, hdrop s.reverse (fun c hc => h c (List.mem_reverse.mp hc)),
    List.reverse_reverse]

theorem exists_of_length_six {α : Type} {l : List α} (h : l.length = 6) :
    ∃ a b c d e f, l = [a, b, c, d, e, f] := by
  obtain ⟨a, l, rfl⟩ := List.exists_cons_of_length_eq_add_one h
  obtain ⟨b, l, rfl⟩ := List.exists_cons_of_length_eq_add_one (Nat.succ.inj h)
  obtain ⟨c, l, rfl⟩ := List.exists_cons_of_length_eq_add_one (Nat.succ.inj (Nat.succ.inj h))
  obtain ⟨d, e, f, rfl⟩ := List.length_eq_three.mp
    (Nat.succ.inj (Nat.succ.inj (Nat.succ.inj h)))
  exact ⟨a, b, c, d, e, f, rfl⟩

theorem isSpace_of_isHexDigit {c : Char} (h : isHexDigit c = true) : isSpace c = false := by
  have hrange : 48 ≤ c.toNat ∧ c.toNat ≤ 102 := by
    simp only [isHexDigit, Char.isDigit, Bool.or_eq_true, Bool.and_eq_true, decide_eq_true_eq,
      Char.le_def, UInt32.le_iff_toNat_le, ge_iff_le] at h
    have hcode : c.toNat = c.val.toNat := rfl
    have hlast : 'F'.val.toNat = 70 ∧ 'f'.val.toNat = 102 := ⟨rfl, rfl⟩
    have hfirst : 'A'.val.toNat = 65 ∧ 'a'.val.toNat = 97 := ⟨rfl, rfl⟩
    have hdigit : '0'.val.toNat = 48 ∧ '9'.val.toNat = 57 := ⟨rfl, rfl⟩
    omega
  unfold isSpace
  rw [Bool.or_eq_false_iff, Bool.and_eq_false_iff, decide_eq_false_iff_not]
  refine ⟨?_, Or.inl (by omega)⟩
  rw [List.contains_eq_mem, decide_eq_false_iff_not]
  simp only [List.mem_cons, List.not_mem_nil, or_false]
  omega

/-- A colour in hexadecimal has its six digits. -/
theorem hexToHsl_of_isHex {value : String} (h : isHex value = true) :
    ∃ hsl, hexToHsl toHsl value = .ok (hslText hsl) := by
  unfold isHex at h
  split at h
  · next digits hvalue =>
      rw [Bool.and_eq_true, List.all_eq_true, Bool.or_eq_true, beq_iff_eq, beq_iff_eq] at h
      obtain ⟨hdigits, hlength⟩ := h
      have htrim : trim ('#' :: digits) = '#' :: digits := by
        refine trim_eq_self (fun c hc => ?_)
        rcases List.mem_cons.mp hc with rfl | hc
        · decide
        · exact isSpace_of_isHexDigit (hdigits c hc)
      have hsix : (hexDigits value.toList).length = 6 := by
        rw [hvalue, hexDigits, htrim, dropHash]
        split
        · next hthree =>
            obtain ⟨a, b, c, rfl⟩ := List.length_eq_three.mp hthree
            rfl
        · next hthree => exact hlength.resolve_left hthree
      obtain ⟨a, b, c, d, e, f, hlist⟩ := exists_of_length_six hsix
      exact ⟨_, by rw [hexToHsl, hlist]⟩
  · cases h

/-- The value of a colour in the block. -/
def cssText (value : String) : String :=
  match cssValue toHsl value with
  | .ok css => css
  | .error _ => ""

theorem cssValue_eq (value : String) : cssValue toHsl value = .ok (cssText toHsl value) := by
  unfold cssText cssValue
  by_cases h : isHex value = true
  · obtain ⟨hsl, hok⟩ := hexToHsl_of_isHex toHsl h
    rw [if_pos h, hok]
  · rw [if_neg h]

theorem toString_chars (n : Int) :
    (toString n).toList ≠ [] ∧ ∀ c ∈ (toString n).toList, c.isDigit = true ∨ c = '-' := by
  have hnat : ∀ m : Nat, (Nat.repr m).toList ≠ [] ∧ ∀ c ∈ (Nat.repr m).toList,
      c.isDigit = true := by
    intro m
    rw [Nat.repr, String.toList_ofList]
    exact ⟨Nat.toDigits_ne_nil,
      fun c hc => Nat.isDigit_of_mem_toDigits (Nat.zero_lt_succ 9) (le_refl 10) hc⟩
  cases n with
  | ofNat m => exact ⟨(hnat m).1, fun c hc => Or.inl ((hnat m).2 c hc)⟩
  | negSucc m =>
      have hshape : toString (Int.negSucc m) = "-" ++ Nat.repr (m + 1) := rfl
      rw [hshape, String.toList_append]
      refine ⟨List.cons_ne_nil _ _, fun c hc => ?_⟩
      rcases List.mem_append.mp hc with hc | hc
      · exact Or.inr (List.mem_singleton.mp hc)
      · exact Or.inl ((hnat (m + 1)).2 c hc)

theorem isHarmless_of_isDigit {c : Char} (h : c.isDigit = true) :
    CssText.isHarmless c = true := by
  unfold CssText.isHarmless CssText.isNameChar Char.isAlphanum
  rw [h]
  simp

/-- The text of a colour has nothing special in it. -/
theorem hslText_harmless (hsl : Int × Int × Int) :
    ∀ c ∈ (hslText hsl).toList, CssText.isHarmless c = true := by
  have hint : ∀ n : Int, ∀ c ∈ (toString n).toList, CssText.isHarmless c = true := by
    intro n c hc
    rcases (toString_chars n).2 c hc with hdigit | rfl
    · exact isHarmless_of_isDigit hdigit
    · decide
  have hunits : ∀ c ∈ " ".toList ++ "% ".toList ++ "%".toList, CssText.isHarmless c = true :=
    List.forall_iff_forall_mem.mp (by decide +kernel)
  intro c hc
  unfold hslText at hc
  simp only [String.toList_append, List.mem_append] at hc hunits
  rcases hc with ((((hc | hc) | hc) | hc) | hc) | hc
  · exact hint _ c hc
  · exact hunits c (Or.inl (Or.inl hc))
  · exact hint _ c hc
  · exact hunits c (Or.inl (Or.inr hc))
  · exact hint _ c hc
  · exact hunits c (Or.inr hc)

theorem isSpace_of_isBlank {c : Char} (h : CssText.isBlank c = true) : isSpace c = true := by
  have hall : ∀ d ∈ [' ', '\t', '\n', '\r', Char.ofNat 12], isSpace d = true :=
    List.forall_iff_forall_mem.mp (by decide)
  exact hall c (CssText.mem_of_isBlank h)

theorem isBlank_of_isSpace {c : Char} (h : isSpace c = false) : CssText.isBlank c = false := by
  rw [Bool.eq_false_iff]
  intro hblank
  rw [isSpace_of_isBlank hblank] at h
  cases h

theorem hslText_first (hsl : Int × Int × Int) :
    ∀ c ∈ (hslText hsl).toList.head?, CssText.isBlank c = false := by
  have hplain : ∀ d ∈ [' ', '\t', '\n', '\r', Char.ofNat 12],
      ¬ (d.isDigit = true ∨ d = '-') :=
    List.forall_iff_forall_mem.mp (by decide)
  intro c hc
  obtain ⟨d, ds, hds⟩ := List.exists_cons_of_ne_nil (toString_chars hsl.1).1
  have hhead : (hslText hsl).toList.head? = some d := by
    unfold hslText
    simp only [String.toList_append, hds, List.cons_append, List.head?_cons]
  rw [hhead] at hc
  obtain rfl := Option.some.inj (Option.mem_def.mp hc)
  rw [Bool.eq_false_iff]
  exact fun hblank => hplain d (CssText.mem_of_isBlank hblank)
    ((toString_chars hsl.1).2 d (by rw [hds]; exact List.mem_cons_self))

theorem hslText_last (hsl : Int × Int × Int) :
    ∀ c ∈ (hslText hsl).toList.getLast?, CssText.isBlank c = false := by
  intro c hc
  have hlast : (hslText hsl).toList.getLast? = some '%' := by
    unfold hslText
    rw [String.toList_append]
    exact List.getLast?_concat
  rw [hlast] at hc
  obtain rfl := Option.some.inj (Option.mem_def.mp hc)
  rfl

theorem cssText_of_isHex {value : String} (h : isHex value = true) :
    ∃ hsl, cssText toHsl value = hslText hsl := by
  obtain ⟨hsl, hok⟩ := hexToHsl_of_isHex toHsl h
  refine ⟨hsl, ?_⟩
  rw [cssText, cssValue, if_pos h, hok]

theorem cssText_of_not_isHex {value : String} (h : ¬ isHex value = true) :
    cssText toHsl value = value := by
  rw [cssText, cssValue, if_neg h]

theorem isAlphanum_of_isHexDigit {c : Char} (h : isHexDigit c = true) : c.isAlphanum = true := by
  have hshape : c.isAlphanum =
      (decide ('A'.val ≤ c.val ∧ c.val ≤ 'Z'.val) ||
        (decide ('a'.val ≤ c.val) && decide (c.val ≤ 'z'.val)) || c.isDigit) := rfl
  simp only [hshape, isHexDigit, Bool.or_eq_true, Bool.and_eq_true, decide_eq_true_eq,
    Char.le_def, UInt32.le_iff_toNat_le] at h ⊢
  have hlast : 'F'.val.toNat = 70 ∧ 'f'.val.toNat = 102 := ⟨rfl, rfl⟩
  have hfirst : 'A'.val.toNat = 65 ∧ 'a'.val.toNat = 97 := ⟨rfl, rfl⟩
  have hend : 'Z'.val.toNat = 90 ∧ 'z'.val.toNat = 122 := ⟨rfl, rfl⟩
  rcases h with (hdigit | hupper) | hlower
  · exact Or.inr hdigit
  · exact Or.inl (Or.inl (by omega))
  · exact Or.inl (Or.inr (by omega))

theorem whole_of_isHex {value : String} (h : isHex value = true) :
    CssText.isWhole value.toList = true := by
  refine CssText.whole_of_harmless (fun c hc => ?_)
  unfold isHex at h
  split at h
  · next digits hvalue =>
      rw [Bool.and_eq_true, List.all_eq_true] at h
      rw [hvalue] at hc
      rcases List.mem_cons.mp hc with rfl | hc
      · rfl
      · unfold CssText.isHarmless CssText.isNameChar
        rw [isAlphanum_of_isHexDigit (h.1 c hc)]
        rfl
  · cases h

/-- The value in the block is whole just if the one that was read is. -/
theorem isWhole_cssText (value : String) :
    CssText.isWhole (cssText toHsl value).toList = CssText.isWhole value.toList := by
  by_cases h : isHex value = true
  · obtain ⟨hsl, hcss⟩ := cssText_of_isHex toHsl h
    rw [hcss, CssText.whole_of_harmless (hslText_harmless hsl), whole_of_isHex h]
  · rw [cssText_of_not_isHex toHsl h]

theorem cssText_ends (row : ParsedRow) :
    (∀ c ∈ (cssText toHsl row.value).toList.head?, CssText.isBlank c = false) ∧
      ∀ c ∈ (cssText toHsl row.value).toList.getLast?, CssText.isBlank c = false := by
  by_cases h : isHex row.value = true
  · obtain ⟨hsl, hcss⟩ := cssText_of_isHex toHsl h
    rw [hcss]
    exact ⟨hslText_first hsl, hslText_last hsl⟩
  · rw [cssText_of_not_isHex toHsl h]
    exact ⟨fun c hc => isBlank_of_isSpace (row.trimmed.1 c hc),
      fun c hc => isBlank_of_isSpace (row.trimmed.2 c hc)⟩

end Values

section Variables

/-- A path of letters, digits, hyphens and dots. -/
theorem mem_path (row : ParsedRow) {c : Char} (h : c ∈ row.path.toList) :
    c.isAlphanum = true ∨ c = '-' ∨ c = '.' := by
  have hpath := row.isPath
  rcases eq_or_mem_splitOn h with hdot | ⟨w, hw, hc⟩
  · exact Or.inr (Or.inr hdot)
  · unfold isTokenPath at hpath
    split at hpath
    · next d ds seg segs hsplit =>
        rw [Bool.and_eq_true, Bool.and_eq_true, List.all_eq_true, List.all_eq_true] at hpath
        obtain ⟨⟨hd, hds⟩, hsegs⟩ := hpath
        rw [hsplit] at hw
        rcases List.mem_cons.mp hw with rfl | hw
        · rcases List.mem_cons.mp hc with rfl | hc
          · rw [Char.isAlphanum, hd, Bool.true_or]
            exact Or.inl rfl
          · exact Or.inl (hds c hc)
        · have hseg := hsegs w hw
          rw [Bool.and_eq_true, List.all_eq_true] at hseg
          have hplain := hseg.2 c hc
          rw [Bool.or_eq_true, beq_iff_eq] at hplain
          exact hplain.imp_right Or.inl
    · cases hpath

theorem toList_roleToVar (role : String) :
    (roleToVar role).toList = '-' :: '-' :: role.toList.map hyphen := by
  have hlist : (String.ofList (role.toList.map hyphen)).toList = role.toList.map hyphen :=
    String.toList_ofList
  rw [roleToVar, String.toList_append, hlist]
  rfl

/-- The characters of a variable's name. -/
theorem mem_roleToVar (row : ParsedRow) {c : Char} (h : c ∈ (roleToVar row.path).toList) :
    c.isAlphanum = true ∨ c = '-' := by
  rw [toList_roleToVar, List.mem_cons, List.mem_cons, List.mem_map] at h
  rcases h with h | h | ⟨d, hd, rfl⟩
  · exact Or.inr h
  · exact Or.inr h
  · unfold hyphen
    by_cases hdot : d = '.'
    · rw [if_pos hdot]
      exact Or.inr rfl
    · rw [if_neg hdot]
      rcases mem_path row hd with hd | hd | hd
      · exact Or.inl hd
      · exact Or.inr hd
      · exact absurd hd hdot

/-- The variables of the block that are no row's. -/
def otherVars : List String := "radius" :: roleToShadcnAlias.map Prod.snd

/-- No colour has the variable of an alias: it begins with the name of its group, and
    a hyphen. -/
theorem roleToVar_ne_other {row : ParsedRow} (hcolor : row.isColor = true) {name : String}
    (hname : name ∈ otherVars) : roleToVar row.path ≠ "--" ++ name := by
  have hother : ∀ other ∈ otherVars, ∀ head ∈ colorPrefixes,
      ¬ head.toList.map hyphen ++ ['-'] <+: other.toList := by
    decide +kernel
  have hpath := row.isPath
  unfold isTokenPath at hpath
  split at hpath
  · next d ds seg segs hsplit =>
      intro heq
      obtain ⟨rest, hrest⟩ := eq_append_of_splitOn hsplit
      have hhead : String.ofList (d :: ds) ∈ colorPrefixes := by
        have hmem := List.contains_iff_mem.mp hcolor
        rw [segments, hsplit] at hmem
        exact hmem
      refine hother name hname _ hhead ⟨rest.map hyphen, ?_⟩
      have hlists := congrArg String.toList heq
      rw [toList_roleToVar, String.toList_append, hrest, List.map_append, List.map_cons] at hlists
      rw [String.toList_ofList, List.append_assoc]
      exact (List.cons.inj (List.cons.inj hlists).2).2
  · cases hpath

end Variables

section Module
variable {rows : List ParsedRow}

theorem buildBuckets_of_colors (h : ∀ row ∈ rows, row.isColor = true) :
    buildBuckets rows = { colors := (buildBuckets rows).colors } := by
  induction rows using List.reverseRecOn with
  | nil => rfl
  | append_singleton rows row ih =>
      have hrow : row.isColor = true := h row (List.mem_append_right _ List.mem_cons_self)
      have hcolor : (segments row.path).headD "" ∈ colorPrefixes := List.contains_iff_mem.mp hrow
      have hrows := ih (fun r hr => h r (List.mem_append_left _ hr))
      have hstep : buildBuckets (rows ++ [row]) = addRow (buildBuckets rows) row := by
        rw [buildBuckets, List.foldl_append, List.foldl_cons, List.foldl_nil, buildBuckets]
      rw [hstep, hrows]
      unfold addRow
      simp only [if_pos hcolor]

/-- No key of the tree has an underscore. -/
theorem keyed_colors (rows : List ParsedRow) :
    Nest.Keyed (fun key : String => '_' ∉ key.toList) (buildBuckets rows).colors := by
  rw [colors_buildBuckets]
  refine Nest.keyed_build (fun r hr key hkey hmem => ?_)
  obtain ⟨row, -, rfl⟩ := List.mem_map.mp hr
  obtain ⟨w, hw, rfl⟩ := List.mem_map.mp hkey
  rw [String.toList_ofList] at hmem
  rcases mem_path row (mem_of_mem_splitOn hw hmem) with hc | hc | hc <;> exact absurd hc (by decide)

theorem keys_colors (h : ∀ row ∈ rows, row.isColor = true) :
    ∀ key ∈ (buildBuckets rows).literal.keys, key ≠ JsLiteral.proto := by
  have hbuckets : ∀ name ∈ ["colors", "space", "fontSize", "fontFamily", "borderRadius",
      "transitionDuration"], name.toList ≠ JsLiteral.proto := by
    decide +kernel
  have hcolors := keys_membersOf ((keyed_colors rows).arrange objectEntries_perm)
  rintro key hkey rfl
  rw [buildBuckets_of_colors h] at hkey
  obtain ⟨m, hm, hkey⟩ := mem_memberKeys.mp hkey
  simp only [List.mem_cons, List.not_mem_nil, or_false] at hm
  rcases hm with rfl | rfl | rfl | rfl | rfl | rfl
  · rcases hkey with hkey | hkey
    · exact hbuckets "colors" (by decide) hkey.symm
    · obtain ⟨k, hk, hproto⟩ := hcolors _ hkey
      exact hk (by rw [← hproto]; decide)
  all_goals
    rcases hkey with hkey | hkey
    · exact hbuckets _ (by decide) hkey.symm
    · exact absurd hkey List.not_mem_nil

/-- A row is found in the module where it is in the tree. -/
theorem tokenAt_colors (h : ∀ row ∈ rows, row.isColor = true) (path value : String) :
    tokenAt (buildTokensTs (buildBuckets rows)) (segments path) = some value.toList ↔
      Nest.find (buildBuckets rows).colors (segments path) = some value := by
  rw [tokenAt_buildTokensTs (keys_colors h) (tidy_colors rows), Option.map_eq_some_iff]
  constructor
  · rintro ⟨v, hfind, hv⟩
    rw [hfind, String.toList_inj.mp hv]
  · exact fun hfind => ⟨value, hfind, rfl⟩

end Module

section Generated
variable (toHsl : Nat → Nat → Nat → Int × Int × Int) {rows : List ParsedRow}

theorem mapM_eq_ok {α β err : Type} {f : α → Except err β} {g : α → β} {l : List α}
    (h : ∀ x ∈ l, f x = .ok (g x)) : l.mapM f = .ok (l.map g) := by
  induction l with
  | nil => rfl
  | cons x l ih =>
      rw [List.mapM_cons, h x List.mem_cons_self, ih (fun y hy => h y (List.mem_cons_of_mem x hy))]
      rfl

theorem mapM_error {α β err : Type} {f : α → Except err β} {l : List α}
    (h : ∃ x ∈ l, ∃ e, f x = .error e) : ∃ e, l.mapM f = .error e := by
  induction l with
  | nil =>
      obtain ⟨x, hx, -⟩ := h
      exact absurd hx List.not_mem_nil
  | cons x l ih =>
      obtain ⟨y, hy, e, he⟩ := h
      rw [List.mapM_cons]
      cases hx : f x with
      | error d => exact ⟨d, rfl⟩
      | ok b =>
          rcases List.mem_cons.mp hy with rfl | hy
          · rw [he] at hx
            cases hx
          · obtain ⟨d, hd⟩ := ih ⟨y, hy, e, he⟩
            rw [hd]
            exact ⟨d, rfl⟩

def roleText (row : ParsedRow) : String :=
  "  " ++ roleToVar row.path ++ ": " ++ cssText toHsl row.value ++ ";"

def aliasText (entry : String × String) : String :=
  "  --" ++ entry.2 ++ ": var(" ++ roleToVar entry.1 ++ ");"

/-- The lines of the block, where it is generated. -/
def blockLines (rows : List ParsedRow) : List String :=
  ":root \x7b" :: (colorRows rows).map (roleText toHsl) ++ ["", "  /* shadcn aliases */"] ++
    roleToShadcnAlias.map aliasText ++ radiusLine (buildBuckets rows) ++ ["\x7d"]

theorem mapM_roleLine (rows : List ParsedRow) :
    (colorRows rows).mapM (roleLine toHsl) = .ok ((colorRows rows).map (roleText toHsl)) := by
  refine mapM_eq_ok (fun row _ => ?_)
  rw [roleLine, cssValue_eq]
  rfl

theorem buildCssBlock_of_kept (h : ∀ entry ∈ roleToShadcnAlias, Kept rows entry.1) :
    buildCssBlock toHsl rows (buildBuckets rows) = .ok (joinLines (blockLines toHsl rows)) := by
  have haliases : roleToShadcnAlias.mapM (aliasLine (buildBuckets rows))
      = .ok (roleToShadcnAlias.map aliasText) := by
    refine mapM_eq_ok (fun entry hentry => ?_)
    rw [aliasLine, if_pos ((walkColors_any_iff entry.1).mpr (h entry hentry))]
    rfl
  have hroles : (rows.filter ParsedRow.isColor).mapM (roleLine toHsl)
      = .ok ((colorRows rows).map (roleText toHsl)) := mapM_roleLine toHsl rows
  rw [buildCssBlock, cssLines, hroles, haliases]
  rfl

/-- A role with an alias that is not kept makes the generation throw. -/
theorem buildCssBlock_error (h : ∃ entry ∈ roleToShadcnAlias, ¬ Kept rows entry.1) :
    ∃ message, buildCssBlock toHsl rows (buildBuckets rows) = .error message := by
  have haliases : ∃ e, roleToShadcnAlias.mapM (aliasLine (buildBuckets rows)) = .error e := by
    obtain ⟨entry, hentry, hnot⟩ := h
    refine mapM_error ⟨entry, hentry, ?_⟩
    rw [aliasLine, if_neg (fun hany => hnot ((walkColors_any_iff entry.1).mp hany))]
    exact ⟨_, rfl⟩
  obtain ⟨e, he⟩ := haliases
  have hroles : (rows.filter ParsedRow.isColor).mapM (roleLine toHsl)
      = .ok ((colorRows rows).map (roleText toHsl)) := mapM_roleLine toHsl rows
  rw [buildCssBlock, cssLines, hroles, he]
  exact ⟨e, rfl⟩

end Generated

section Declared
variable (toHsl : Nat → Nat → Nat → Int × Int × Int) {rows : List ParsedRow}

theorem isNameChar_roleToVar (row : ParsedRow) :
    ∀ c ∈ (roleToVar row.path).toList, CssText.isNameChar c = true := by
  intro c hc
  unfold CssText.isNameChar
  rcases mem_roleToVar row hc with halnum | rfl
  · rw [halnum]
    rfl
  · rfl

/-- A row as a declaration, if its value is whole. -/
theorem declarable_row {row : ParsedRow} (h : CssText.isWhole row.value.toList = true) :
    CssText.Declarable (roleToVar row.path).toList (cssText toHsl row.value).toList where
  named := isNameChar_roleToVar row
  custom := by
    rw [toList_roleToVar]
    exact List.prefix_append _ _
  whole := by rw [isWhole_cssText, h]
  first := (cssText_ends toHsl row).1
  last := (cssText_ends toHsl row).2

/-- An alias as a name and a value. -/
def aliasPair (entry : String × String) : List Char × List Char :=
  (("--" ++ entry.2).toList, ("var(" ++ roleToVar entry.1 ++ ")").toList)

theorem declarable_alias : ∀ entry ∈ roleToShadcnAlias,
    CssText.Declarable (aliasPair entry).1 (aliasPair entry).2 := by
  have hnamed : ∀ entry ∈ roleToShadcnAlias,
      (aliasPair entry).1.all CssText.isNameChar = true := by
    decide +kernel
  have hcustom : ∀ entry ∈ roleToShadcnAlias, ['-', '-'] <+: (aliasPair entry).1 := by
    decide +kernel
  have hwhole : ∀ entry ∈ roleToShadcnAlias, CssText.isWhole (aliasPair entry).2 = true := by
    decide +kernel
  have hfirst : ∀ entry ∈ roleToShadcnAlias,
      (aliasPair entry).2.head?.all (fun c => !CssText.isBlank c) = true := by
    decide +kernel
  have hlast : ∀ entry ∈ roleToShadcnAlias,
      (aliasPair entry).2.getLast?.all (fun c => !CssText.isBlank c) = true := by
    decide +kernel
  intro entry hentry
  exact ⟨List.all_eq_true.mp (hnamed entry hentry), hcustom entry hentry, hwhole entry hentry,
    (all_not_iff _ _).mp (hfirst entry hentry), (all_not_iff _ _).mp (hlast entry hentry)⟩

def rowPair (row : ParsedRow) : List Char × List Char :=
  ((roleToVar row.path).toList, (cssText toHsl row.value).toList)

/-- What stands before a declaration in the block. -/
def leader : List Char := ['\n', ' ', ' ']

theorem toList_joinLines (line : String) (lines : List String) :
    (joinLines (line :: lines)).toList =
      line.toList ++ lines.flatMap (fun l => '\n' :: l.toList) := by
  rw [joinLines, String.toList_ofList, List.map_cons]
  induction lines generalizing line with
  | nil => rw [List.map_nil, List.intercalate_singleton, List.flatMap_nil, List.append_nil]
  | cons next lines ih =>
      rw [List.map_cons, List.intercalate_cons_cons, ih, List.flatMap_cons, List.append_assoc]
      rfl

theorem radiusLine_of_colors (h : ∀ row ∈ rows, row.isColor = true) :
    radiusLine (buildBuckets rows) = [] := by
  rw [buildBuckets_of_colors h]
  rfl

/-- The block as a text. -/
theorem toList_block (h : ∀ row ∈ rows, row.isColor = true) :
    (joinLines (blockLines toHsl rows)).toList = ":root \x7b".toList ++
      (((colorRows rows).map (rowPair toHsl)).flatMap (CssText.lineOf leader) ++
        ("\n\n  /* shadcn aliases */".toList ++
          ((roleToShadcnAlias.map aliasPair).flatMap (CssText.lineOf leader) ++
            "\n\x7d".toList))) := by
  have hrow : ∀ row, '\n' :: (roleText toHsl row).toList =
      CssText.lineOf leader (rowPair toHsl row) := by
    intro row
    simp [roleText, CssText.lineOf, leader, rowPair]
  have halias : ∀ entry, '\n' :: (aliasText entry).toList =
      CssText.lineOf leader (aliasPair entry) := by
    intro entry
    simp [aliasText, CssText.lineOf, leader, aliasPair]
  rw [blockLines, radiusLine_of_colors h, List.cons_append, List.cons_append, List.cons_append,
    List.cons_append, toList_joinLines, List.append_nil, List.flatMap_append, List.flatMap_append,
    List.flatMap_append, List.flatMap_map, List.flatMap_map, List.flatMap_map, List.flatMap_map,
    List.append_assoc, List.append_assoc]
  simp only [hrow, halias]
  rfl

theorem ruleBody_root (rest : List Char) : CssText.ruleBody (":root \x7b".toList ++ rest) = rest :=
  rfl

/-- What the block declares, if all values are whole. -/
theorem declarations_block (h : ∀ row ∈ rows, row.isColor = true)
    (hwhole : ∀ row ∈ colorRows rows, CssText.isWhole row.value.toList = true) :
    CssText.declarations ((joinLines (blockLines toHsl rows)).toList.length + 1)
        (CssText.ruleBody (joinLines (blockLines toHsl rows)).toList) =
      ((colorRows rows).map (rowPair toHsl) ++ roleToShadcnAlias.map aliasPair).map
        (fun d => ⟨d.1, d.2, false⟩) := by
  have hlead : ∀ c ∈ leader, CssText.isBlank c = true :=
    List.forall_iff_forall_mem.mp (by decide)
  have hrows : ∀ d ∈ (colorRows rows).map (rowPair toHsl), CssText.Declarable d.1 d.2 := by
    intro d hd
    obtain ⟨row, hrow, rfl⟩ := List.mem_map.mp hd
    exact declarable_row toHsl (hwhole row hrow)
  have haliases : ∀ d ∈ roleToShadcnAlias.map aliasPair, CssText.Declarable d.1 d.2 := by
    intro d hd
    obtain ⟨entry, hentry, rfl⟩ := List.mem_map.mp hd
    exact declarable_alias entry hentry
  rw [toList_block toHsl h, ruleBody_root]
  -- The rows come first, then a comment, the aliases, and the end of the rule.
  obtain ⟨fuel, hfuel, hread⟩ := CssText.declarations_lines hlead hrows
    (Nat.lt_succ_of_le (List.length_append ▸ Nat.le_add_left _ _))
  rw [List.length_append] at hfuel
  have hcomment : ∀ text, CssText.skip ("\n\n  /* shadcn aliases */".toList ++ text) =
      CssText.skip text := fun _ => rfl
  obtain ⟨fuel', hfuel', hread'⟩ := CssText.declarations_lines hlead haliases
    (lt_of_le_of_lt (Nat.le_add_left _ _) hfuel)
  obtain ⟨n, rfl⟩ := Nat.exists_eq_succ_of_ne_zero (Nat.ne_of_gt (Nat.zero_lt_of_lt hfuel'))
  have hend : CssText.declarations (n + 1) "\n\x7d".toList = [] := rfl
  rw [hread, CssText.declarations_of_skip (hcomment _), hread', hend, List.append_nil,
    List.map_append]

def hasVar (name : String) (row : ParsedRow) : Bool := roleToVar row.path = name

theorem hasVar_iff {name : String} {row : ParsedRow} :
    hasVar name row = true ↔ roleToVar row.path = name := decide_eq_true_iff

/-- The rows whose path comes to the same variable. -/
def sharing (rows : List ParsedRow) (row : ParsedRow) : List ParsedRow :=
  (colorRows rows).filter (hasVar (roleToVar row.path))

/-- The block declares for the variable of a row what the rows that share it have. -/
theorem declared_block (h : ∀ row ∈ rows, row.isColor = true)
    (hwhole : ∀ row ∈ colorRows rows, CssText.isWhole row.value.toList = true) {row : ParsedRow}
    (hcolor : row.isColor = true) :
    CssText.declared (joinLines (blockLines toHsl rows)).toList (roleToVar row.path).toList =
      (sharing rows row).map (fun r => ((cssText toHsl r.value).toList, false)) := by
  have haliases : (roleToShadcnAlias.map aliasPair).filter
      (fun d => d.1 == (roleToVar row.path).toList) = [] := by
    rw [List.filter_eq_nil_iff]
    intro d hd hname
    obtain ⟨entry, hentry, rfl⟩ := List.mem_map.mp hd
    refine roleToVar_ne_other hcolor (List.mem_cons_of_mem _ (List.mem_map_of_mem hentry))
      (String.toList_inj.mp ?_)
    exact (beq_iff_eq.mp hname).symm
  have hshare : ∀ r : ParsedRow, ((rowPair toHsl r).1 == (roleToVar row.path).toList) =
      hasVar (roleToVar row.path) r := by
    intro r
    rw [Bool.eq_iff_iff, beq_iff_eq, hasVar_iff]
    exact String.toList_inj
  rw [CssText.declared, declarations_block toHsl h hwhole, List.filter_map, List.map_map]
  have hfilter : ((colorRows rows).map (rowPair toHsl) ++ roleToShadcnAlias.map aliasPair).filter
      (fun d => d.1 == (roleToVar row.path).toList) = (sharing rows row).map (rowPair toHsl) := by
    rw [List.filter_append, haliases, List.append_nil, List.filter_map, sharing]
    congr 1
    exact List.filter_congr (fun r _ => hshare r)
  have hsame := congrArg (List.map (fun d : List Char × List Char => (d.2, false))) hfilter
  rw [List.map_map] at hsame
  exact hsame

end Declared

section Survival
variable (toHsl : Nat → Nat → Nat → Int × Int × Int) {rows : List ParsedRow}

/-- Each row of the colours is at its path in the module, and its variable is declared
    once in the block, with its value. -/
structure Survives (rows : List ParsedRow) (tokensTs block : String) : Prop where
  found : ∀ row ∈ colorRows rows, tokenAt tokensTs (segments row.path) = some row.value.toList
  declared : ∀ row ∈ colorRows rows, ∃ css, cssValue toHsl row.value = .ok css ∧
    CssText.declared block.toList (roleToVar row.path).toList = [(css.toList, false)]

/-- No path of a colour begins with another one, no two come to one variable, and every
    value is complete by itself. -/
structure Apart (rows : List ParsedRow) : Prop where
  paths : (colorRows rows).Pairwise
    (fun r s => ¬ Nest.Meets (segments r.path) (segments s.path))
  vars : (colorRows rows).Pairwise (fun r s => roleToVar r.path ≠ roleToVar s.path)
  whole : ∀ row ∈ colorRows rows, CssText.isWhole row.value.toList = true

theorem found_iff (hdistinct : ((colorRows rows).map ParsedRow.path).Nodup) :
    (∀ row ∈ colorRows rows,
      Nest.find (buildBuckets rows).colors (segments row.path) = some row.value) ↔
    (colorRows rows).Pairwise (fun r s => ¬ Nest.Meets (segments r.path) (segments s.path)) := by
  have hnodup : (((colorRows rows).map ParsedRow.entry).map Prod.fst).Nodup := by
    have hmap : ((colorRows rows).map ParsedRow.entry).map Prod.fst
        = ((colorRows rows).map ParsedRow.path).map segments := by
      rw [List.map_map, List.map_map]
      rfl
    rw [hmap]
    exact hdistinct.map (fun _ _ h => segments_injective h)
  have hall := Nest.find_build_all_iff entry_ne_nil hnodup
  rw [List.forall_mem_map, List.pairwise_map, ← colors_buildBuckets] at hall
  exact hall

/-- Where each row has its variable for itself the rows have different ones. -/
theorem alone_iff :
    (∀ row ∈ colorRows rows,
      (sharing rows row).map (fun r => ((cssText toHsl r.value).toList, false)) =
        [((cssText toHsl row.value).toList, false)]) ↔
    (colorRows rows).Pairwise (fun r s => roleToVar r.path ≠ roleToVar s.path) := by
  constructor
  · intro h
    rw [List.pairwise_iff_forall_sublist]
    intro r s hsub hsame
    have hone := congrArg List.length (h r (hsub.subset List.mem_cons_self))
    rw [List.length_map, List.length_singleton] at hone
    -- Two rows of one variable would both be found for it.
    have hpair : List.Sublist [r, s] (sharing rows r) := by
      have hfilter := hsub.filter (hasVar (roleToVar r.path))
      rw [List.filter_cons_of_pos (hasVar_iff.mpr rfl),
        List.filter_cons_of_pos (hasVar_iff.mpr hsame.symm), List.filter_nil] at hfilter
      exact hfilter
    have hle := hpair.length_le
    rw [hone, List.length_cons, List.length_singleton] at hle
    exact absurd hle (by decide)
  · intro h row hrow
    obtain ⟨before, after, hsplit⟩ := List.append_of_mem hrow
    rw [hsplit, List.pairwise_append, List.pairwise_cons] at h
    obtain ⟨-, ⟨hafter, -⟩, hbefore⟩ := h
    -- Neither before the row nor after it is another one of its variable.
    have hleft : before.filter (hasVar (roleToVar row.path)) = [] := by
      rw [List.filter_eq_nil_iff]
      exact fun r hr hvar => hbefore r hr row List.mem_cons_self (hasVar_iff.mp hvar)
    have hright : after.filter (hasVar (roleToVar row.path)) = [] := by
      rw [List.filter_eq_nil_iff]
      exact fun r hr hvar => hafter r hr (hasVar_iff.mp hvar).symm
    rw [sharing, hsplit, List.filter_append, List.filter_cons_of_pos (hasVar_iff.mpr rfl), hleft,
      hright]
    rfl

/-- A value that is found in the block is whole. -/
theorem Survives.whole {tokensTs block : String} (h : Survives toHsl rows tokensTs block) :
    ∀ row ∈ colorRows rows, CssText.isWhole row.value.toList = true := by
  intro row hrow
  obtain ⟨css, hcss, hone⟩ := h.declared row hrow
  rw [cssValue_eq, Except.ok.injEq] at hcss
  have hmem : (css.toList, false) ∈
      CssText.declared block.toList (roleToVar row.path).toList := by
    rw [hone]
    exact List.mem_cons_self
  rw [← isWhole_cssText toHsl, hcss]
  exact CssText.whole_of_mem_declared hmem

/-- The rows survive in what is generated just if they are apart. -/
theorem survives_iff (h : ∀ row ∈ rows, row.isColor = true)
    (hdistinct : ((colorRows rows).map ParsedRow.path).Nodup) :
    Survives toHsl rows (buildTokensTs (buildBuckets rows))
        (joinLines (blockLines toHsl rows)) ↔ Apart rows := by
  have hfound : (∀ row ∈ colorRows rows,
      tokenAt (buildTokensTs (buildBuckets rows)) (segments row.path) = some row.value.toList) ↔
      (colorRows rows).Pairwise (fun r s => ¬ Nest.Meets (segments r.path) (segments s.path)) := by
    rw [← found_iff hdistinct]
    simp only [tokenAt_colors h]
  constructor
  · intro hsurvives
    have hwhole := hsurvives.whole
    refine ⟨hfound.mp hsurvives.found, (alone_iff toHsl).mp (fun row hrow => ?_), hwhole⟩
    obtain ⟨css, hcss, hone⟩ := hsurvives.declared row hrow
    rw [cssValue_eq, Except.ok.injEq] at hcss
    rw [← declared_block toHsl h hwhole (List.mem_filter.mp hrow).2, hone, hcss]
  · rintro ⟨hpaths, hvars, hwhole⟩
    refine ⟨hfound.mpr hpaths, fun row hrow => ?_⟩
    refine ⟨cssText toHsl row.value, cssValue_eq toHsl row.value, ?_⟩
    rw [declared_block toHsl h hwhole (List.mem_filter.mp hrow).2]
    exact (alone_iff toHsl).mpr hvars row hrow

/-- Where the aliases have their roles, and a row is not found, it does not survive. -/
theorem not_survives (h : ∀ row ∈ rows, row.isColor = true)
    (hroles : ∀ entry ∈ roleToShadcnAlias,
      (Nest.find (buildBuckets rows).colors (segments entry.1)).isSome = true)
    (hlost : ¬ ∀ row ∈ colorRows rows,
      Nest.find (buildBuckets rows).colors (segments row.path) = some row.value) :
    ¬ ∀ block, buildCssBlock toHsl rows (buildBuckets rows) = .ok block →
      Survives toHsl rows (buildTokensTs (buildBuckets rows)) block := by
  intro hall
  have hkept : ∀ entry ∈ roleToShadcnAlias, Kept rows entry.1 :=
    fun entry hentry => (kept_iff entry.1).mpr (Option.isSome_iff_exists.mp (hroles entry hentry))
  have hfound := (hall _ (buildCssBlock_of_kept toHsl hkept)).found
  simp only [tokenAt_colors h] at hfound
  exact hlost hfound

/-- A stylesheet with its markers has the block between them, and keeps it. -/
theorem assembleGlobalsCss_of_marked (globalsCssPath : String) {currentCss block : String}
    {pre mid post : List Char}
    (h : Marked tokensMarkerStart.toList tokensMarkerEnd.toList currentCss.toList pre mid post)
    (hstart : ¬ tokensMarkerStart.toList <:+: block.toList)
    (hend : ¬ tokensMarkerEnd.toList <:+: block.toList) :
    ∃ css, assembleGlobalsCss globalsCssPath currentCss block = .ok css ∧
      css.toList = pre ++ tokensMarkerStart.toList ++ ('\n' :: block.toList ++ ['\n']) ++
        tokensMarkerEnd.toList ++ post ∧
      assembleGlobalsCss globalsCssPath css block = .ok css := by
  have hagain := marked_splice h (c := '\n') (by decide) (by decide) (by decide) (by decide)
    hstart hend
  refine ⟨_, ?_, String.toList_ofList, ?_⟩
  · rw [assembleGlobalsCss, splice_of_marked h]
  · rw [assembleGlobalsCss, String.toList_ofList, splice_of_marked hagain]

end Survival

/-- For colours with different paths: where the block is generated every row survives
    in the module and in the block, just if a role with an alias is not kept, so that
    nothing is generated, or the rows are apart. And a stylesheet with one start
    marker before one end marker keeps all that is outside, and does not change when
    it is assembled again. -/
theorem tokens_survive_iff (toHsl : Nat → Nat → Nat → Int × Int × Int) (globalsCssPath : String) :
    (∀ rows : List ParsedRow, (∀ row ∈ rows, row.isColor = true) →
      (rows.map ParsedRow.path).Nodup →
      ((∀ block, buildCssBlock toHsl rows (buildBuckets rows) = .ok block →
          Survives toHsl rows (buildTokensTs (buildBuckets rows)) block) ↔
        (∃ entry ∈ roleToShadcnAlias, ¬ Kept rows entry.1) ∨ Apart rows)) ∧
    (∀ (currentCss block : String) (pre mid post : List Char),
      Marked tokensMarkerStart.toList tokensMarkerEnd.toList currentCss.toList pre mid post →
      ¬ tokensMarkerStart.toList <:+: block.toList →
      ¬ tokensMarkerEnd.toList <:+: block.toList →
      ∃ css, assembleGlobalsCss globalsCssPath currentCss block = .ok css ∧
        css.toList = pre ++ tokensMarkerStart.toList ++ ('\n' :: block.toList ++ ['\n']) ++
          tokensMarkerEnd.toList ++ post ∧
        assembleGlobalsCss globalsCssPath css block = .ok css) := by
  refine ⟨fun rows hcolors hnodup => ?_, fun currentCss block pre mid post =>
    assembleGlobalsCss_of_marked globalsCssPath⟩
  have hdistinct : ((colorRows rows).map ParsedRow.path).Nodup := by
    rwa [colorRows, List.filter_eq_self.mpr hcolors]
  by_cases hkept : ∀ entry ∈ roleToShadcnAlias, Kept rows entry.1
  · -- With every alias kept the block is generated, and the rows decide.
    have hblock := buildCssBlock_of_kept toHsl hkept
    have hiff := survives_iff toHsl hcolors hdistinct
    constructor
    · intro h
      exact Or.inr (hiff.mp (h _ hblock))
    · rintro (⟨entry, hentry, hnot⟩ | hapart)
      · exact absurd (hkept entry hentry) hnot
      · intro block hok
        rw [hblock, Except.ok.injEq] at hok
        rw [← hok]
        exact hiff.mpr hapart
  · -- Without one of them nothing is generated.
    have hmissing : ∃ entry ∈ roleToShadcnAlias, ¬ Kept rows entry.1 := by
      by_contra hnone
      exact hkept (fun entry hentry => by_contra (fun hnot => hnone ⟨entry, hentry, hnot⟩))
    obtain ⟨message, herror⟩ := buildCssBlock_error toHsl hmissing
    refine ⟨fun _ => Or.inl hmissing, fun _ block hok => ?_⟩
    rw [herror] at hok
    cases hok

section Sample

/-- A table with two colours. -/
def smallTable : String :=
  "| `surface.base` | `#FFFFFF` | canvas |\n| `overlay.scrim` | `rgba(17, 17, 17, 0.45)` |"

/-- A row that is not read from a table. -/
def rowOf (e : String × String) : Option ParsedRow :=
  if h : isTokenPath e.1 = true ∧ Trimmed e.2.toList then some ⟨e.1, e.2, none, h.1, h.2⟩ else none

/-- The roles with an alias, and a shade of one of them before it. -/
def shadedRows : List ParsedRow :=
  [("surface.base.dim", "#EEEEEE"), ("surface.base", "#FFFFFF"), ("surface.muted", "#F4F4F5"),
    ("content.primary", "#111111"), ("content.inverted", "#FFFFFF"),
    ("content.muted", "#8A8A93"), ("brand.primary", "#E8573C"),
    ("brand.primary-subtle", "#FDECE6"), ("status.danger", "#B42318"),
    ("border.default", "#E3E3E6"), ("focus.ring", "#E8573C")].filterMap rowOf

/-- The hue of white, for all colours. -/
def whiteHsl (_ _ _ : Nat) : Int × Int × Int := (0, 0, 100)

/-- A stylesheet with an empty block. -/
def smallCss : String :=
  "@tailwind base;\n" ++ tokensMarkerStart ++ "\n" ++ tokensMarkerEnd ++ "\nbody \x7b\x7d\n"

end Sample

theorem marked_smallCss : Marked tokensMarkerStart.toList tokensMarkerEnd.toList smallCss.toList
    "@tailwind base;\n".toList ['\n'] "\nbody \x7b\x7d\n".toList :=
  marked_of_places (by decide +kernel) (by decide +kernel) (by decide +kernel)

theorem tokens_survive_iff_small :
    ((∀ block, buildCssBlock whiteHsl (parseTokenRows smallTable)
          (buildBuckets (parseTokenRows smallTable)) = .ok block →
        Survives whiteHsl (parseTokenRows smallTable)
          (buildTokensTs (buildBuckets (parseTokenRows smallTable))) block) ↔
      (∃ entry ∈ roleToShadcnAlias, ¬ Kept (parseTokenRows smallTable) entry.1) ∨
        Apart (parseTokenRows smallTable)) ∧
    ∃ css, assembleGlobalsCss "globals.css" smallCss ":root" = .ok css ∧
      assembleGlobalsCss "globals.css" css ":root" = .ok css := by
  obtain ⟨hrows, hcss⟩ := tokens_survive_iff whiteHsl "globals.css"
  obtain ⟨css, hok, -, hagain⟩ := hcss smallCss ":root" _ _ _ marked_smallCss (by decide)
    (by decide)
  exact ⟨hrows (parseTokenRows smallTable) (by decide +kernel) (by decide +kernel), css, hok,
    hagain⟩

/-- The shade is lost, and the block is generated. -/
theorem shade_lost :
    ¬ ∀ block, buildCssBlock whiteHsl shadedRows (buildBuckets shadedRows) = .ok block →
        Survives whiteHsl shadedRows (buildTokensTs (buildBuckets shadedRows)) block :=
  not_survives whiteHsl (by decide +kernel) (by decide +kernel) (by decide +kernel)

end TechScreen.Frontend
