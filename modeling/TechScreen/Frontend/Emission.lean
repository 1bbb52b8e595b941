import TechScreen.Frontend.Tokens

/-!
# The Emitted Module

The module of the tokens, read back as the language reads it: the constant that it
exports is the literal that was written, so that a colour is found at its path in the
module just if it is in the tree.

## Main definitions

* `tokenAt`: The text at a path of the colours that a module exports.

## Theorems

* `scanValue_serializeJsLike`: A literal that was written is read back.
* `exported_buildTokensTs`: What the module exports.
* `tokenAt_buildTokensTs`: Where a colour is found.
-/

namespace TechScreen.Frontend

open Lib
open JsLiteral (Literal proto scanValue scanItems scanMembers writeKey)

section RoundTrip
variable {indent rest : List Char}

/-- An indentation. -/
def IsIndent (indent : List Char) : Prop := ∀ c ∈ indent, JsonText.isWhitespace c = true

theorem IsIndent.deeper (h : IsIndent indent) : IsIndent (indent ++ [' ', ' ']) := by
  intro c hc
  rcases List.mem_append.mp hc with hc | hc
  · exact h c hc
  · simp only [List.mem_cons, List.not_mem_nil, or_false, or_self] at hc
    rw [hc]
    rfl

/-- The text of a literal starts with none of what may follow an item. -/
theorem serializeJsLike_head (indent : List Char) (value : Literal) (rest : List Char) :
    JsonText.skip (serializeJsLike indent value ++ rest) = serializeJsLike indent value ++ rest ∧
      (serializeJsLike indent value ++ rest).head? ≠ some ']' := by
  have hne : '"' ≠ ']' ∧ '[' ≠ ']' ∧ '\x7b' ≠ ']' := by decide
  cases value with
  | str s => exact ⟨rfl, fun h => hne.1 (Option.some.inj h)⟩
  | arr items => exact ⟨rfl, fun h => hne.2.1 (Option.some.inj h)⟩
  | obj members =>
      cases members with
      | nil => exact ⟨rfl, fun h => hne.2.2 (Option.some.inj h)⟩
      | cons m members => exact ⟨rfl, fun h => hne.2.2 (Option.some.inj h)⟩

/-- The lines of an object, each with its line break and its comma. -/
def memberLines (lines : List (List Char)) : List Char :=
  lines.flatMap (fun line => '\n' :: line ++ [','])

theorem memberLines_cons (line : List Char) (lines : List (List Char)) :
    memberLines (line :: lines) = '\n' :: line ++ ',' :: memberLines lines := by
  rw [memberLines, List.flatMap_cons, memberLines, List.append_assoc, List.singleton_append]

theorem intercalate_lines (line : List Char) (lines : List (List Char)) (tail : List Char) :
    '\n' :: [',', '\n'].intercalate (line :: lines) ++ ',' :: tail =
      memberLines (line :: lines) ++ tail := by
  induction lines generalizing line with
  | nil =>
      rw [List.intercalate_singleton, memberLines_cons, List.append_assoc]
      rfl
  | cons next lines ih =>
      have hline : memberLines (line :: next :: lines) ++ tail =
          '\n' :: line ++ ',' :: (memberLines (next :: lines) ++ tail) := by
        rw [memberLines_cons, List.append_assoc]
        rfl
      rw [hline, ← ih next, List.intercalate_cons_cons]
      simp

mutual

/-- A literal that was written is read back. -/
theorem scanValue_serializeJsLike : ∀ (value : Literal) {indent : List Char} (fuel : Nat)
    (rest : List Char), (∀ key ∈ value.keys, key ≠ proto) → IsIndent indent →
      (serializeJsLike indent value).length < fuel →
      scanValue fuel (serializeJsLike indent value ++ rest) = some (value, rest)
  | .str s, indent, fuel + 1, rest, _, _, _ => JsLiteral.scanValue_str fuel s rest
  | .arr items, indent, fuel + 1, rest, hkeys, hindent, hfuel => by
      rw [serializeJsLike, List.length_append, List.length_cons, List.length_singleton] at hfuel
      -- The items stand one level deeper.
      have hitems := scanItems_serializeItems items fuel rest hkeys hindent.deeper (by omega)
      rw [serializeJsLike, List.append_assoc, List.cons_append, JsLiteral.scanValue_arr,
        List.singleton_append, hitems]
      rfl
  | .obj [], indent, fuel + 1, rest, _, _, hfuel => by
      rw [serializeJsLike, List.length_cons, List.length_singleton] at hfuel
      obtain ⟨fuel, rfl⟩ : ∃ n, fuel = n + 1 := ⟨fuel - 1, by omega⟩
      rfl
  | .obj ((key, value) :: members), indent, fuel + 1, rest, hkeys, hindent, hfuel => by
      -- An object is a brace, a line for each member, and a brace on a line of its own.
      have htext : ∀ tail, serializeJsLike indent (.obj ((key, value) :: members)) ++ tail =
          '\x7b' :: (memberLines (serializeMembers indent ((key, value) :: members)) ++
            ('\n' :: indent ++ '\x7d' :: tail)) := by
        intro tail
        rw [serializeMembers, ← intercalate_lines, serializeJsLike, serializeMembers]
        · simp
        · exact fun h => List.cons_ne_nil _ _ h
      have hlength := congrArg List.length (htext [])
      rw [List.append_nil, List.length_cons, List.length_append, List.length_append,
        List.length_cons, List.length_singleton] at hlength
      have hmembers := scanMembers_serializeMembers ((key, value) :: members) fuel rest hkeys
        hindent (by omega)
      rw [htext, JsLiteral.scanValue_obj, hmembers]
      rfl

theorem scanItems_serializeItems : ∀ (items : List Literal) {indent : List Char} (fuel : Nat)
    (rest : List Char), (∀ key ∈ JsLiteral.itemKeys items, key ≠ proto) → IsIndent indent →
      (JsonText.commas (serializeItems indent items)).length + 1 < fuel →
      scanItems fuel (JsonText.commas (serializeItems indent items) ++ ']' :: rest) =
        some (items, rest)
  | [], indent, fuel + 1, rest, _, _, _ => rfl
  | [item], indent, fuel + 1, rest, hkeys, hindent, hfuel => by
      rw [JsLiteral.itemKeys, JsLiteral.itemKeys, List.append_nil] at hkeys
      rw [serializeItems, serializeItems, JsonText.commas_singleton] at hfuel ⊢
      have hitem := scanValue_serializeJsLike item fuel (']' :: rest) hkeys hindent (by omega)
      exact JsLiteral.scanItems_last (serializeJsLike_head indent item _).1
        (serializeJsLike_head indent item _).2 hitem
  | item :: next :: items, indent, fuel + 1, rest, hkeys, hindent, hfuel => by
      rw [JsLiteral.itemKeys] at hkeys
      rw [serializeItems, serializeItems, JsonText.commas_cons_cons, ← serializeItems] at hfuel ⊢
      rw [List.length_append, List.length_cons, List.length_cons] at hfuel
      have hitem := scanValue_serializeJsLike item fuel
        (',' :: ' ' :: (JsonText.commas (serializeItems indent (next :: items)) ++ ']' :: rest))
        (fun key hkey => hkeys key (List.mem_append_left _ hkey)) hindent (by omega)
      have hitems := scanItems_serializeItems (next :: items) fuel rest
        (fun key hkey => hkeys key (List.mem_append_right _ hkey)) hindent (by omega)
      rw [List.append_assoc, List.cons_append, List.cons_append,
        JsLiteral.scanItems_cons (serializeJsLike_head indent item _).1
          (serializeJsLike_head indent item _).2 hitem, JsLiteral.scanItems_blank, hitems]
      rfl

theorem scanMembers_serializeMembers : ∀ (members : List (List Char × Literal))
    {indent : List Char} (fuel : Nat) (rest : List Char),
    (∀ key ∈ JsLiteral.memberKeys members, key ≠ proto) → IsIndent indent →
      (memberLines (serializeMembers indent members)).length + 1 < fuel →
      scanMembers fuel (memberLines (serializeMembers indent members) ++
        ('\n' :: indent ++ '\x7d' :: rest)) = some (members, rest)
  | [], indent, fuel + 1, rest, _, hindent, _ =>
      JsLiteral.scanMembers_close (List.forall_mem_cons.mpr ⟨rfl, hindent⟩) fuel rest
  | (key, value) :: members, indent, fuel + 1, rest, hkeys, hindent, hfuel => by
      rw [JsLiteral.memberKeys] at hkeys
      -- One member: its indent, its key, its value and a comma.
      have hline : memberLines (serializeMembers indent ((key, value) :: members)) ++
          ('\n' :: indent ++ '\x7d' :: rest) =
          ('\n' :: (indent ++ [' ', ' '])) ++ writeKey key ++ ':' :: (' ' ::
            (serializeJsLike (indent ++ [' ', ' ']) value ++ ',' ::
              (memberLines (serializeMembers indent members) ++
                ('\n' :: indent ++ '\x7d' :: rest)))) := by
        rw [serializeMembers, memberLines_cons]
        simp
      -- The rest is shorter, so the fuel lasts.
      have hlength : (serializeJsLike (indent ++ [' ', ' ']) value).length +
          (memberLines (serializeMembers indent members)).length + 2 ≤
          (memberLines (serializeMembers indent ((key, value) :: members))).length := by
        rw [serializeMembers, memberLines_cons]
        simp only [List.length_append, List.length_cons]
        omega
      have hvalue := scanValue_serializeJsLike value fuel (',' ::
        (memberLines (serializeMembers indent members) ++ ('\n' :: indent ++ '\x7d' :: rest)))
        (fun k hk => hkeys k (List.mem_cons_of_mem _ (List.mem_append_left _ hk)))
        hindent.deeper (by omega)
      rw [← JsLiteral.scanValue_blank] at hvalue
      have hmembers := scanMembers_serializeMembers members fuel rest
        (fun k hk => hkeys k (List.mem_cons_of_mem _ (List.mem_append_right _ hk))) hindent
        (by omega)
      rw [hline, JsLiteral.scanMembers_cons (List.forall_mem_cons.mpr ⟨rfl, hindent.deeper⟩)
        (hkeys key List.mem_cons_self) hvalue, hmembers]
      rfl

end

end RoundTrip

section Module

/-- What the module of the tokens exports, unless a key sets no property. -/
theorem exported_buildTokensTs {buckets : Buckets}
    (hkeys : ∀ key ∈ buckets.literal.keys, key ≠ proto) :
    JsLiteral.exported "tokens".toList (buildTokensTs buckets).toList = some buckets.literal := by
  have htext : (buildTokensTs buckets).toList = tokensHeader.toList ++
      ("export const tokens = ".toList ++ (serializeJsLike [] buckets.literal ++
        " as const;\nexport type Tokens = typeof tokens;\n".toList)) := by
    rw [buildTokensTs, String.toList_ofList, List.append_assoc, List.append_assoc]
  have hfuel : (serializeJsLike [] buckets.literal).length <
      (buildTokensTs buckets).toList.length + 1 := by
    rw [htext]
    simp only [List.length_append]
    omega
  refine JsLiteral.exported_eq ?_ (scanValue_serializeJsLike buckets.literal _
    " as const;\nexport type Tokens = typeof tokens;\n".toList hkeys
    (fun c hc => absurd hc List.not_mem_nil) hfuel)
  rw [htext]
  rfl

theorem membersOf_eq (es : List (String × Nest String String)) :
    membersOf es = es.map (fun e => (e.1.toList, literalOf e.2)) := by
  induction es with
  | nil => rfl
  | cons e es ih => rw [membersOf, ih, List.map_cons]

/-- The properties of a dictionary are its entries. -/
theorem member_membersOf {es : List (String × Nest String String)}
    (h : (es.map Prod.fst).Nodup) (key : String) :
    (Literal.obj (membersOf es)).member key.toList = (es.lookup key).map literalOf := by
  have hkeys : (membersOf es).map Prod.fst = (es.map Prod.fst).map String.toList := by
    rw [membersOf_eq, List.map_map, List.map_map]
    rfl
  have hnodup : ((membersOf es).map Prod.fst).Nodup := by
    rw [hkeys]
    exact h.map (fun _ _ heq => String.toList_inj.mp heq)
  refine Option.ext (fun value => ?_)
  rw [JsLiteral.member_eq_some_iff hnodup, Option.map_eq_some_iff, membersOf_eq, List.mem_map]
  constructor
  · rintro ⟨e, he, heq⟩
    obtain ⟨hkey, rfl⟩ := Prod.mk.inj heq
    rw [← String.toList_inj.mp hkey]
    exact ⟨e.2, (Dict.lookup_eq_some_iff_of_nodup h e.1 e.2).mpr he, rfl⟩
  · rintro ⟨t, hlookup, rfl⟩
    exact ⟨(key, t), (Dict.lookup_eq_some_iff_of_nodup h key t).mp hlookup, rfl⟩

/-- The texts of a literal are the values of the tree. -/
theorem textAt_membersOf {es : List (String × Nest String String)} (h : Nest.Tidy es)
    (p : List String) : (Literal.obj (membersOf es)).textAt (p.map String.toList) =
      (Nest.find es p).map String.toList := by
  induction p generalizing es with
  | nil => rfl
  | cons key p ih =>
      rw [List.map_cons, Literal.textAt, member_membersOf h.nodup]
      cases hlookup : es.lookup key with
      | none =>
          cases p with
          | nil => simp [Nest.find, hlookup]
          | cons j p => simp [Nest.find, Nest.under, hlookup]
      | some t =>
          cases t with
          | leaf value =>
              cases p with
              | nil => simp [Nest.find, hlookup, literalOf, Literal.textAt]
              | cons j p => simp [Nest.find, Nest.under, hlookup, literalOf, Literal.textAt,
                  Literal.member]
          | node sub =>
              have hsub : Nest.Tidy sub :=
                h.sub ((Dict.lookup_eq_some_iff_of_nodup h.nodup key _).mp hlookup)
              have hrest := ih hsub
              cases p with
              | nil => simp [Nest.find, hlookup, literalOf, Literal.textAt]
              | cons j p =>
                  simp only [Nest.find, Nest.under, hlookup, Option.map_some, literalOf]
                  exact hrest

/-- The text at a path of the colours that a module exports. -/
def tokenAt (tokensTs : String) (path : List String) : Option (List Char) :=
  (JsLiteral.exported "tokens".toList tokensTs.toList).bind (fun tokens =>
    tokens.textAt ("colors".toList :: path.map String.toList))

/-- Where a colour is found in the module. -/
theorem tokenAt_buildTokensTs {buckets : Buckets}
    (hkeys : ∀ key ∈ buckets.literal.keys, key ≠ proto) (htidy : Nest.Tidy buckets.colors)
    (path : List String) : tokenAt (buildTokensTs buckets) path =
      (Nest.find buckets.colors path).map String.toList := by
  have horder : ∀ es : List (String × Nest String String), (objectEntries es).Perm es :=
    objectEntries_perm
  rw [tokenAt, exported_buildTokensTs hkeys, Option.bind_some, Buckets.literal, Literal.textAt,
    ← Nest.find_arrange horder htidy, ← textAt_membersOf (htidy.arrange horder)]
  rfl

/-- The keys of a literal that is made of a tree. -/
theorem mem_memberKeys {members : List (List Char × Literal)} {key : List Char} :
    key ∈ JsLiteral.memberKeys members ↔ ∃ m ∈ members, key = m.1 ∨ key ∈ m.2.keys := by
  induction members with
  | nil => simp [JsLiteral.memberKeys]
  | cons m members ih =>
      rw [JsLiteral.memberKeys, List.cons_append, List.mem_cons, List.mem_append, ih,
        List.exists_mem_cons_iff, or_assoc]

theorem keys_membersOf {P : String → Prop} {es : List (String × Nest String String)}
    (h : Nest.Keyed P es) : ∀ key ∈ JsLiteral.memberKeys (membersOf es),
      ∃ k, P k ∧ key = k.toList := by
  induction h with
  | mk es hkeys hunder ih =>
      intro key hkey
      obtain ⟨m, hm, hkey⟩ := mem_memberKeys.mp hkey
      rw [membersOf_eq] at hm
      obtain ⟨e, he, rfl⟩ := List.mem_map.mp hm
      rcases hkey with rfl | hkey
      · exact ⟨e.1, hkeys e he, rfl⟩
      · obtain ⟨k, t⟩ := e
        cases t with
        | leaf value => exact absurd hkey List.not_mem_nil
        | node sub => exact ih k sub he key hkey

end Module

end TechScreen.Frontend
