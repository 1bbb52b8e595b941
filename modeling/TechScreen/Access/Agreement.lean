import TechScreen.Access.Claims

/-!
# The Gate and the Verifier

When the two programs that staff sign in through treat an account alike. Both look
for the hosted domain at the end of the address, the gate after the last at sign of
the address without the whitespace around it, the verifier as a suffix of the
address as it is. The readings differ in one case only: an address of the domain
with whitespace at its end is let in by the gate, and its tokens are refused by the
verifier.

## Main definitions

* `Hosted`: The account is one that the gate lets in.
* `Carries`: A token for an account.
* `Agrees`: The gate and the verifier treat an account alike.

## Theorems

* `afterLastAt_eq_iff`: The gate's reading of a domain as a suffix.
* `suffix_lower_iff`: The verifier's reading is the gate's.
* `agrees_iff`: They agree, but for whitespace at the end of the address.
-/

namespace TechScreen.Access

open Lib

section Readings

theorem domainOf_split {pre dom : List Char} (hdom : '@' ∉ dom) :
    afterLastAt (pre ++ '@' :: dom) = dom := by
  have hall : ∀ c ∈ dom.reverse, (c != '@') = true := by
    intro c hc
    rw [bne_iff_ne]
    rintro rfl
    exact hdom (List.mem_reverse.mp hc)
  unfold afterLastAt
  rw [List.reverse_append, List.reverse_cons, List.append_assoc, List.singleton_append,
    List.takeWhile_append_of_pos hall, List.takeWhile_cons_of_neg (by decide), List.append_nil,
    List.reverse_reverse]

/-- A text with an at sign is cut at the last one. -/
theorem exists_split {s : List Char} (h : '@' ∈ s) : ∃ pre, s = pre ++ '@' :: afterLastAt s := by
  obtain ⟨us, vs, hsplit, hus⟩ := List.eq_append_cons_of_mem (List.mem_reverse.mpr h)
  have hs : s = vs.reverse ++ '@' :: us.reverse := by
    rw [← List.reverse_reverse s, hsplit, List.reverse_append, List.reverse_cons,
      List.append_assoc, List.singleton_append]
  refine ⟨vs.reverse, ?_⟩
  rw [hs, domainOf_split (fun hmem => hus (List.mem_reverse.mp hmem))]

/-- What comes after the last at sign, as a suffix. -/
theorem afterLastAt_eq_iff {s dom : List Char} (hs : '@' ∈ s) (hdom : '@' ∉ dom) :
    afterLastAt s = dom ↔ '@' :: dom <:+ s := by
  constructor
  · rintro rfl
    obtain ⟨pre, hpre⟩ := exists_split hs
    exact ⟨pre, hpre.symm⟩
  · rintro ⟨pre, rfl⟩
    exact domainOf_split hdom

/-- Nothing before an at sign matters to what comes after the last one. -/
theorem afterLastAt_append {s : List Char} (hs : '@' ∈ s) (before : List Char) :
    afterLastAt (before ++ s) = afterLastAt s := by
  obtain ⟨us, vs, hsplit, hus⟩ := List.eq_append_cons_of_mem (List.mem_reverse.mpr hs)
  have hshape : s = vs.reverse ++ '@' :: us.reverse := by
    rw [← List.reverse_reverse s, hsplit, List.reverse_append, List.reverse_cons,
      List.append_assoc, List.singleton_append]
  have hlast : '@' ∉ us.reverse := fun hmem => hus (List.mem_reverse.mp hmem)
  rw [hshape, domainOf_split hlast, ← List.append_assoc, domainOf_split hlast]

variable (tables : Casing) {email : String}

theorem at_isBreak : isBreak '@' = true := by decide

theorem isBreak_of_space {c : Char} (h : Rubric.isSpace c = true) : isBreak c = true := by
  rw [isBreak, h, Bool.or_true]

theorem toList_lower (s : String) : (tables.lower s).toList = tables.lowerFrom [] s.toList := by
  rw [CaseTables.lower, String.toList_ofList]

theorem at_mem_lower (s : String) : '@' ∈ (tables.lower s).toList ↔ '@' ∈ s.toList := by
  rw [toList_lower]
  exact tables.mem_lowerFrom_plain at_isBreak [] s.toList

/-- Without whitespace at its end an address is stripped at its beginning only. -/
theorem strip_of_not_endsInSpace (h : endsInSpace email = false) :
    ∃ spaces, (∀ c ∈ spaces, Rubric.isSpace c = true) ∧
      email.toList = spaces ++ (Rubric.strip email).toList := by
  refine ⟨email.toList.takeWhile Rubric.isSpace,
    fun c hc => List.all_eq_true.mp List.all_takeWhile c hc, ?_⟩
  have hend : (email.toList.dropWhile Rubric.isSpace).reverse.dropWhile Rubric.isSpace
      = (email.toList.dropWhile Rubric.isSpace).reverse := by
    rcases List.eq_nil_or_concat (email.toList.dropWhile Rubric.isSpace) with hnil | ⟨us, c, hlast⟩
    · rw [hnil]
      rfl
    · -- The last character of the rest is that of the address.
      have hc : Rubric.isSpace c = false := by
        have hsplit := List.takeWhile_append_dropWhile (p := Rubric.isSpace) (l := email.toList)
        rw [hlast, List.concat_eq_append, ← List.append_assoc] at hsplit
        rw [endsInSpace, ← hsplit, List.getLast?_concat] at h
        exact h
      rw [hlast, List.concat_eq_append, List.reverse_append, List.reverse_singleton,
        List.singleton_append, List.dropWhile_cons_of_neg (by rw [hc]; exact Bool.false_ne_true)]
  rw [Rubric.strip, String.toList_ofList, hend, List.reverse_reverse,
    List.takeWhile_append_dropWhile]

/-- The verifier reads an address without whitespace at its end as the gate does. -/
theorem suffix_lower_iff (hat : '@' ∈ email.toList) (hend : endsInSpace email = false)
    {dom : List Char} (hdom : '@' ∉ dom) :
    '@' :: dom <:+ (tables.lower email).toList ↔ domainOf (normalized tables email) = dom := by
  obtain ⟨spaces, hspaces, hsplit⟩ := strip_of_not_endsInSpace hend
  have hstripped : '@' ∈ (Rubric.strip email).toList := by
    rw [hsplit] at hat
    refine (List.mem_append.mp hat).resolve_left (fun hmem => ?_)
    exact absurd (hspaces '@' hmem) (by decide)
  have hlower : (tables.lower email).toList
      = spaces ++ (tables.lower (Rubric.strip email)).toList := by
    rw [toList_lower, toList_lower, hsplit]
    exact tables.lowerFrom_plain_append (fun c hc => isBreak_of_space (hspaces c hc)) _
  rw [← afterLastAt_eq_iff ((at_mem_lower tables email).mpr hat) hdom, hlower,
    afterLastAt_append ((at_mem_lower tables _).mpr hstripped)]
  exact Iff.rfl

/-- An address with whitespace at its end is of no domain, as the verifier reads it. -/
theorem not_suffix_of_endsInSpace (hend : endsInSpace email = true) {dom : List Char}
    (hne : dom ≠ []) (hlast : ∀ c, dom.getLast? = some c → Rubric.isSpace c = false) :
    ¬ '@' :: dom <:+ (tables.lower email).toList := by
  rintro ⟨pre, hpre⟩
  obtain ⟨us, b, hdom⟩ := (List.eq_nil_or_concat dom).resolve_left hne
  rcases List.eq_nil_or_concat email.toList with hnil | ⟨vs, c, hemail⟩
  · rw [endsInSpace, hnil] at hend
    cases hend
  · rw [List.concat_eq_append] at hemail hdom
    have hspace : Rubric.isSpace c = true := by
      rw [endsInSpace, hemail, List.getLast?_concat] at hend
      exact hend
    obtain ⟨u, hu⟩ := tables.lowerFrom_snoc_plain (isBreak_of_space hspace) [] vs
    rw [toList_lower, hemail, hu, hdom] at hpre
    have hsame := congrArg List.getLast? hpre
    rw [← List.cons_append, ← List.append_assoc, List.getLast?_concat, List.getLast?_concat,
      Option.some.injEq] at hsame
    have hplain := hlast b (by rw [hdom, List.getLast?_concat])
    rw [hsame, hspace] at hplain
    cases hplain

end Readings

section Loaded
variable {tables : Casing} {repr : Yaml → String} {path : String} {file : Option Yaml}
  {mapping : RoleMapping}

/-- What a mapping that has been loaded has been checked for. -/
structure RoleMapping.Valid (mapping : RoleMapping) : Prop where
  bare : '@' ∉ mapping.domain.toList
  domain_ne : mapping.domain.toList ≠ []
  last : ∀ c, mapping.domain.toList.getLast? = some c → Rubric.isSpace c = false
  staff : ∀ email role, mapping.roles.get? email = some role → role ∈ staffRoles

/-- Each role that is loaded is one of the staff. -/
theorem staff_of_loadRole {roles roles' : Dict String String} {entry : Yaml × Yaml}
    (hroles : ∀ email role, roles.get? email = some role → role ∈ staffRoles)
    (h : loadRole tables repr path roles entry = .ok roles') :
    ∀ email role, roles'.get? email = some role → role ∈ staffRoles := by
  obtain ⟨key, value⟩ := entry
  unfold loadRole at h
  cases key with
  | str address =>
      dsimp only at h
      split at h
      · cases value with
        | str name =>
            dsimp only at h
            split at h
            · next hstaff =>
                cases h
                intro email role hrole
                rw [Dict.get?_set] at hrole
                split at hrole
                · cases hrole
                  exact hstaff
                · exact hroles email role hrole
            · cases h
        | _ => cases h
      · cases h
  | _ => cases h

theorem staff_of_foldlM {entries : List (Yaml × Yaml)} {roles roles' : Dict String String}
    (hroles : ∀ email role, roles.get? email = some role → role ∈ staffRoles)
    (h : entries.foldlM (loadRole tables repr path) roles = .ok roles') :
    ∀ email role, roles'.get? email = some role → role ∈ staffRoles := by
  induction entries generalizing roles with
  | nil =>
      cases h
      exact hroles
  | cons entry entries ih =>
      rw [List.foldlM_cons] at h
      cases hone : loadRole tables repr path roles entry with
      | error e =>
          rw [hone] at h
          cases h
      | ok next =>
          rw [hone] at h
          exact ih (staff_of_loadRole hroles hone) h

/-- A text that is not whitespace has no whitespace at its end once it is stripped. -/
theorem getLast?_strip {s : String} {c : Char} (h : (Rubric.strip s).toList.getLast? = some c) :
    Rubric.isSpace c = false := by
  rw [Rubric.strip, String.toList_ofList, List.getLast?_reverse] at h
  have hhead := List.head?_dropWhile_not Rubric.isSpace
    (s.toList.dropWhile Rubric.isSpace).reverse
  rw [h] at hhead
  simpa using hhead

variable (tables) in
/-- What the domain of a mapping is made of. -/
theorem valid_domain {s : String} (hstrip : Rubric.strip s ≠ "") (hbare : '@' ∉ s.toList) :
    '@' ∉ (tables.lower (Rubric.strip s)).toList ∧
      (tables.lower (Rubric.strip s)).toList ≠ [] ∧
      ∀ c, (tables.lower (Rubric.strip s)).toList.getLast? = some c →
        Rubric.isSpace c = false := by
  have hsub : '@' ∉ (Rubric.strip s).toList := by
    intro hmem
    rw [Rubric.strip, String.toList_ofList, List.mem_reverse] at hmem
    exact hbare ((List.dropWhile_sublist _).mem
      (List.mem_reverse.mp ((List.dropWhile_sublist _).mem hmem)))
  obtain ⟨us, b, hlast⟩ := (List.eq_nil_or_concat (Rubric.strip s).toList).resolve_left
    (fun hnil => hstrip (String.toList_eq_nil_iff.mp hnil))
  rw [List.concat_eq_append] at hlast
  have hb : Rubric.isSpace b = false := getLast?_strip (by rw [hlast, List.getLast?_concat])
  refine ⟨fun hmem => hsub ((at_mem_lower tables _).mp hmem), ?_, fun c hc => ?_⟩
  · obtain ⟨u, before, hu⟩ := tables.lowerFrom_snoc [] us b
    rw [toList_lower, hlast, hu]
    intro hnil
    exact tables.lowerAt_ne_nil before b [] (List.append_eq_nil_iff.mp hnil).2
  · by_contra hspace
    rw [Bool.not_eq_false] at hspace
    obtain ⟨ws, hws⟩ := List.getLast?_eq_some_iff.mp hc
    rw [toList_lower, hlast] at hws
    have hsame := tables.last_lowerFrom (isBreak_of_space hspace) hws
    rw [hsame, hb] at hspace
    cases hspace

theorem domainText_eq_some {value : Option Yaml} {s : String} (h : domainText value = some s) :
    Rubric.strip s ≠ "" ∧ '@' ∉ s.toList := by
  unfold domainText at h
  split at h
  · split at h
    · cases h
    · next hbad =>
        cases h
        exact not_or.mp hbad
  · cases h

/-- What a mapping is loaded from. -/
theorem loadMapping_ok (h : loadMapping tables repr path file = .ok mapping) :
    ∃ value domain, ∃ rawRoles : List (Yaml × Yaml), domainText value = some domain ∧
      mapping.domain = tables.lower (Rubric.strip domain) ∧
      rawRoles.foldlM (loadRole tables repr path) Dict.empty = .ok mapping.roles := by
  unfold loadMapping at h
  split at h
  · cases h
  · next entries =>
      cases hdomain : domainText (Yaml.get? entries "domain") with
      | none =>
          rw [hdomain] at h
          cases h
      | some domain =>
          rw [hdomain] at h
          dsimp only at h
          split at h
          · next _ rawRoles _ =>
              cases hroles : rawRoles.foldlM (loadRole tables repr path) Dict.empty with
              | error e => simp only [hroles, bind, Except.bind, reduceCtorEq] at h
              | ok roles =>
                  simp only [hroles, bind, Except.bind, pure, Except.pure, Except.ok.injEq] at h
                  subst h
                  exact ⟨_, domain, rawRoles, hdomain, rfl, hroles⟩
          · cases h
  · cases h

theorem valid_of_loadMapping (h : loadMapping tables repr path file = .ok mapping) :
    mapping.Valid := by
  obtain ⟨value, domain, rawRoles, hdomain, hlower, hroles⟩ := loadMapping_ok h
  obtain ⟨hstrip, hat⟩ := domainText_eq_some hdomain
  obtain ⟨hbare, hne, hlast⟩ := valid_domain tables hstrip hat
  rw [← hlower] at hbare hne hlast
  refine ⟨hbare, hne, hlast, staff_of_foldlM (fun email role hrole => ?_) hroles⟩
  rw [Dict.get?_empty] at hrole
  cases hrole

end Loaded

section Agreement
variable (tables : Casing) (verifier : IdTokenVerifier) (mapping : RoleMapping) (email : String)
  (flag : Json)

/-- The account is verified and of the hosted domain, as the gate reads it. -/
structure Hosted : Prop where
  at_mem : '@' ∈ email.toList
  verified : flag = .bool true
  domain : domainOf (normalized tables email) = mapping.domain.toList

/-- A token of the project for an account. -/
structure Carries (claims : Claims) : Prop where
  iss : claims.get? "iss" = some (.str verifier.issuer)
  sub : ∃ sub, sub ≠ "" ∧ claims.get? "sub" = some (.str sub)
  email : claims.get? "email" = some (.str email)
  emailVerified : claims.get? "email_verified" = some flag

/-- The gate and the verifier treat an account alike. If it is let in, a token with
    the injected claims is accepted with the injected role, and refused for want of a
    role if none was injected; if it is blocked, a token is refused even with the
    domain claim and any role. -/
structure Agrees : Prop where
  accepted : (decide tables (.str email) flag mapping).allowed = true →
    ∀ claims, Carries verifier email flag claims →
      (∀ key value, (decide tables (.str email) flag mapping).claims.get? key = some value →
        claims.get? key = some (.str value)) →
      (∀ role, (decide tables (.str email) flag mapping).claims.get? "role" = some role →
        ∃ identity, checkClaims tables verifier claims = .ok identity ∧ identity.role = role) ∧
      ((decide tables (.str email) flag mapping).claims.get? "role" = none →
        claims.get? "role" = none →
        ∃ message, checkClaims tables verifier claims = .error (.missingRoleClaim message))
  refused : (decide tables (.str email) flag mapping).allowed = false →
    ∀ claims, Carries verifier email flag claims →
      claims.get? "hd" = some (.str mapping.domain) →
      ∃ message, checkClaims tables verifier claims = .error (.tokenVerification message)

variable {tables verifier mapping email flag} {claims : Claims}

theorem allowed_iff : (decide tables (.str email) flag mapping).allowed = true ↔
    Hosted tables mapping email flag := by
  constructor
  · intro h
    unfold decide at h
    dsimp only at h
    split at h
    · next hat =>
        split at h
        · split at h
          · next hdomain => exact ⟨hat, rfl, hdomain⟩
          · cases h
        · cases h
    · cases h
  · rintro ⟨hat, rfl, hdomain⟩
    unfold decide
    simp only [if_pos hat, if_pos hdomain]
    cases mapping.roles.get? (normalized tables email) <;> rfl

/-- The claims that are injected for an account that is let in. -/
theorem claims_of_hosted (h : Hosted tables mapping email flag) :
    (decide tables (.str email) flag mapping).claims.get? "hd" = some mapping.domain ∧
      (decide tables (.str email) flag mapping).claims.get? "role"
        = mapping.roles.get? (normalized tables email) ∧
      ∀ key, key ≠ "hd" → key ≠ "role" →
        (decide tables (.str email) flag mapping).claims.get? key = none := by
  obtain ⟨hat, rfl, hdomain⟩ := h
  unfold decide
  simp only [if_pos hat, if_pos hdomain]
  cases mapping.roles.get? (normalized tables email) with
  | none =>
      refine ⟨rfl, rfl, fun key hhd _ => ?_⟩
      exact Dict.get?_set_of_ne _ _ _ _ hhd
  | some role =>
      refine ⟨rfl, rfl, fun key hhd hrole => ?_⟩
      exact (Dict.get?_set_of_ne _ _ _ _ hrole).trans (Dict.get?_set_of_ne _ _ _ _ hhd)

variable (tables) in
/-- Of a token for an account the checks go on to the address. -/
theorem checkClaims_of_carries (h : Carries verifier email flag claims) :
    ∃ sub, checkClaims tables verifier claims = checkEmail tables verifier sub claims := by
  obtain ⟨sub, hne, hsub⟩ := h.sub
  refine ⟨sub, ?_⟩
  unfold checkClaims
  simp only [h.iss, hsub, if_true, if_neg hne]

/-- Where the account is verified they go on to the domain. -/
theorem checkEmail_of_carries (h : Carries verifier email flag claims) (sub : String)
    (hat : '@' ∈ email.toList) (hflag : flag = .bool true) :
    checkEmail tables verifier sub claims = checkDomain tables verifier sub email claims := by
  have hverified := h.emailVerified
  rw [hflag] at hverified
  unfold checkEmail
  simp only [h.email, if_pos hat, hverified]

theorem checkEmail_refuses (h : Carries verifier email flag claims) (sub : String)
    (hbad : ¬ ('@' ∈ email.toList ∧ flag = .bool true)) :
    ∃ message, checkEmail tables verifier sub claims = .error (.tokenVerification message) := by
  unfold checkEmail
  simp only [h.email, h.emailVerified]
  by_cases hat : '@' ∈ email.toList
  · rw [if_pos hat]
    split
    · next heq => exact absurd ⟨hat, Option.some.inj heq⟩ hbad
    · exact ⟨_, rfl⟩
  · rw [if_neg hat]
    exact ⟨_, rfl⟩

/-- With the domain claim what is left is the end of the address. -/
theorem checkDomain_of_hd {sub : String} (h : claims.get? "hd" = some (.str mapping.domain))
    (hdomain : verifier.allowedDomain = mapping.domain) :
    checkDomain tables verifier sub email claims =
      if '@' :: mapping.domain.toList <:+ (tables.lower email).toList then
        checkRole sub email (claims.get? "role")
      else .error (.tokenVerification "token email is outside the allowed hosted domain") := by
  unfold checkDomain
  simp only [h, hdomain, if_true]

theorem checkRole_staff {sub role : String} (h : role ∈ staffRoles) :
    checkRole sub email (some (.str role)) = .ok ⟨sub, email, role⟩ := by
  rw [checkRole, if_pos h]

/-- For an address without whitespace at its end the gate and the verifier agree. -/
theorem agrees_of_not_endsInSpace (hvalid : mapping.Valid)
    (hdomain : verifier.allowedDomain = mapping.domain)
    (h : ¬ (endsInSpace email = true ∧ Hosted tables mapping email flag)) :
    Agrees tables verifier mapping email flag := by
  constructor
  · intro hallowed claims hcarries hinjected
    have hhosted := allowed_iff.mp hallowed
    obtain ⟨hhd, hrole, -⟩ := claims_of_hosted hhosted
    have hend : endsInSpace email = false := by
      by_contra hspace
      exact h ⟨Bool.not_eq_false _ ▸ hspace, hhosted⟩
    have hsuffix := (suffix_lower_iff tables hhosted.at_mem hend hvalid.bare).mpr hhosted.domain
    obtain ⟨sub, hchecks⟩ := checkClaims_of_carries tables hcarries
    rw [hchecks, checkEmail_of_carries hcarries sub hhosted.at_mem hhosted.verified,
      checkDomain_of_hd (hinjected _ _ hhd) hdomain, if_pos hsuffix]
    refine ⟨fun role hinjection => ?_, fun _ hnone => ?_⟩
    · have hstaff := hvalid.staff _ role (hrole.symm.trans hinjection)
      rw [hinjected _ _ hinjection, checkRole_staff hstaff]
      exact ⟨_, rfl, rfl⟩
    · rw [hnone]
      exact ⟨_, rfl⟩
  · intro hblocked claims hcarries hhd
    have hnot : ¬ Hosted tables mapping email flag := by
      rw [← allowed_iff, hblocked]
      exact Bool.false_ne_true
    obtain ⟨sub, hchecks⟩ := checkClaims_of_carries tables hcarries
    rw [hchecks]
    by_cases hgood : '@' ∈ email.toList ∧ flag = .bool true
    · -- The address is of no domain, or has whitespace at its end.
      have hsuffix : ¬ '@' :: mapping.domain.toList <:+ (tables.lower email).toList := by
        cases hend : endsInSpace email with
        | true => exact not_suffix_of_endsInSpace tables hend hvalid.domain_ne hvalid.last
        | false =>
            rw [suffix_lower_iff tables hgood.1 hend hvalid.bare]
            exact fun hread => hnot ⟨hgood.1, hgood.2, hread⟩
      rw [checkEmail_of_carries hcarries sub hgood.1 hgood.2, checkDomain_of_hd hhd hdomain,
        if_neg hsuffix]
      exact ⟨_, rfl⟩
    · exact checkEmail_refuses hcarries sub hgood

variable (verifier) in
/-- A token with the claims that the gate injects. -/
theorem exists_token (h : Hosted tables mapping email flag) : ∃ claims,
    Carries verifier email flag claims ∧
      (∀ key value, (decide tables (.str email) flag mapping).claims.get? key = some value →
        claims.get? key = some (.str value)) ∧
      claims.get? "role" = (mapping.roles.get? (normalized tables email)).map Json.str := by
  obtain ⟨hhd, hrole, hothers⟩ := claims_of_hosted h
  have hinjected : ∀ claims : Claims, claims.get? "hd" = some (.str mapping.domain) →
      claims.get? "role" = (mapping.roles.get? (normalized tables email)).map Json.str →
      ∀ key value, (decide tables (.str email) flag mapping).claims.get? key = some value →
        claims.get? key = some (.str value) := by
    intro claims hdomain hname key value hvalue
    by_cases hk : key = "hd"
    · subst hk
      rw [hhd, Option.some.injEq] at hvalue
      rw [hdomain, hvalue]
    · by_cases hr : key = "role"
      · subst hr
        rw [hname, ← hrole, hvalue, Option.map_some]
      · rw [hothers key hk hr] at hvalue
        cases hvalue
  let base : Claims := ((((Dict.empty.set "iss" (.str verifier.issuer)).set "sub"
    (.str "subject")).set "email" (.str email)).set "email_verified" flag).set "hd"
      (.str mapping.domain)
  cases hname : mapping.roles.get? (normalized tables email) with
  | none =>
      refine ⟨base, ⟨?_, ⟨"subject", by decide, ?_⟩, ?_, ?_⟩, hinjected base ?_ ?_, ?_⟩ <;>
        simp [base, hname, Dict.get?_set]
  | some role =>
      refine ⟨base.set "role" (.str role), ⟨?_, ⟨"subject", by decide, ?_⟩, ?_, ?_⟩,
        hinjected _ ?_ ?_, ?_⟩ <;> simp [base, hname, Dict.get?_set]

/-- A token for an address of the domain with whitespace at its end is refused. -/
theorem not_agrees_of_endsInSpace (hvalid : mapping.Valid)
    (hdomain : verifier.allowedDomain = mapping.domain) (hend : endsInSpace email = true)
    (hhosted : Hosted tables mapping email flag) : ¬ Agrees tables verifier mapping email flag := by
  intro hagrees
  obtain ⟨claims, hcarries, hinjected, hname⟩ := exists_token verifier hhosted
  obtain ⟨hhd, hrole, -⟩ := claims_of_hosted hhosted
  have hsuffix := not_suffix_of_endsInSpace tables hend hvalid.domain_ne hvalid.last
  obtain ⟨sub, hchecks⟩ := checkClaims_of_carries tables hcarries
  rw [checkEmail_of_carries hcarries sub hhosted.at_mem hhosted.verified,
    checkDomain_of_hd (hinjected _ _ hhd) hdomain, if_neg hsuffix] at hchecks
  have haccepted := hagrees.accepted (allowed_iff.mpr hhosted) claims hcarries hinjected
  rw [hchecks] at haccepted
  cases hr : mapping.roles.get? (normalized tables email) with
  | some role =>
      obtain ⟨identity, hok, -⟩ := haccepted.1 role (hrole.trans hr)
      cases hok
  | none =>
      rw [hr, Option.map_none] at hname
      obtain ⟨message, herror⟩ := haccepted.2 (hrole.trans hr) hname
      cases herror

end Agreement

/-- For a mapping that has been loaded and a verifier that is set up for its domain,
    the gate and the verifier agree on an account just if its address is not one of
    the domain with whitespace at its end. -/
theorem agrees_iff (tables : Casing) (repr : Yaml → String) (path : String) (file : Option Yaml)
    (mapping : RoleMapping) (projectId allowedDomain : String) (verifier : IdTokenVerifier)
    (email : String) (flag : Json) (hload : loadMapping tables repr path file = .ok mapping)
    (hinit : IdTokenVerifier.init tables projectId allowedDomain = .ok verifier)
    (hsame : tables.lower allowedDomain = mapping.domain) :
    Agrees tables verifier mapping email flag ↔
      ¬ (endsInSpace email = true ∧ Hosted tables mapping email flag) := by
  have hvalid := valid_of_loadMapping hload
  have hdomain : verifier.allowedDomain = mapping.domain := by
    unfold IdTokenVerifier.init at hinit
    split at hinit
    · cases hinit
    · split at hinit
      · cases hinit
      · cases hinit
        exact hsame
  constructor
  · rintro hagrees ⟨hend, hhosted⟩
    exact not_agrees_of_endsInSpace hvalid hdomain hend hhosted hagrees
  · exact agrees_of_not_endsInSpace hvalid hdomain

section Ascii

/-- The letters of the sample addresses. -/
def asciiLetters : List (Char × Char) :=
  "ABCDEFGHIJKLMNOPQRSTUVWXYZ".toList.zip "abcdefghijklmnopqrstuvwxyz".toList

def asciiLower (c : Char) : Char := (asciiLetters.lookup c).getD c

theorem asciiLower_cases (c : Char) :
    asciiLower c = c ∨ (isBreak c = false ∧ isBreak (asciiLower c) = false) := by
  have hletters : ∀ p ∈ asciiLetters, isBreak p.1 = false ∧ isBreak p.2 = false := by decide
  unfold asciiLower
  cases hc : asciiLetters.lookup c with
  | none => exact Or.inl rfl
  | some d =>
      obtain ⟨us, vs, hsplit, -⟩ := List.lookup_eq_some_iff.mp hc
      have hmem : (c, d) ∈ asciiLetters := by
        rw [hsplit]
        exact List.mem_append_right _ List.mem_cons_self
      exact Or.inr (hletters (c, d) hmem)

theorem asciiLower_break {c : Char} (h : isBreak c = true) : [asciiLower c] = [c] := by
  rcases asciiLower_cases c with hsame | ⟨hc, -⟩
  · rw [hsame]
  · rw [h] at hc
    cases hc

theorem asciiLower_kept {c d : Char} (hd : d ∈ [asciiLower c]) (hbreak : isBreak d = true) :
    d = c := by
  rw [List.mem_singleton] at hd
  rcases asciiLower_cases c with hsame | ⟨-, hnot⟩
  · rw [hd, hsame]
  · rw [← hd, hbreak] at hnot
    cases hnot

theorem asciiCased_break {c : Char} (h : isBreak c = true) : (!isBreak c && c.isAlpha) = false := by
  rw [h]
  rfl

theorem asciiIgnorable_break {c : Char} (h : isBreak c = true) :
    (!isBreak c && ['.', ':', '\'', '^', '_'].contains c) = false := by
  rw [h]
  rfl

theorem sigma_not_break : isBreak 'Σ' = false ∧ isBreak 'σ' = false ∧ isBreak 'ς' = false := by
  decide

/-- The case tables for addresses of ASCII characters. -/
def asciiCasing : Casing where
  lowerChar c := [asciiLower c]
  cased c := !isBreak c && c.isAlpha
  ignorable c := !isBreak c && ['.', ':', '\'', '^', '_'].contains c
  lowerChar_ne_nil _ := List.cons_ne_nil _ _
  lowerChar_plain _ := asciiLower_break
  not_cased _ := asciiCased_break
  not_ignorable _ := asciiIgnorable_break
  kept _ _ := asciiLower_kept
  sigma := sigma_not_break

/-- A mapping with one recruiter. -/
def sampleMapping : Yaml :=
  .map [(.str "domain", .str "n-ix.com"),
    (.str "roles", .map [(.str "Ann@n-ix.com", .str "recruiter")])]

def sampleRoles : RoleMapping :=
  ⟨"n-ix.com", Dict.ofList [("ann@n-ix.com", "recruiter")]⟩

def sampleVerifier : IdTokenVerifier :=
  ⟨"tech-screen", "https://securetoken.google.com/tech-screen", "n-ix.com"⟩

theorem load_sample :
    loadMapping asciiCasing (fun _ => "") "auth-roles.yaml" (some sampleMapping)
      = .ok sampleRoles := by
  rfl

end Ascii

theorem agrees_iff_sample :
    Agrees asciiCasing sampleVerifier sampleRoles "Ann@n-ix.com" (.bool true) ↔
      ¬ (endsInSpace "Ann@n-ix.com" = true ∧
        Hosted asciiCasing sampleRoles "Ann@n-ix.com" (.bool true)) :=
  agrees_iff asciiCasing (fun _ => "") "auth-roles.yaml" (some sampleMapping) sampleRoles
    "tech-screen" "N-iX.com" sampleVerifier "Ann@n-ix.com" (.bool true) load_sample
    rfl (by decide +kernel)

/-- With a space at its end the address of the recruiter is let in, and refused. -/
theorem space_refused :
    ¬ Agrees asciiCasing sampleVerifier sampleRoles "ann@n-ix.com " (.bool true) :=
  not_agrees_of_endsInSpace (valid_of_loadMapping load_sample) rfl (by decide +kernel)
    ⟨by decide +kernel, rfl, by decide +kernel⟩

end TechScreen.Access
