import TechScreen.Lib.Casing
import TechScreen.Lib.Json
import TechScreen.Rubric.Convert

/-!
# Sign-In and Token Claims

Staff sign in through two programs that are deployed apart. A function at the
identity provider gates the account and injects claims; the API verifies the
claims of the token on every call. Both look at the domain of the e-mail address,
each in its own way: the gate takes whitespace off the address and cuts the rest
at its last at sign, the verifier compares the end of the address as it is.

## Main definitions

* `loadMapping`: The role mapping, validated.
* `decide`: The gate at the identity provider.
* `checkClaims`: The verifier's checks on the claims of a token.
-/

namespace TechScreen.Access

open Lib

section Texts

/-- The characters that addresses are cut at: whitespace and the at sign. -/
def isBreak (c : Char) : Bool := c == '@' || Rubric.isSpace c

abbrev Casing := CaseTables isBreak

/-- What comes after the last at sign: everything if there is none. -/
def afterLastAt (s : List Char) : List Char := (s.reverse.takeWhile (· != '@')).reverse

/-- `s.rpartition("@")[2]` -/
def domainOf (s : String) : List Char := afterLastAt s.toList

/-- The text has whitespace at its end. -/
def endsInSpace (s : String) : Bool := s.toList.getLast?.any Rubric.isSpace

end Texts

section Mapping

/-- What `yaml.safe_load` makes of a file. -/
inductive Yaml where
  | null
  | bool (b : Bool)
  | int (n : Int)
  | float (q : ℚ)
  | str (s : String)
  | seq (items : List Yaml)
  | map (entries : List (Yaml × Yaml))

/-- `loaded.get(key)` for a text. -/
def Yaml.get? (entries : List (Yaml × Yaml)) (key : String) : Option Yaml :=
  entries.findSome? (fun
    | (.str k, v) => if k = key then some v else none
    | _ => none)

def staffRoles : List String := ["admin", "recruiter", "reviewer"]

structure RoleMappingError where
  message : String

/-- The role mapping: the hosted domain, and the roles by lower-cased address. -/
structure RoleMapping where
  domain : String
  roles : Dict String String

variable (tables : Casing) (repr : Yaml → String) (path : String)

/-- The domain, if it is a bare host name. -/
def domainText : Option Yaml → Option String
  | some (.str s) => if Rubric.strip s = "" ∨ '@' ∈ s.toList then none else some s
  | _ => none

/-- One entry of the roles. -/
def loadRole (roles : Dict String String) (entry : Yaml × Yaml) :
    Except RoleMappingError (Dict String String) :=
  match entry.1 with
  | .str email =>
      if '@' ∈ email.toList then
        match entry.2 with
        | .str role =>
            if role ∈ staffRoles then
              .ok (roles.set (tables.lower (Rubric.strip email)) role)
            else .error ⟨path ++ ": role for " ++ repr (.str email) ++
              " must be one of ['admin', 'recruiter', 'reviewer'], got " ++ repr (.str role)⟩
        | role => .error ⟨path ++ ": role for " ++ repr (.str email) ++
              " must be one of ['admin', 'recruiter', 'reviewer'], got " ++ repr role⟩
      else .error ⟨path ++ ": role key " ++ repr (.str email) ++ " is not an email address"⟩
  | key => .error ⟨path ++ ": role key " ++ repr key ++ " is not an email address"⟩

/-- The mapping of a file, which may be missing. -/
def loadMapping : Option Yaml → Except RoleMappingError RoleMapping
  | none => .error ⟨"role mapping file not found: " ++ path⟩
  | some (.map entries) =>
      match domainText (Yaml.get? entries "domain") with
      | none => .error ⟨path ++ ": 'domain' must be a bare hostname string"⟩
      | some domain =>
          match Yaml.get? entries "roles" with
          | some (.map rawRoles) => do
              let roles ← rawRoles.foldlM (loadRole tables repr path) Dict.empty
              return ⟨tables.lower (Rubric.strip domain), roles⟩
          | _ => .error ⟨path ++ ": 'roles' must be a mapping of email -> role"⟩
  | some _ => .error ⟨path ++ ": expected a YAML mapping at top level"⟩

end Mapping

section Gate
variable (tables : Casing)

/-- The outcome of the gate for one account. -/
structure Decision where
  allowed : Bool
  reason : Option String := none
  claims : Dict String String := .empty

/-- The address as the gate reads it. -/
def normalized (email : String) : String := tables.lower (Rubric.strip email)

/-- Gate one sign-in and compute the claims to inject. -/
def decide (email emailVerified : Json) (mapping : RoleMapping) : Decision :=
  match email with
  | .str email =>
      if '@' ∈ email.toList then
        match emailVerified with
        | .bool true =>
            if domainOf (normalized tables email) = mapping.domain.toList then
              match mapping.roles.get? (normalized tables email) with
              | some role =>
                  { allowed := true
                    claims := Dict.ofList [("hd", mapping.domain), ("role", role)] }
              | none => { allowed := true, claims := Dict.ofList [("hd", mapping.domain)] }
            else { allowed := false, reason := some "account is outside the allowed hosted domain" }
        | _ => { allowed := false, reason := some "account email is not verified" }
      else { allowed := false, reason := some "account has no usable email" }
  | _ => { allowed := false, reason := some "account has no usable email" }

end Gate

section Verifier
variable (tables : Casing)

structure VerifiedIdentity where
  sub : String
  email : String
  role : String
  deriving DecidableEq

/-- Why a token is refused: with status 401, or 403 for a member of staff without a
    role. -/
inductive VerifyError where
  | tokenVerification (message : String)
  | missingRoleClaim (message : String)
  deriving DecidableEq

/-- The claims of a token. -/
abbrev Claims := Dict String Json

/-- What a verifier is set up with. -/
structure IdTokenVerifier where
  projectId : String
  issuer : String
  allowedDomain : String

/-- `IdTokenVerifier.__init__` -/
def IdTokenVerifier.init (projectId allowedDomain : String) : Except String IdTokenVerifier :=
  if projectId = "" then .error "project_id must be set (GCP_PROJECT) to verify ID tokens"
  else if allowedDomain = "" then .error "allowed_domain must be set (AUTH_ALLOWED_DOMAIN)"
  else .ok ⟨projectId, "https://securetoken.google.com/" ++ projectId, tables.lower allowedDomain⟩

variable (verifier : IdTokenVerifier)

/-- The role of a token. -/
def checkRole (sub email : String) : Option Json → Except VerifyError VerifiedIdentity
  | none | some .null => .error (.missingRoleClaim "token carries no role claim")
  | some (.str role) =>
      if role ∈ staffRoles then .ok ⟨sub, email, role⟩
      else .error (.missingRoleClaim "token role claim is not a recognised staff role")
  | some _ => .error (.missingRoleClaim "token role claim is not a recognised staff role")

/-- The domain of a token: the claim that the gate injects, and the address. -/
def checkDomain (sub email : String) (claims : Claims) : Except VerifyError VerifiedIdentity :=
  match claims.get? "hd" with
  | some (.str hd) =>
      if hd = verifier.allowedDomain then
        if '@' :: verifier.allowedDomain.toList <:+ (tables.lower email).toList then
          checkRole sub email (claims.get? "role")
        else .error (.tokenVerification "token email is outside the allowed hosted domain")
      else .error (.tokenVerification "token is not from the allowed hosted domain")
  | _ => .error (.tokenVerification "token is not from the allowed hosted domain")

/-- The address of a token, and the provider's flag for it. -/
def checkEmail (sub : String) (claims : Claims) : Except VerifyError VerifiedIdentity :=
  match claims.get? "email" with
  | some (.str email) =>
      if '@' ∈ email.toList then
        match claims.get? "email_verified" with
        | some (.bool true) => checkDomain tables verifier sub email claims
        | _ => .error (.tokenVerification "token email is not verified")
      else .error (.tokenVerification "token has no usable email claim")
  | _ => .error (.tokenVerification "token has no usable email claim")

/-- `_check_claims` -/
def checkClaims (claims : Claims) : Except VerifyError VerifiedIdentity :=
  match claims.get? "iss" with
  | some (.str iss) =>
      if iss = verifier.issuer then
        match claims.get? "sub" with
        | some (.str sub) =>
            if sub = "" then .error (.tokenVerification "token has no subject")
            else checkEmail tables verifier sub claims
        | _ => .error (.tokenVerification "token has no subject")
      else .error (.tokenVerification "unexpected token issuer")
  | _ => .error (.tokenVerification "unexpected token issuer")

end Verifier

end TechScreen.Access
