import Mathlib.Data.Rat.Defs
import Mathlib.Algebra.Order.Ring.Rat
import TechScreen.Access.Agreement
import TechScreen.Lib.Run

/-!
# The Certificates of the Verifier

The verifier checks the signature of a token with certificates that it fetches and
keeps for a time-to-live. A token with an unknown key id makes it fetch them again
at once, as the keys are rotated; a cooldown is to keep made-up key ids from
causing one fetch after the other.

A look-up of the certificates holds a lock from its first clock reading to its
last, so look-ups come one after the other, while the calls they belong to
interleave as they like. Between its look-ups a call does not wait.

The cooldown is counted from the end of a fetch that has succeeded. One that
raises sets nothing, and the next unknown key id causes a fetch again. But for
this the fetches that key ids cause keep their distance, and whatever the fetches
do, no call decodes its token with certificates that were out of date when it
looked them up.

## Main definitions

* `getCerts`: One look-up of the certificates.
* `World.step`: Any number of calls to the verifier.
* `Fails`: A step at which a forced fetch raises.
* `Fresh`: Tokens are decoded with certificates that are not out of date.

## Theorems

* `looked_getCerts`: What a look-up can do.
* `cached_step`, `spaced_step`: What a step does to the cache and to the cooldown.
* `refetches_spaced`: Forced fetches keep their distance where none has raised.
* `raising_refetch`: They do not where one has.
-/

namespace TechScreen.Access

open Lib

section Lookups

/-- The certificates by key id. -/
abbrev Certs := Dict String String

/-- What the cache is set up with, in seconds. -/
structure CertsConfig where
  certsTtl : ℚ
  forcedCooldown : ℚ

/-- The certificates that were fetched, and the two deadlines. -/
structure Cache where
  certs : Option Certs := none
  certsDeadline : ℚ := 0
  forcedOkAfter : ℚ := 0

/-- Within the cooldown an unknown key id is looked up in what is cached. -/
def Cache.forcing (cache : Cache) (forceRefresh : Bool) (now : ℚ) : Bool :=
  if now < cache.forcedOkAfter then false else forceRefresh

theorem Cache.forcing_eq_true {cache : Cache} {forceRefresh : Bool} {now : ℚ}
    (h : cache.forcing forceRefresh now = true) :
    forceRefresh = true ∧ cache.forcedOkAfter ≤ now := by
  unfold Cache.forcing at h
  split at h
  · cases h
  · next hcool => exact ⟨h, not_lt.mp hcool⟩

/-- What one look-up meets: the clock when it starts, after the fetch and after that,
    and what the fetcher returns, if it does not raise. A reading that is not made
    repeats the one before it. -/
structure Lookup where
  now : ℚ
  stored : ℚ
  forced : ℚ
  fetched : Option Certs

/-- What can be seen of the calls. -/
inductive Output where
  | attempt (call : Nat) (forced : Bool) (now : ℚ)
  | fetched (call : Nat) (certs : Certs) (stored : ℚ)
  | returned (call : Nat) (certs : Certs) (now : ℚ)
  | decoded (call : Nat) (token : String) (certs : Certs)

variable (config : CertsConfig) (call : Nat)

/-- The fetch within a look-up. Where it raises nothing is stored. -/
def fetchCerts (forced : Bool) (look : Lookup) (cache : Cache) :
    Cache × Option Certs × List Output :=
  match look.fetched with
  | none => (cache, none, [.attempt call forced look.now])
  | some certs =>
      ({ certs := some certs
         certsDeadline := look.stored + config.certsTtl
         forcedOkAfter :=
          if forced then look.forced + config.forcedCooldown else cache.forcedOkAfter },
        some certs,
        [.attempt call forced look.now, .fetched call certs look.stored,
          .returned call certs look.now])

/-- `_get_certs` -/
def getCerts (forceRefresh : Bool) (look : Lookup) (cache : Cache) :
    Cache × Option Certs × List Output :=
  match cache.certs with
  | none => fetchCerts config call (cache.forcing forceRefresh look.now) look cache
  | some certs =>
      if cache.forcing forceRefresh look.now = true ∨ cache.certsDeadline ≤ look.now then
        fetchCerts config call (cache.forcing forceRefresh look.now) look cache
      else (cache, some certs, [.returned call certs look.now])

/-- What a look-up can do. -/
inductive Looked (forceRefresh : Bool) (look : Lookup) (cache : Cache) :
    Cache → Option Certs → List Output → Prop
  | hit (certs : Certs) (hcerts : cache.certs = some certs)
      (hfresh : look.now < cache.certsDeadline) :
      Looked forceRefresh look cache cache (some certs) [.returned call certs look.now]
  | failed (forced : Bool) (hfetched : look.fetched = none)
      (hforced : forced = true → forceRefresh = true ∧ cache.forcedOkAfter ≤ look.now) :
      Looked forceRefresh look cache cache none [.attempt call forced look.now]
  | stored (forced : Bool) (certs : Certs) (hfetched : look.fetched = some certs)
      (hforced : forced = true → forceRefresh = true ∧ cache.forcedOkAfter ≤ look.now) :
      Looked forceRefresh look cache
        ⟨some certs, look.stored + config.certsTtl,
          if forced then look.forced + config.forcedCooldown else cache.forcedOkAfter⟩
        (some certs)
        [.attempt call forced look.now, .fetched call certs look.stored,
          .returned call certs look.now]

theorem looked_fetchCerts {forceRefresh forced : Bool} {look : Lookup} {cache : Cache}
    (hforced : forced = true → forceRefresh = true ∧ cache.forcedOkAfter ≤ look.now) :
    Looked config call forceRefresh look cache (fetchCerts config call forced look cache).1
      (fetchCerts config call forced look cache).2.1
      (fetchCerts config call forced look cache).2.2 := by
  unfold fetchCerts
  cases hfetched : look.fetched with
  | none => exact Looked.failed forced hfetched hforced
  | some certs => exact Looked.stored forced certs hfetched hforced

theorem looked_getCerts (forceRefresh : Bool) (look : Lookup) (cache : Cache) :
    Looked config call forceRefresh look cache (getCerts config call forceRefresh look cache).1
      (getCerts config call forceRefresh look cache).2.1
      (getCerts config call forceRefresh look cache).2.2 := by
  have hforced : cache.forcing forceRefresh look.now = true →
      forceRefresh = true ∧ cache.forcedOkAfter ≤ look.now := Cache.forcing_eq_true
  unfold getCerts
  cases hcerts : cache.certs with
  | none => exact looked_fetchCerts config call hforced
  | some certs =>
      by_cases hfetch : cache.forcing forceRefresh look.now = true ∨
          cache.certsDeadline ≤ look.now
      · simp only [if_pos hfetch]
        exact looked_fetchCerts config call hforced
      · simp only [if_neg hfetch]
        exact Looked.hit certs hcerts (not_le.mp (fun hle => hfetch (Or.inr hle)))

end Lookups

section Calls

/-- What the token library answers: the header of a token, and its claims if the
    signature, the audience and the lifetime are right at the time of the wall
    clock. -/
structure Jwt where
  decodeHeader : String → Option Claims
  decode : String → Certs → String → ℚ → ℚ → Option Claims

/-- What becomes of a call. -/
inductive Verdict where
  | verified (identity : VerifiedIdentity)
  | refused (error : VerifyError)
  | raised

/-- Where a call is: at its first look-up, at the second one for a key id that was
    not found, or at its end. -/
inductive CallStage where
  | entered
  | unknownKid
  | done (verdict : Verdict)

structure Call where
  token : String
  stage : CallStage

/-- The verifier's cache, the last reading of the clock, and the calls in the order
    they were made. -/
structure World where
  clock : ℚ
  cache : Cache := {}
  calls : List Call := []

inductive Action where
  | verify (token : String)
  | look (call : Nat) (look : Lookup) (wall : ℚ)

inductive AccessError where
  | clockRunsBack
  | notWaiting
  deriving DecidableEq

variable (tables : Casing) (jwt : Jwt) (verifier : IdTokenVerifier) (config : CertsConfig)

/-- `_peek_kid` -/
def peekKid (token : String) : Except VerifyError (Option String) :=
  match jwt.decodeHeader token with
  | none => .error (.tokenVerification "malformed token")
  | some header =>
      match header.get? "kid" with
      | some (.str kid) => .ok (some kid)
      | _ => .ok none

/-- The rest of a call, once it has its certificates. -/
def decodeToken (token : String) (certs : Certs) (wall : ℚ) : Verdict :=
  match jwt.decode token certs verifier.projectId 10 wall with
  | none => .refused (.tokenVerification "token failed signature/audience/lifetime checks")
  | some claims =>
      match checkClaims tables verifier claims with
      | .ok identity => .verified identity
      | .error e => .refused e

/-- The certificates that a token is decoded with, or what comes before that. -/
def afterFirst (call : Nat) (token : String) (wall : ℚ) : Option Certs → CallStage × List Output
  | none => (.done .raised, [])
  | some certs =>
      match peekKid jwt token with
      | .error e => (.done (.refused e), [])
      | .ok none =>
          (.done (decodeToken tables jwt verifier token certs wall), [.decoded call token certs])
      | .ok (some kid) =>
          if (certs.get? kid).isNone then (.unknownKid, [])
          else (.done (decodeToken tables jwt verifier token certs wall),
            [.decoded call token certs])

def afterRefresh (call : Nat) (token : String) (wall : ℚ) :
    Option Certs → CallStage × List Output
  | none => (.done .raised, [])
  | some certs =>
      (.done (decodeToken tables jwt verifier token certs wall), [.decoded call token certs])

/-- `verify`, cut where it waits for the certificates. -/
def World.step : Step World Action Output AccessError
  | w, .verify token => .ok ({ w with calls := w.calls ++ [⟨token, .entered⟩] }, [])
  | w, .look i look wall =>
      if w.clock ≤ look.now ∧ look.now ≤ look.stored ∧ look.stored ≤ look.forced then
        match w.calls[i]? with
        | some ⟨token, .entered⟩ =>
            let got := getCerts config i false look w.cache
            let next := afterFirst tables jwt verifier i token wall got.2.1
            .ok (⟨look.forced, got.1, w.calls.set i ⟨token, next.1⟩⟩, got.2.2 ++ next.2)
        | some ⟨token, .unknownKid⟩ =>
            let got := getCerts config i true look w.cache
            let next := afterRefresh tables jwt verifier i token wall got.2.1
            .ok (⟨look.forced, got.1, w.calls.set i ⟨token, next.1⟩⟩, got.2.2 ++ next.2)
        | _ => .error .notWaiting
      else .error .clockRunsBack

/-- A verifier without calls. -/
def World.start (clock : ℚ) : World := { clock := clock }

/-- The call looks the certificates up for an unknown key id. -/
def World.refreshes (w : World) (i : Nat) : Bool :=
  match w.calls[i]? with
  | some ⟨_, .unknownKid⟩ => true
  | _ => false

/-- A fetch for an unknown key id raises. -/
def Fails (w : World) : Action → Prop
  | .verify _ => False
  | .look i look _ =>
      w.refreshes i = true ∧ w.cache.forcedOkAfter ≤ look.now ∧ look.fetched = none

instance (w : World) : (action : Action) → Decidable (Fails w action)
  | .verify _ => inferInstanceAs (Decidable False)
  | .look i look _ => inferInstanceAs
      (Decidable (w.refreshes i = true ∧ w.cache.forcedOkAfter ≤ look.now ∧ look.fetched = none))

end Calls

section Steps
variable {tables : Casing} {jwt : Jwt} {verifier : IdTokenVerifier} {config : CertsConfig}
  {w w' : World} {action : Action} {out : List Output}

/-- A look-up as a step: it moves the cache and the clock, and what it returns is
    what the call goes on with. -/
structure LookStep (config : CertsConfig) (w : World) (i : Nat) (look : Lookup) (w' : World)
    (out : List Output) : Prop where
  clock : w.clock ≤ look.now ∧ look.now ≤ look.stored ∧ look.stored ≤ look.forced
  clock_eq : w'.clock = look.forced
  looked : ∃ forceRefresh certs outs more,
    Looked config i forceRefresh look w.cache w'.cache certs outs ∧ out = outs ++ more ∧
      (forceRefresh = true → w.refreshes i = true) ∧
      (more = [] ∨ ∃ token set, certs = some set ∧ more = [.decoded i token set])

theorem afterFirst_out (i : Nat) (token : String) (wall : ℚ) (certs : Option Certs) :
    (afterFirst tables jwt verifier i token wall certs).2 = [] ∨
      ∃ name set, certs = some set ∧
        (afterFirst tables jwt verifier i token wall certs).2 = [.decoded i name set] := by
  cases certs with
  | none => exact Or.inl rfl
  | some set =>
      unfold afterFirst
      cases peekKid jwt token with
      | error e => exact Or.inl rfl
      | ok kid =>
          cases kid with
          | none => exact Or.inr ⟨token, set, rfl, rfl⟩
          | some kid =>
              dsimp only
              split
              · exact Or.inl rfl
              · exact Or.inr ⟨token, set, rfl, rfl⟩

theorem afterRefresh_out (i : Nat) (token : String) (wall : ℚ) (certs : Option Certs) :
    (afterRefresh tables jwt verifier i token wall certs).2 = [] ∨
      ∃ name set, certs = some set ∧
        (afterRefresh tables jwt verifier i token wall certs).2 = [.decoded i name set] := by
  cases certs with
  | none => exact Or.inl rfl
  | some set => exact Or.inr ⟨token, set, rfl, rfl⟩

theorem lookStep_of_step {i : Nat} {look : Lookup} {wall : ℚ}
    (h : World.step tables jwt verifier config w (.look i look wall) = .ok (w', out)) :
    LookStep config w i look w' out := by
  unfold World.step at h
  dsimp only at h
  split at h
  · next hclock =>
      split at h
      · next token hcall =>
          cases h
          exact ⟨hclock, rfl, false, _, _, _, looked_getCerts config i false look w.cache, rfl,
            fun hf => absurd hf Bool.false_ne_true, afterFirst_out i token wall _⟩
      · next token hcall =>
          cases h
          exact ⟨hclock, rfl, true, _, _, _, looked_getCerts config i true look w.cache, rfl,
            fun _ => by rw [World.refreshes, hcall], afterRefresh_out i token wall _⟩
      · cases h
  · cases h

/-- A step without a look-up is a new call. -/
theorem verify_of_step {token : String}
    (h : World.step tables jwt verifier config w (.verify token) = .ok (w', out)) :
    w' = { w with calls := w.calls ++ [⟨token, .entered⟩] } ∧ out = [] := by
  cases h
  exact ⟨rfl, rfl⟩

end Steps

section Spacing
variable {tables : Casing} {jwt : Jwt} {verifier : IdTokenVerifier} {config : CertsConfig}
  {w w' : World} {action : Action} {out outs : List Output} {clock : ℚ}
  {ts : List (Taken World Action Output)}

/-- The time of a fetch that an unknown key id has caused. -/
def Output.forcedAt : Output → Option ℚ
  | .attempt _ true now => some now
  | _ => none

def forcedTimes (outs : List Output) : List ℚ := outs.filterMap Output.forcedAt

theorem forcedTimes_append (outs more : List Output) :
    forcedTimes (outs ++ more) = forcedTimes outs ++ forcedTimes more :=
  List.filterMap_append

/-- What a step adds to the forced fetches: none, or one that the cooldown allows
    and that has counted the next one from its end, but where it has raised. -/
theorem forcedTimes_of_step
    (h : World.step tables jwt verifier config w action = .ok (w', out)) :
    (forcedTimes out = [] ∧ w'.cache.forcedOkAfter = w.cache.forcedOkAfter ∧ w.clock ≤ w'.clock) ∨
      ∃ now, forcedTimes out = [now] ∧ w.cache.forcedOkAfter ≤ now ∧ w.clock ≤ now ∧
        now ≤ w'.clock ∧
        (Fails w action ∨ w'.cache.forcedOkAfter = w'.clock + config.forcedCooldown) := by
  cases action with
  | verify token =>
      obtain ⟨rfl, rfl⟩ := verify_of_step h
      exact Or.inl ⟨rfl, rfl, le_refl _⟩
  | look i look wall =>
      obtain ⟨⟨hnow, hstored, hforced⟩, hclock, forceRefresh, certs, touts, more, hlooked, rfl,
        hunknown, hmore⟩ := lookStep_of_step h
      have hend : w.clock ≤ w'.clock := by
        rw [hclock]
        exact hnow.trans (hstored.trans hforced)
      -- What follows a look-up fetches nothing.
      have hdecode : forcedTimes more = [] := by
        rcases hmore with rfl | ⟨token, set, -, rfl⟩ <;> rfl
      rw [forcedTimes_append, hdecode, List.append_nil]
      generalize w'.cache = cache at hlooked
      -- A hit fetches nothing; a fetch counts if it was forced.
      cases hlooked with
      | hit certs hcerts hfresh => exact Or.inl ⟨rfl, rfl, hend⟩
      | failed forced hfetched hcool =>
          cases forced with
          | false => exact Or.inl ⟨rfl, rfl, hend⟩
          | true =>
              obtain ⟨hforce, hafter⟩ := hcool rfl
              refine Or.inr ⟨look.now, rfl, hafter, hnow, ?_, Or.inl ?_⟩
              · rw [hclock]
                exact hstored.trans hforced
              · exact ⟨hunknown hforce, hafter, hfetched⟩
      | stored forced certs hfetched hcool =>
          cases forced with
          | false => exact Or.inl ⟨rfl, rfl, hend⟩
          | true =>
              refine Or.inr ⟨look.now, rfl, (hcool rfl).2, hnow, ?_, Or.inr ?_⟩
              · rw [hclock]
                exact hstored.trans hforced
              · rw [hclock]
                rfl

/-- The forced fetches so far keep their distance, and the cooldown is over when
    the next one may follow each of them. -/
structure Spaced (config : CertsConfig) (outs : List Output) (w : World) : Prop where
  apart : (forcedTimes outs).Pairwise (fun a b => a + config.forcedCooldown ≤ b)
  cooled : ∀ a ∈ forcedTimes outs, a + config.forcedCooldown ≤ w.cache.forcedOkAfter
  past : ∀ a ∈ forcedTimes outs, a ≤ w.clock

theorem spaced_step (h : Spaced config outs w)
    (hstep : World.step tables jwt verifier config w action = .ok (w', out))
    (hcalm : ¬ Fails w action) : Spaced config (outs ++ out) w' := by
  rcases forcedTimes_of_step hstep with ⟨hnone, hsame, hclock⟩ |
    ⟨now, hone, hafter, hnow, hend, hset⟩
  · constructor
    · rw [forcedTimes_append, hnone, List.append_nil]
      exact h.apart
    · rw [forcedTimes_append, hnone, List.append_nil, hsame]
      exact h.cooled
    · rw [forcedTimes_append, hnone, List.append_nil]
      exact fun a ha => (h.past a ha).trans hclock
  · -- The fetch comes after the cooldown of all the earlier ones.
    have hdeadline := hset.resolve_left hcalm
    have hpast : ∀ a ∈ forcedTimes outs ++ [now], a ≤ w'.clock := by
      intro a ha
      rw [List.mem_append, List.mem_singleton] at ha
      rcases ha with ha | rfl
      · exact (h.past a ha).trans (hnow.trans hend)
      · exact hend
    constructor
    · rw [forcedTimes_append, hone, List.pairwise_append]
      refine ⟨h.apart, List.pairwise_singleton _ _, fun a ha b hb => ?_⟩
      obtain rfl := List.mem_singleton.mp hb
      exact (h.cooled a ha).trans hafter
    · rw [forcedTimes_append, hone, hdeadline]
      exact fun a ha => add_le_add (hpast a ha) (le_refl _)
    · rw [forcedTimes_append, hone]
      exact hpast

theorem spaced_of_run (h : Run (World.step tables jwt verifier config) (World.start clock) ts w)
    (hcalm : ∀ t ∈ ts, ¬ Fails t.before t.event) : Spaced config (outputs ts) w := by
  induction h with
  | nil => exact ⟨List.Pairwise.nil, fun a ha => absurd ha List.not_mem_nil,
      fun a ha => absurd ha List.not_mem_nil⟩
  | snoc us a b e o hrun hstep ih =>
      rw [outputs_snoc]
      exact spaced_step (ih (fun t ht => hcalm t (List.mem_append_left _ ht))) hstep
        (hcalm _ (List.mem_append_right _ List.mem_cons_self))

end Spacing

section Freshness
variable {tables : Casing} {jwt : Jwt} {verifier : IdTokenVerifier} {config : CertsConfig}
  {w w' : World} {action : Action} {out outs : List Output} {clock : ℚ}
  {ts : List (Taken World Action Output)}

/-- Where the cached certificates come from, and what the deadline says. -/
def Cached (config : CertsConfig) (outs : List Output) (w : World) : Prop :=
  ∀ certs, w.cache.certs = some certs → ∃ j stored, Output.fetched j certs stored ∈ outs ∧
    stored ≤ w.clock ∧ w.cache.certsDeadline = stored + config.certsTtl

theorem cached_step (h : Cached config outs w)
    (hstep : World.step tables jwt verifier config w action = .ok (w', out)) :
    Cached config (outs ++ out) w' := by
  intro certs hcerts
  cases action with
  | verify token =>
      obtain ⟨rfl, rfl⟩ := verify_of_step hstep
      rw [List.append_nil]
      exact h certs hcerts
  | look i look wall =>
      obtain ⟨⟨hnow, hstored, hforced⟩, hclock, forceRefresh, got, touts, more, hlooked, rfl, -,
        -⟩ := lookStep_of_step hstep
      generalize hcache : w'.cache = cache at hlooked hcerts
      have hkept : cache = w.cache → ∃ j stored,
          Output.fetched j certs stored ∈ outs ++ (touts ++ more) ∧ stored ≤ w'.clock ∧
            cache.certsDeadline = stored + config.certsTtl := by
        rintro rfl
        obtain ⟨j, stored, hmem, hle, hdeadline⟩ := h certs hcerts
        refine ⟨j, stored, List.mem_append_left _ hmem, ?_, hdeadline⟩
        rw [hclock]
        exact hle.trans (hnow.trans (hstored.trans hforced))
      cases hlooked with
      | hit set hset hfresh => exact hkept rfl
      | failed forced hfetched hcool => exact hkept rfl
      | stored forced set hfetched hcool =>
          cases hcerts
          refine ⟨i, look.stored, List.mem_append_right _ (List.mem_append_left _ ?_), ?_, rfl⟩
          · exact List.mem_cons_of_mem _ List.mem_cons_self
          · rw [hclock]
            exact hforced

theorem cached_of_run (h : Run (World.step tables jwt verifier config) (World.start clock) ts w) :
    Cached config (outputs ts) w := by
  induction h with
  | nil => exact fun _ hcerts => by cases hcerts
  | snoc us a b e o hrun hstep ih =>
      rw [outputs_snoc]
      exact cached_step ih hstep

/-- The certificates that a call looked up were fetched by the call, or they had been
    fetched not more than the time-to-live before it looked them up. -/
def Sourced (config : CertsConfig) (outs : List Output) (i : Nat) (certs : Certs) : Prop :=
  ∃ j stored, Output.fetched j certs stored ∈ outs ∧
    (j = i ∨ ∃ now, Output.returned i certs now ∈ outs ∧ stored ≤ now ∧
      now ≤ stored + config.certsTtl)

/-- Each token is decoded with certificates that have such a source by then. -/
def Fresh (config : CertsConfig) (ts : List (Taken World Action Output)) : Prop :=
  ∀ us t vs i token certs, ts = us ++ t :: vs → Output.decoded i token certs ∈ t.out →
    Sourced config (outputs (us ++ [t])) i certs

/-- A look-up returns certificates that are not out of date. -/
theorem sourced_of_looked {i : Nat} {forceRefresh : Bool} {look : Lookup} {cache : Cache}
    {certs : Certs} {touts : List Output} (h : Cached config outs w) (hnow : w.clock ≤ look.now)
    (hlooked : Looked config i forceRefresh look w.cache cache (some certs) touts) :
    Sourced config (outs ++ touts) i certs := by
  cases hlooked with
  | hit _ hcerts hfresh =>
      obtain ⟨j, stored, hmem, hle, hdeadline⟩ := h certs hcerts
      refine ⟨j, stored, List.mem_append_left _ hmem, Or.inr ⟨look.now,
        List.mem_append_right _ List.mem_cons_self, hle.trans hnow, ?_⟩⟩
      rw [← hdeadline]
      exact hfresh.le
  | stored forced _ hfetched hcool =>
      exact ⟨i, look.stored,
        List.mem_append_right _ (List.mem_cons_of_mem _ List.mem_cons_self), Or.inl rfl⟩

theorem Sourced.more {i : Nat} {certs : Certs} (h : Sourced config outs i certs)
    (more : List Output) : Sourced config (outs ++ more) i certs := by
  obtain ⟨j, stored, hmem, hwhen⟩ := h
  refine ⟨j, stored, List.mem_append_left _ hmem, hwhen.imp_right ?_⟩
  rintro ⟨now, hreturned, hle⟩
  exact ⟨now, List.mem_append_left _ hreturned, hle⟩

theorem not_decoded_of_looked {i : Nat} {forceRefresh : Bool} {look : Lookup} {cache cache' : Cache}
    {got : Option Certs} {touts : List Output}
    (h : Looked config i forceRefresh look cache cache' got touts) (j : Nat) (token : String)
    (certs : Certs) : Output.decoded j token certs ∉ touts := by
  cases h <;> simp

theorem fresh_of_run (h : Run (World.step tables jwt verifier config) (World.start clock) ts w) :
    Fresh config ts := by
  intro us t vs i token certs hts hdecoded
  obtain ⟨hrun, hstep⟩ := h.split us t vs hts
  have hcached := cached_of_run hrun
  rw [outputs_snoc]
  cases hevent : t.event with
  | verify token =>
      rw [hevent] at hstep
      obtain ⟨-, hout⟩ := verify_of_step hstep
      rw [hout] at hdecoded
      cases hdecoded
  | look j look wall =>
      rw [hevent] at hstep
      obtain ⟨⟨hnow, -, -⟩, -, forceRefresh, got, touts, more, hlooked, hout, -, hmore⟩ :=
        lookStep_of_step hstep
      rw [hout, List.mem_append] at hdecoded
      have hmem := hdecoded.resolve_left (not_decoded_of_looked hlooked i token certs)
      rcases hmore with rfl | ⟨name, set, rfl, rfl⟩
      · cases hmem
      · cases List.mem_singleton.mp hmem
        rw [hout, ← List.append_assoc]
        exact (sourced_of_looked hcached hnow hlooked).more _

end Freshness

/-- In every run of calls to the verifier in which no forced fetch raises, the forced
    fetches are a cooldown apart; and in every run each token is decoded with
    certificates that the call has fetched, or that had been fetched not more than
    the time-to-live before it looked them up. -/
theorem refetches_spaced (tables : Casing) (jwt : Jwt) (verifier : IdTokenVerifier)
    (config : CertsConfig) (clock : ℚ) (ts : List (Taken World Action Output)) (w : World)
    (h : Run (World.step tables jwt verifier config) (World.start clock) ts w) :
    ((∀ t ∈ ts, ¬ Fails t.before t.event) →
      (forcedTimes (outputs ts)).Pairwise (fun a b => a + config.forcedCooldown ≤ b)) ∧
    Fresh config ts :=
  ⟨fun hcalm => (spaced_of_run h hcalm).apart, fresh_of_run h⟩

section Rogue

def minuteConfig : CertsConfig := ⟨3600, 30⟩

def rogueVerifier : IdTokenVerifier :=
  ⟨"tech-screen", "https://securetoken.google.com/tech-screen", "n-ix.com"⟩

/-- The library on a token that is signed with a key of nobody's. -/
def rogueJwt : Jwt where
  decodeHeader _ := some (Dict.ofList [("alg", .str "RS256"), ("kid", .str "rogue-kid")])
  decode _ _ _ _ _ := none

def googleCerts : Certs := Dict.ofList [("test-kid", "-----BEGIN CERTIFICATE-----")]

/-- A look-up at one instant. -/
def lookAt (i : Nat) (now : ℚ) (fetched : Option Certs) : Action :=
  .look i ⟨now, now, now, fetched⟩ 0

/-- Two calls with the token, half a minute and a second apart. -/
def apartCalls : List Action :=
  [.verify "rogue", lookAt 0 1000 (some googleCerts), lookAt 0 1000 (some googleCerts),
    .verify "rogue", lookAt 1 1031 (some googleCerts), lookAt 1 1031 (some googleCerts)]

/-- Two calls at one instant, while the endpoint answers the first time only. -/
def failingCalls : List Action :=
  [.verify "rogue", lookAt 0 1000 (some googleCerts), lookAt 0 1000 none,
    .verify "rogue", lookAt 1 1000 none, lookAt 1 1000 none]

theorem refetches_spaced_apart : ∃ ts w,
    Run (World.step asciiCasing rogueJwt rogueVerifier minuteConfig) (World.start 0) ts w ∧
    forcedTimes (outputs ts) = [1000, 1031] ∧
    (forcedTimes (outputs ts)).Pairwise (fun a b => a + minuteConfig.forcedCooldown ≤ b) ∧
    Fresh minuteConfig ts := by
  have hrec : (record (World.step asciiCasing rogueJwt rogueVerifier minuteConfig)
      (World.start 0) apartCalls).map (fun r =>
        (forcedTimes (outputs r.1), r.1.all (fun t => ¬ Fails t.before t.event)))
      = .ok ([1000, 1031], true) := by decide +kernel
  obtain ⟨ts, w, hrun, hproj⟩ := exists_run_of_record _ _ _ _ _ hrec
  obtain ⟨htimes, hcalm⟩ := Prod.mk.inj hproj
  obtain ⟨hspaced, hfresh⟩ := refetches_spaced _ _ _ _ _ ts w hrun
  refine ⟨ts, w, hrun, htimes, hspaced (fun t ht => ?_), hfresh⟩
  exact of_decide_eq_true (List.all_eq_true.mp hcalm t ht)

/-- A fetch for an unknown key id that raises is followed by another at once. -/
theorem raising_refetch : ∃ ts w,
    Run (World.step asciiCasing rogueJwt rogueVerifier minuteConfig) (World.start 0) ts w ∧
    ¬ (forcedTimes (outputs ts)).Pairwise (fun a b => a + minuteConfig.forcedCooldown ≤ b) := by
  have hrec : (record (World.step asciiCasing rogueJwt rogueVerifier minuteConfig)
      (World.start 0) failingCalls).map (fun r => forcedTimes (outputs r.1))
      = .ok [1000, 1000] := by decide +kernel
  obtain ⟨ts, w, hrun, htimes⟩ := exists_run_of_record _ _ _ _ _ hrec
  refine ⟨ts, w, hrun, ?_⟩
  rw [htimes]
  decide +kernel

end Rogue

end TechScreen.Access
