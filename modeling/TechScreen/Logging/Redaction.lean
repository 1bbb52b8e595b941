import TechScreen.Lib.Dict
import TechScreen.Lib.Pattern

/-!
# Redaction of Log Records

The step of the logging pipeline that scrubs candidate data from a record before
it is rendered: the values of certain keys are replaced as a whole, and what looks
like an e-mail address is replaced in the message.

A record that has been through it has no address left in its message, and going
through it again changes nothing. The replacement itself is no address, and its
brackets are in no character class of the pattern, so two pieces of a message that
an address has been taken out of do not make a new one.

What a word character is comes from the Unicode tables. All that matters of them is
that the brackets are none.

## Main definitions

* `WordClass`: What `\w` stands for.
* `emailPattern`: The pattern of an address.
* `piiRedactionProcessor`: The step of the pipeline.

## Theorems

* `walled_redactedEmail`: No address reaches over the replacement.
* `redaction_complete`: What the step does to a record.
-/

namespace TechScreen.Logging

open Lib

section Source

/-- What `\w` stands for: letters and digits of any script, and the underscore. -/
structure WordClass where
  isWord : Char → Bool
  lt_not : isWord '<' = false
  gt_not : isWord '>' = false

/-- A value of a record: a text, or any other object. -/
inductive Value (ω : Type) where
  | text (s : String)
  | other (x : ω)

/-- A record, `EventDict`. -/
abbrev EventDict (ω : Type) := Dict String (Value ω)

def piiFields : List String := ["candidate_email"]

def redactedValue : String := "<REDACTED>"

def redactedEmail : String := "<REDACTED_EMAIL>"

variable (word : WordClass) {ω : Type}

/-- `[\w.+%-]+@[\w.-]+\.[\w-]{2,}` -/
def emailPattern : Pattern Char where
  pieces := [
    .many 1 (fun c => word.isWord c || c == '.' || c == '+' || c == '%' || c == '-'),
    .one (fun c => c == '@'),
    .many 1 (fun c => word.isWord c || c == '.' || c == '-'),
    .one (fun c => c == '.'),
    .many 2 (fun c => word.isWord c || c == '-')]
  takes := rfl

/-- `_EMAIL_PATTERN.sub(_REDACTED_EMAIL, event)` -/
def redactEmails (event : String) : String :=
  String.ofList (substitute (emailPattern word) redactedEmail.toList event.toList)

/-- The values of the keys that are in the record, replaced. -/
def redactFields (eventDict : EventDict ω) : EventDict ω :=
  (piiFields.filter (fun key => (eventDict.get? key).isSome)).foldl
    (fun redacted key => redacted.set key (.text redactedValue)) eventDict

def piiRedactionProcessor (eventDict : EventDict ω) : EventDict ω :=
  let redacted := redactFields eventDict
  match redacted.get? "event" with
  | some (.text event) => redacted.set "event" (.text (redactEmails word event))
  | _ => redacted

end Source

section Addresses
variable (word : WordClass)

theorem foreign_of_bracket {c : Char} (hword : word.isWord c = false)
    (hc : c ∉ ['.', '+', '%', '-', '@']) : Foreign (emailPattern word) c := by
  simp only [List.mem_cons, List.not_mem_nil, or_false, not_or] at hc
  obtain ⟨hdot, hplus, hpercent, hhyphen, hat⟩ := hc
  intro piece hpiece
  simp only [emailPattern, List.mem_cons, List.not_mem_nil, or_false] at hpiece
  rcases hpiece with rfl | rfl | rfl | rfl | rfl <;>
    simp only [Piece.test, hword, beq_eq_false_iff_ne.mpr hdot, beq_eq_false_iff_ne.mpr hplus,
      beq_eq_false_iff_ne.mpr hpercent, beq_eq_false_iff_ne.mpr hhyphen,
      beq_eq_false_iff_ne.mpr hat, Bool.or_self]

/-- An address has an at sign. -/
theorem at_mem_of_matches {w : List Char} (h : Matches (emailPattern word).pieces w) :
    '@' ∈ w := by
  cases h with
  | many least test run hrun hleast h =>
      cases h with
      | one test c hc h =>
          rw [beq_iff_eq] at hc
          rw [hc]
          exact List.mem_append_right _ List.mem_cons_self

theorem free_of_no_at {s : List Char} (h : '@' ∉ s) : Free (emailPattern word) s :=
  fun _ hw hmatch => h (hw.subset (at_mem_of_matches word hmatch))

/-- No address reaches over the replacement. -/
theorem walled_redactedEmail : Walled (emailPattern word) redactedEmail.toList where
  walls := ⟨'<', "REDACTED_EMAIL".toList, '>', by decide,
    foreign_of_bracket word word.lt_not (by decide),
    foreign_of_bracket word word.gt_not (by decide), free_of_no_at word (by decide)⟩

theorem free_redactEmails (event : String) :
    Free (emailPattern word) (redactEmails word event).toList := by
  rw [redactEmails, String.toList_ofList]
  exact free_substitute (walled_redactedEmail word) event.toList

theorem redactEmails_of_free {event : String} (h : Free (emailPattern word) event.toList) :
    redactEmails word event = event := by
  rw [redactEmails, substitute_of_free h, String.ofList_toList]

end Addresses

section Records
variable {ω : Type}

theorem get?_foldl_redact (keys : List String) (d : EventDict ω) (key : String) :
    (keys.foldl (fun redacted key => redacted.set key (.text redactedValue)) d).get? key
      = if key ∈ keys then some (.text redactedValue) else d.get? key := by
  induction keys generalizing d with
  | nil => rfl
  | cons k keys ih =>
      rw [List.foldl_cons, ih, Dict.get?_set]
      by_cases hkey : key ∈ keys
      · rw [if_pos hkey, if_pos (List.mem_cons_of_mem k hkey)]
      · by_cases hk : key = k
        · rw [if_neg hkey, if_pos hk, if_pos (hk ▸ List.mem_cons_self)]
        · rw [if_neg hkey, if_neg hk, if_neg (fun hmem => (List.mem_cons.mp hmem).elim hk hkey)]

/-- What the keys hold after the replacement of whole values. -/
theorem get?_redactFields (d : EventDict ω) (key : String) :
    (redactFields d).get? key
      = if key ∈ piiFields ∧ (d.get? key).isSome = true then some (.text redactedValue)
        else d.get? key := by
  rw [redactFields, get?_foldl_redact]
  simp only [List.mem_filter]

theorem keys_foldl_redact {keys : List String} {d : EventDict ω} (h : ∀ key ∈ keys, key ∈ d.keys) :
    (keys.foldl (fun redacted key => redacted.set key (.text redactedValue)) d).keys = d.keys := by
  induction keys generalizing d with
  | nil => rfl
  | cons k keys ih =>
      have hkeys := Dict.keys_set_of_mem (.text redactedValue) (h k List.mem_cons_self)
      rw [List.foldl_cons, ih (fun key hkey => ?_), hkeys]
      rw [hkeys]
      exact h key (List.mem_cons_of_mem k hkey)

theorem keys_redactFields (d : EventDict ω) : (redactFields d).keys = d.keys := by
  refine keys_foldl_redact (fun key hkey => ?_)
  obtain ⟨v, hv⟩ := Option.isSome_iff_exists.mp (List.mem_filter.mp hkey).2
  exact Dict.mem_keys_of_get? hv

/-- Where the values have been replaced nothing is left to replace. -/
theorem redactFields_of_redacted {d : EventDict ω}
    (h : ∀ key ∈ piiFields, (d.get? key).isSome = true →
      d.get? key = some (.text redactedValue)) : redactFields d = d := by
  have hfold : ∀ keys : List String, (∀ key ∈ keys, d.get? key = some (.text redactedValue)) →
      keys.foldl (fun redacted key => redacted.set key (.text redactedValue)) d = d := by
    intro keys hkeys
    induction keys with
    | nil => rfl
    | cons k keys ih =>
        rw [List.foldl_cons, Dict.set_of_get? (hkeys k List.mem_cons_self)]
        exact ih (fun key hkey => hkeys key (List.mem_cons_of_mem k hkey))
  refine hfold _ (fun key hkey => ?_)
  obtain ⟨hfield, hpresent⟩ := List.mem_filter.mp hkey
  exact h key hfield hpresent

variable (word : WordClass)

/-- The message of a record is not replaced as a whole. -/
theorem get?_event (d : EventDict ω) : (redactFields d).get? "event" = d.get? "event" := by
  rw [get?_redactFields, if_neg (fun h => absurd h.1 (by decide))]

theorem process_of_text {d : EventDict ω} {event : String}
    (h : d.get? "event" = some (.text event)) :
    piiRedactionProcessor word d
      = (redactFields d).set "event" (.text (redactEmails word event)) := by
  unfold piiRedactionProcessor
  simp only [get?_event, h]

theorem process_of_no_text {d : EventDict ω} (h : ∀ event, d.get? "event" ≠ some (.text event)) :
    piiRedactionProcessor word d = redactFields d := by
  unfold piiRedactionProcessor
  dsimp only
  rw [get?_event]
  cases hevent : d.get? "event" with
  | none => rfl
  | some v =>
      cases v with
      | text event => exact absurd hevent (h event)
      | other x => rfl

/-- The step is about the fields and the message. -/
theorem get?_process (d : EventDict ω) {key : String} (hkey : key ≠ "event") :
    (piiRedactionProcessor word d).get? key = (redactFields d).get? key := by
  by_cases htext : ∃ event, d.get? "event" = some (.text event)
  · obtain ⟨event, hevent⟩ := htext
    rw [process_of_text word hevent, Dict.get?_set_of_ne _ _ _ _ hkey]
  · rw [process_of_no_text word (fun event hevent => htext ⟨event, hevent⟩)]

theorem keys_process (d : EventDict ω) : (piiRedactionProcessor word d).keys = d.keys := by
  by_cases htext : ∃ event, d.get? "event" = some (.text event)
  · obtain ⟨event, hevent⟩ := htext
    have hmem : "event" ∈ (redactFields d).keys := by
      rw [keys_redactFields]
      exact Dict.mem_keys_of_get? hevent
    rw [process_of_text word hevent, Dict.keys_set_of_mem _ hmem, keys_redactFields]
  · rw [process_of_no_text word (fun event hevent => htext ⟨event, hevent⟩), keys_redactFields]

/-- Nothing in the message looks like an address. -/
theorem free_event {d : EventDict ω} {event : String}
    (h : (piiRedactionProcessor word d).get? "event" = some (.text event)) :
    Free (emailPattern word) event.toList := by
  by_cases htext : ∃ before, d.get? "event" = some (.text before)
  · obtain ⟨before, hbefore⟩ := htext
    rw [process_of_text word hbefore, Dict.get?_set_self, Option.some.injEq, Value.text.injEq] at h
    rw [← h]
    exact free_redactEmails word before
  · rw [process_of_no_text word (fun before hbefore => htext ⟨before, hbefore⟩), get?_event] at h
    exact absurd ⟨event, h⟩ htext

theorem get?_process_field {d : EventDict ω} {key : String} (hkey : key ∈ piiFields)
    (hpresent : (d.get? key).isSome = true) :
    (piiRedactionProcessor word d).get? key = some (.text redactedValue) := by
  have hne : key ≠ "event" := by
    rintro rfl
    exact absurd hkey (by decide)
  rw [get?_process word d hne, get?_redactFields, if_pos ⟨hkey, hpresent⟩]

/-- Going through the step again changes nothing. -/
theorem process_idem (d : EventDict ω) :
    piiRedactionProcessor word (piiRedactionProcessor word d) = piiRedactionProcessor word d := by
  have hfields : redactFields (piiRedactionProcessor word d) = piiRedactionProcessor word d := by
    refine redactFields_of_redacted (fun key hkey hpresent => get?_process_field word hkey ?_)
    -- The step adds no key.
    obtain ⟨v, hv⟩ := Option.isSome_iff_exists.mp hpresent
    have hmem := Dict.mem_keys_of_get? hv
    rw [keys_process] at hmem
    exact Dict.isSome_get?_of_mem_keys hmem
  by_cases htext : ∃ event, (piiRedactionProcessor word d).get? "event" = some (.text event)
  · obtain ⟨event, hevent⟩ := htext
    rw [process_of_text word hevent, hfields,
      redactEmails_of_free word (free_event word hevent), Dict.set_of_get? hevent]
  · rw [process_of_no_text word (fun event hevent => htext ⟨event, hevent⟩), hfields]

end Records

/-- Of any record the step leaves no address in the message, replaces every field of
    candidate data that is there, leaves every other entry as it is and adds or drops
    no key; and going through it twice is going through it once. -/
theorem redaction_complete {ω : Type} (word : WordClass) (eventDict : EventDict ω) :
    (∀ event, (piiRedactionProcessor word eventDict).get? "event" = some (.text event) →
      ∀ address, address <:+: event.toList → ¬ Matches (emailPattern word).pieces address) ∧
    (∀ key ∈ piiFields, (eventDict.get? key).isSome = true →
      (piiRedactionProcessor word eventDict).get? key = some (.text redactedValue)) ∧
    (∀ key, key ∉ piiFields → (key ≠ "event" ∨ ∀ event, eventDict.get? key ≠ some (.text event)) →
      (piiRedactionProcessor word eventDict).get? key = eventDict.get? key) ∧
    (piiRedactionProcessor word eventDict).keys = eventDict.keys ∧
    piiRedactionProcessor word (piiRedactionProcessor word eventDict)
      = piiRedactionProcessor word eventDict := by
  refine ⟨fun event hevent => free_event word hevent,
    fun key hkey hpresent => get?_process_field word hkey hpresent, fun key hkey hother => ?_,
    keys_process word eventDict, process_idem word eventDict⟩
  have hfields : (redactFields eventDict).get? key = eventDict.get? key := by
    rw [get?_redactFields, if_neg (fun h => hkey h.1)]
  by_cases hevent : key = "event"
  · subst hevent
    rw [process_of_no_text word (hother.resolve_left (fun hne => hne rfl)), hfields]
  · rw [get?_process word eventDict hevent, hfields]

end TechScreen.Logging
