import TechScreen.Agents.UserPayload
import TechScreen.Lib.JsonSize

/-!
# How Long the Payloads Are

What the two agents are sent and how long it is. The interviewer's inputs are written
with sorted keys, the assessor's in their order. The length is a sum over the inputs: a
constant for what is always there, and what each input is written with, where a
character that JSON escapes counts for what stands for it.

## Main definitions

* `serializeUserPayload`: What the interviewer is sent.
* `interviewerSize`, `assessorSize`: The sums.

## Theorems

* `length_serializeUserPayload`: How long the interviewer's payload is.
* `length_toUserPayload`: How long the assessor's payload is.
-/

namespace TechScreen.Agents

open Lib Lib.JsonText Lib.Dumps

section Writing

/-- An object of texts. -/
def textsTree (texts : List (String × String)) : Tree :=
  .obj (texts.map (fun t => (t.1.toList, .str t.2.toList)))

def turnTree (turn : TranscriptRole × String) : Tree :=
  textsTree [("role", roleText turn.1), ("text", turn.2)]

variable (repr : ℚ → Literal)

mutual

/-- The tree of a JSON value, with what `repr` gives for a float. An integer is written
    however long it is: one that is not converted is refused when the plan is stored. -/
def treeOf : Json → Tree
  | .null => .null
  | .bool b => .bool b
  | .int n => .number ⟨numeral n, isNumber_numeral n⟩
  | .float q => .number (repr q)
  | .str s => .str s.toList
  | .arr items => .arr (treesOf items)
  | .obj fields => .obj (membersOf fields)

def treesOf : List Json → List Tree
  | [] => []
  | item :: items => treeOf item :: treesOf items

def membersOf : List (String × Json) → List (List Char × Tree)
  | [] => []
  | (key, value) :: fields => (key.toList, treeOf value) :: membersOf fields

end

/-- The inputs without the session, whose candidate has no name yet. -/
def interviewerTree (inputs : InterviewerTurnInputs) : Tree :=
  .obj [("interview_plan_snapshot".toList, treeOf repr inputs.interviewPlanSnapshot),
    ("current_competency".toList, treeOf repr inputs.currentCompetency),
    ("recent_turns".toList, .arr (inputs.recentTurns.map turnTree)),
    ("next_planned_move".toList, .str inputs.nextPlannedMove.value.toList),
    ("move_context".toList, treeOf repr (.obj inputs.moveContext.entries)),
    ("candidate_first_name".toList, .null)]

/-- `_serialize_user_payload`. -/
def serializeUserPayload (inputs : InterviewerTurnInputs) : String :=
  String.ofList (interviewerTree repr inputs).sortKeys.render

/-- What the shell's inputs of an assessor call are written as. -/
def assessorTree (inputs : TechScreen.AssessorTurnInput) : Tree :=
  .obj [("rubric_snapshot_subset".toList, .arr []),
    ("turn".toList, textsTree [("question", inputs.question), ("answer", inputs.answer)]),
    ("prior_turns".toList, .arr (inputs.priorTurns.map turnTree)),
    ("competency_focus".toList, .str inputs.competencyFocus.toList),
    ("turn_metadata".toList, textsTree [("turn_id", inputs.turnId.text),
      ("session_id", inputs.sessionId.text)])]

end Writing

section Sums

/-- How long a text is written, with its quotes. -/
def writtenSize (text : String) : Nat := quotedSize text.toList

/-- How long turns are written, with what is between them. -/
def turnsSize (turns : List (TranscriptRole × String)) : Nat :=
  (turns.map (fun t => 22 + writtenSize (roleText t.1) + writtenSize t.2)).sum - 2

/-- How long the interviewer's inputs are written. -/
def interviewerSize (repr : ℚ → Literal) (inputs : InterviewerTurnInputs) : Nat :=
  144 + (treeOf repr inputs.interviewPlanSnapshot).size +
    (treeOf repr inputs.currentCompetency).size +
    (treeOf repr (.obj inputs.moveContext.entries)).size +
    writtenSize inputs.nextPlannedMove.value + turnsSize inputs.recentTurns

/-- How long the assessor's inputs are written. -/
def assessorSize (inputs : TechScreen.AssessorTurnInput) : Nat :=
  155 + writtenSize inputs.question + writtenSize inputs.answer + turnsSize inputs.priorTurns +
    writtenSize inputs.competencyFocus + writtenSize inputs.turnId.text +
    writtenSize inputs.sessionId.text

theorem sizeItems_turns (turns : List (TranscriptRole × String)) :
    sizeItems (turns.map turnTree) - 2 = turnsSize turns := by
  have hturn (t : TranscriptRole × String) :
      (turnTree t).size + 2 = 22 + writtenSize (roleText t.1) + writtenSize t.2 := by
    have hrole : quotedSize "role".toList = 6 := rfl
    have htext : quotedSize "text".toList = 6 := rfl
    simp only [turnTree, textsTree, List.map_cons, List.map_nil, Tree.size, sizeMembers,
      writtenSize, hrole, htext]
    omega
  rw [sizeItems_eq, List.map_map, turnsSize]
  simp only [Function.comp_def, hturn]

theorem size_interviewerTree (repr : ℚ → Literal) (inputs : InterviewerTurnInputs) :
    (interviewerTree repr inputs).size = interviewerSize repr inputs := by
  have hplan : quotedSize "interview_plan_snapshot".toList = 25 := rfl
  have hcompetency : quotedSize "current_competency".toList = 20 := rfl
  have hrecent : quotedSize "recent_turns".toList = 14 := rfl
  have hmove : quotedSize "next_planned_move".toList = 19 := rfl
  have hcontext : quotedSize "move_context".toList = 14 := rfl
  have hname : quotedSize "candidate_first_name".toList = 22 := rfl
  have hturns := sizeItems_turns inputs.recentTurns
  rw [interviewerTree, Tree.size, interviewerSize, writtenSize]
  simp only [sizeMembers, hplan, hcompetency, hrecent, hmove, hcontext, hname]
  rw [Tree.size.eq_def (.arr _), Tree.size.eq_def (.str _), Tree.size.eq_def .null]
  dsimp only
  omega

/-- How long the interviewer's payload is. -/
theorem length_serializeUserPayload (repr : ℚ → Literal) (inputs : InterviewerTurnInputs) :
    (serializeUserPayload repr inputs).length = interviewerSize repr inputs := by
  rw [serializeUserPayload, String.length_ofList, length_render, size_sortKeys,
    size_interviewerTree]

theorem size_assessorTree (inputs : TechScreen.AssessorTurnInput) :
    (assessorTree inputs).size = assessorSize inputs := by
  have hrubric : quotedSize "rubric_snapshot_subset".toList = 24 := rfl
  have hturn : quotedSize "turn".toList = 6 := rfl
  have hprior : quotedSize "prior_turns".toList = 13 := rfl
  have hfocus : quotedSize "competency_focus".toList = 18 := rfl
  have hmetadata : quotedSize "turn_metadata".toList = 15 := rfl
  have hquestion : quotedSize "question".toList = 10 := rfl
  have hanswer : quotedSize "answer".toList = 8 := rfl
  have hid : quotedSize "turn_id".toList = 9 := rfl
  have hsession : quotedSize "session_id".toList = 12 := rfl
  have hturns := sizeItems_turns inputs.priorTurns
  simp only [assessorTree, textsTree, List.map_cons, List.map_nil, Tree.size, sizeMembers,
    sizeItems, hrubric, hturn, hprior, hfocus, hmetadata, hquestion, hanswer, hid, hsession,
    assessorSize, writtenSize]
  omega

theorem encodeItems_turns (turns : List (TranscriptRole × String)) (room : Nat) :
    encodeItems ((turns.map (fun t => ofTexts [("role", roleText t.1), ("text", t.2)])).map
      ofDict) (room + 1) = .ok (turns.map turnTree) := by
  induction turns with
  | nil => rfl
  | cons t turns ih =>
      have hturn : encode (ofDict (ofTexts [("role", roleText t.1), ("text", t.2)])) (room + 1) =
          .ok (turnTree t) := rfl
      rw [List.map_cons, List.map_cons, encodeItems, hturn, ih]
      rfl

/-- What the shell asks for is written in three levels. -/
theorem encode_shell (inputs : TechScreen.AssessorTurnInput) (h : inputs.competencyFocus ≠ "")
    {room : Nat} (hroom : 3 ≤ room) :
    encode (ofShell inputs h).payload room = .ok (assessorTree inputs) := by
  obtain ⟨rest, rfl⟩ := Nat.exists_eq_add_of_le' hroom
  have hturn : encode (ofDict (ofShell inputs h).turn) (rest + 2) =
      .ok (textsTree [("question", inputs.question), ("answer", inputs.answer)]) := rfl
  have hmetadata : encode (ofDict (ofShell inputs h).metadata) (rest + 2) =
      .ok (textsTree [("turn_id", inputs.turnId.text), ("session_id", inputs.sessionId.text)]) :=
    rfl
  have hprior : encodeItems ((ofShell inputs h).priorTurns.map ofDict) (rest + 1) =
      .ok (inputs.priorTurns.map turnTree) := encodeItems_turns inputs.priorTurns rest
  rw [AssessorTurnInput.payload, encode, entered_succ]
  simp only [encodeEntries, encodeKey, encode, entered_succ, hturn, hmetadata, hprior, bind,
    Except.bind, Except.map]
  rfl

/-- How long the assessor's payload is. -/
theorem length_toUserPayload (inputs : TechScreen.AssessorTurnInput)
    (h : inputs.competencyFocus ≠ "") {room : Nat} (hroom : 3 ≤ room) {text : String}
    (htext : (ofShell inputs h).toUserPayload room = .ok text) :
    text.length = assessorSize inputs := by
  rw [AssessorTurnInput.toUserPayload, dumps, encode_shell inputs h hroom] at htext
  have hsame : String.ofList (assessorTree inputs).render = text := Except.ok.inj htext
  rw [← hsame, String.length_ofList, length_render, size_assessorTree]

end Sums

end TechScreen.Agents
