import TechScreen.Orchestrator.Persistence

/-!
# The Imperative Shell

The service that runs one interview session against the database and the
agents. Everything it does in one `post_turn` call, in one scheduled assessor
task or in the creation of the session is a task, and a task is a sequence of
small steps: one read of the session row, one write of it, one executed
command, one awaited agent call, or one piece of work on the task's own copy of
the row. Between two steps of a task any other task may take steps, and a new
request may arrive.

The session row holds the state and the transcript. The column holds the state
as a document; `load_document` says that decoding it gives the state back, so the
row is kept here in its decoded form.
A load is two reads, as the two `SELECT`s of the source see the row at two
moments; a persist is one write, as it is one transaction.

What the service does not decide is left to the environment: the time, how an
agent call ends, and which task moves next. Log lines, hashes and the views
returned to the caller have no part in this.

## Main definitions

* `TranscriptEntry`, `Working`: The session row, and a task's copy of it.
* `DevSession`: What the service is built with.
* `ShellTask`: Where a task stands.
* `executeOne`: Executing one command.
* `taskStep`: The next step of a task.
* `World`, `Choice`, `shellStep`: The service with all of its tasks.
* `created`: A session that has just been created.
-/

namespace TechScreen

open Lib

/-- Safety valve on the event/command loop. -/
def maxDriveSteps : Nat := 64

/-- The interviewer prompt caps `recent_turns` at the last 8 exchanges. -/
def recentTurnsMax : Nat := 8

/-- The assessor prompt asks for the last four exchanges. -/
def priorTurnsMax : Nat := 4

inductive TranscriptRole where
  | interviewer
  | candidate
  | system
  deriving DecidableEq

/-- One chronological message in the chat log. -/
structure TranscriptEntry where
  role : TranscriptRole
  text : String
  turnId : Option Uuid
  deriving DecidableEq

/-- The machine state and the transcript: the session row, and the in-flight
    view that a task has of it. -/
@[ext]
structure Working where
  state : SessionState
  transcript : List TranscriptEntry := []

def Working.append (w : Working) (entries : List TranscriptEntry) : Working :=
  { w with transcript := w.transcript ++ entries }

/-- What the service is built with, for one session. The scripts are files of
    the repository that are read and filled in when they are needed. -/
structure DevSession where
  config : OrchestratorConfig
  sessionId : Uuid
  renderScript : String → List (String × String) → String

/-- A deterministic id for the `ordinal`-th candidate turn. -/
def candidateTurnId (sessionId : Uuid) (ordinal : Nat) : Uuid :=
  uuid5 sessionId ("candidate-turn/" ++ toString ordinal)

inductive ShellError where
  | notAwaitingCandidate (message : String)
  | runaway (message : String)
  | orchestrator (error : OrchestratorError)
  | agentRaised
  deriving DecidableEq

section Inputs

/-- The last `n` elements. -/
def lastN {α : Type} (n : Nat) (l : List α) : List α := l.drop (l.length - n)

/-- What the interviewer wrapper is called with. -/
structure InterviewerTurnInputs where
  sessionId : Uuid
  interviewPlanSnapshot : Json
  currentCompetency : Json
  recentTurns : List (TranscriptRole × String)
  nextPlannedMove : InterviewerMove
  moveContext : Dict String Json

/-- What the assessor wrapper is called with. -/
structure AssessorTurnInput where
  sessionId : Uuid
  turnId : Uuid
  competencyFocus : String
  question : String
  answer : String
  priorTurns : List (TranscriptRole × String)
  deriving DecidableEq

variable (svc : DevSession)

/-- Placeholders for the candidate-facing scripts. -/
def scriptVariables (s : SessionState) : List (String × String) :=
  [("FirstName", "колего"),
    ("Area", match s.plan with
      | some plan => plan.firstCompetency.labelUk
      | none => "технічне інтерв'ю"),
    ("ExpectedMinutes", match s.plan with
      | some plan => toString plan.sessionMaxMinutes
      | none => "30")]

/-- The planned competency with a node id. -/
def competencyOf (s : SessionState) (nodeId : Option String) : Option PlannedCompetency :=
  match nodeId, s.plan with
  | some node, some plan => plan.competencies.find? (fun c => c.nodeId.val = node)
  | _, _ => none

/-- The last exchanges as the interviewer prompt consumes them: the scripts are
    interviewer speech. -/
def recentTurns (transcript : List TranscriptEntry) : List (TranscriptRole × String) :=
  (lastN recentTurnsMax (transcript.filter (fun entry => entry.text ≠ ""))).map
    (fun entry => (if entry.role = .candidate then .candidate else .interviewer, entry.text))

def interviewerInputs [Scalars] (w : Working) (command : RunInterviewer) :
    InterviewerTurnInputs where
  sessionId := svc.sessionId
  interviewPlanSnapshot := match w.state.plan with
    | some plan => plan.planPayload
    | none => .obj []
  currentCompetency := match competencyOf w.state command.competencyNodeId with
    | some c => c.dump
    | none => .obj []
  recentTurns := recentTurns w.transcript
  nextPlannedMove := command.move
  moveContext := command.moveContext

/-- The last text of the entries that pass a test, or nothing. -/
def lastText (p : TranscriptEntry → Bool) (entries : List TranscriptEntry) : String :=
  match entries.reverse.find? p with
  | some entry => entry.text
  | none => ""

def assessorInputs (w : Working) (command : RunAssessor) : AssessorTurnInput :=
  let exchanges := w.transcript.filter (fun entry => entry.text ≠ "")
  { sessionId := svc.sessionId
    turnId := command.turnId
    competencyFocus := command.competencyFocus
    question := lastText (fun entry => entry.role ≠ .candidate) exchanges.dropLast
    answer := lastText (fun entry => entry.role = .candidate) exchanges
    priorTurns := (lastN priorTurnsMax exchanges.dropLast.dropLast).map
      (fun entry => (entry.role, entry.text)) }

end Inputs

section AgentCalls

/-- How an awaited agent call ends: the cost guard refuses it, the wrapper gives
    up with one of its two kinds of error, it returns, or anything else is
    raised. -/
inductive CallOutcome (α : Type) where
  | budgetExceeded
  | outputInvalid
  | wrapperError (kind : String)
  | output (value : α)
  | raised
  deriving DecidableEq

/-- Whether the wrapper is called at all. -/
def CallOutcome.called {α : Type} : CallOutcome α → Bool
  | .budgetExceeded => false
  | _ => true

/-- What the environment supplies to a step. -/
structure Oracle where
  now : Instant
  interviewer : CallOutcome InterviewerOutput
  assessor : CallOutcome AssessorOutput

/-- The event that an interviewer call becomes. -/
def runInterviewer (o : Oracle) (command : RunInterviewer) : Except ShellError Event :=
  match o.interviewer with
  | .budgetExceeded => .ok (.operatorAbort .costCeiling o.now)
  | .outputInvalid => .ok (.interviewerFailed command.turnId "interviewer_output_invalid" o.now)
  | .wrapperError kind => .ok (.interviewerFailed command.turnId kind o.now)
  | .output value => .ok (.interviewerReplyReady command.turnId value o.now)
  | .raised => .error .agentRaised

/-- The event that an assessor call becomes. -/
def runAssessor (o : Oracle) (command : RunAssessor) : Except ShellError Event :=
  match o.assessor with
  | .budgetExceeded => .ok (.operatorAbort .costCeiling o.now)
  | .outputInvalid => .ok (.assessmentFailed command.turnId "assessor_output_invalid" o.now)
  | .wrapperError kind => .ok (.assessmentFailed command.turnId kind o.now)
  | .output value => .ok (.assessmentCompleted command.turnId value o.now)
  | .raised => .error .agentRaised

end AgentCalls

section Tasks

/-- What a task does with the row once it is loaded. -/
inductive Errand where
  | postTurn (text : String)
  | feed (event : Event)

/-- A drive loop in flight. -/
structure Drive where
  working : Working
  queue : List Event
  steps : Nat

/-- The loop goes on with the follow-ups of the last event. -/
def Drive.resume (d : Drive) (followUps : List Event) : Drive :=
  { d with queue := d.queue ++ followUps }

/-- Where a task stands: what its next step will do. -/
inductive ShellTask where
  | assess (command : RunAssessor) (inputs : AssessorTurnInput)
  | load (errand : Errand)
  | loadTranscript (errand : Errand) (state : SessionState)
  | drive (d : Drive)
  | persist (d : Drive) (event : Event) (commands : List Command)
  | execute (d : Drive) (mark : Nat) (commands : List Command) (followUps : List Event)
  | save (d : Drive) (mark : Nat) (followUps : List Event)
  | done
  | failed (error : ShellError)

/-- What is observed of a step: an event that was accepted, as the state it led
    to has been persisted, with the commands it asks for, and the agent calls. -/
inductive Effect where
  | accepted (event : Event) (commands : List Command)
  | interviewerCalled (command : RunInterviewer) (inputs : InterviewerTurnInputs)
  | assessorCalled (command : RunAssessor) (inputs : AssessorTurnInput)

/-- What the execution of one command amounts to. -/
structure Performed where
  entries : List TranscriptEntry := []
  followUps : List Event := []
  spawned : List ShellTask := []
  decisions : List String := []

variable (svc : DevSession)

/-- The transcript entry of a scripted string. -/
def scriptEntry (s : SessionState) (path : String) (turnId : Uuid) : TranscriptEntry :=
  ⟨.system, svc.renderScript path (scriptVariables s), some turnId⟩

def DecisionReason.value : DecisionReason → String
  | .planInvalid => "plan_invalid"
  | .agentFailure => "agent_failure"
  | .timeout => "timeout"
  | .operator => "operator"
  | .completed => "completed"

/-- The reason in the `session_decision` row: for an abort by the operator path
    the state's own reason. -/
def recordedReason (s : SessionState) (command : RecordDecision) : String :=
  match command.reason, s.abortReason with
  | .operator, some reason => reason.value
  | reason, _ => reason.value

/-- Execute one of the outbound commands that a resume may re-issue. -/
def executePending [Scalars] (w : Working) (o : Oracle) :
    PendingCommand → Except ShellError Performed
  | .emitScriptedOpening c => .ok { entries := [scriptEntry svc w.state c.scriptPath c.turnId] }
  | .emitScriptedClosing c =>
      -- The closing is the last thing the candidate reads; a tick completes the session.
      .ok { entries := [scriptEntry svc w.state c.scriptPath c.turnId]
            followUps := [.timerTick o.now] }
  | .deliverUtterance c => .ok { entries := [⟨.interviewer, c.utterance, some c.turnId⟩] }
  | .runInterviewer c => (runInterviewer o c).map (fun event => { followUps := [event] })

/-- Execute a single command. -/
def executeOne [Scalars] (w : Working) (o : Oracle) : Command → Except ShellError Performed
  | .persistState => .ok {}
  | .emitScriptedOpening c => executePending svc w o (.emitScriptedOpening c)
  | .emitScriptedClosing c => executePending svc w o (.emitScriptedClosing c)
  | .deliverUtterance c => executePending svc w o (.deliverUtterance c)
  | .runInterviewer c => executePending svc w o (.runInterviewer c)
  | .runAssessor c => .ok { spawned := [.assess c (assessorInputs svc w c)] }
  | .reissuePendingCommand c => executePending svc w o c
  | .recordDecision c => .ok { decisions := [recordedReason w.state c] }
  | .recordGap _ => .ok {}
  | .flagTurnDegraded _ => .ok {}
  | .endSession => .ok {}

/-- The interviewer call that a command asks for. -/
def Command.call? : Command → Option RunInterviewer
  | .runInterviewer c => some c
  | .reissuePendingCommand (.runInterviewer c) => some c
  | _ => none

/-- The interviewer call that is made when a command is executed. -/
def callsMade [Scalars] (w : Working) (o : Oracle) (command : Command) : List Effect :=
  match command.call? with
  | some c =>
      if o.interviewer.called then [.interviewerCalled c (interviewerInputs svc w c)] else []
  | none => []

/-- A loaded row is given to its errand. A candidate turn is refused when the
    session is terminal or a move is in flight. -/
def admitErrand (w : Working) (o : Oracle) : Errand → ShellTask
  | .feed event => .drive ⟨w, [event], 0⟩
  | .postTurn text =>
      if w.state.phase ∈ terminalPhases then
        .failed (.notAwaitingCandidate ("session " ++ svc.sessionId.text ++ " is terminal"))
      else if w.state.phase ≠ .intro ∧ w.state.awaiting ≠ some .candidate then
        .failed (.notAwaitingCandidate
          ("session " ++ svc.sessionId.text ++ " is not awaiting a candidate turn"))
      else
        let ordinal := w.transcript.countP (fun entry => entry.role = .candidate)
        let turnId := candidateTurnId svc.sessionId ordinal
        .drive ⟨w.append [⟨.candidate, text, some turnId⟩],
          [.candidateTurnReceived turnId text o.now], 0⟩

/-- The top of the drive loop: the next event is applied to the task's copy. -/
def nextEvent [Scalars] (d : Drive) : ShellTask :=
  match d.queue with
  | [] => .done
  | event :: queue =>
      if d.steps + 1 > maxDriveSteps then
        .failed (.runaway ("session " ++ svc.sessionId.text ++ ": more than "
          ++ toString maxDriveSteps
          ++ " events in one turn — the shell and the machine disagree"))
      else
        match transition d.working.state event svc.config with
        | .error error => .failed (.orchestrator error)
        | .ok result =>
            .persist ⟨{ d.working with state := result.newState }, queue, d.steps + 1⟩ event
              result.commands

/-- The database and the task after a step, with the tasks it has scheduled. -/
structure Progress where
  row : Working
  task : ShellTask
  spawned : List ShellTask := []
  decisions : List String := []
  effects : List Effect := []

/-- The next step of a task, or `none` when it is over. -/
def taskStep [Scalars] (row : Working) (o : Oracle) : ShellTask → Option Progress
  | .assess command inputs =>
      match runAssessor o command with
      | .error error => some
          { row := row, task := .failed error, effects := [.assessorCalled command inputs] }
      | .ok event => some
          { row := row, task := .load (.feed event)
            effects := if o.assessor.called then [.assessorCalled command inputs] else [] }
  | .load errand => some { row := row, task := .loadTranscript errand row.state }
  | .loadTranscript errand state =>
      some { row := row, task := admitErrand svc ⟨state, row.transcript⟩ o errand }
  | .drive d => some { row := row, task := nextEvent svc d }
  | .persist d event commands => some
      { row := d.working, task := .execute d d.working.transcript.length commands []
        effects := [.accepted event commands] }
  | .execute d mark [] followUps =>
      -- A delivered utterance or script is a durable effect too.
      if d.working.transcript.length ≠ mark then
        some { row := row, task := .save d mark followUps }
      else some { row := row, task := .drive (d.resume followUps) }
  | .execute d mark (command :: commands) followUps =>
      match executeOne svc d.working o command with
      | .error error => some
          { row := row, task := .failed error, effects := callsMade svc d.working o command }
      | .ok performed => some
          { row := row
            task := .execute { d with working := d.working.append performed.entries } mark commands
              (followUps ++ performed.followUps)
            spawned := performed.spawned
            decisions := performed.decisions
            effects := callsMade svc d.working o command }
  | .save d _ followUps => some { row := d.working, task := .drive (d.resume followUps) }
  | .done => none
  | .failed _ => none

end Tasks

section Service

/-- The session's rows in the database and the tasks of the service. -/
structure World where
  row : Working
  decisions : List String := []
  tasks : List ShellTask

/-- What happens next: a request arrives, or a task takes its next step. -/
inductive Choice where
  | post (text : String)
  | run (task : Nat) (o : Oracle)

inductive Blocked where
  | noTask
  | taskOver
  deriving DecidableEq

variable (svc : DevSession)

/-- The service takes one step. -/
def shellStep [Scalars] : Step World Choice Effect Blocked
  | w, .post text => .ok ({ w with tasks := w.tasks ++ [.load (.postTurn text)] }, [])
  | w, .run i o =>
      match w.tasks[i]? with
      | none => .error .noTask
      | some task =>
          match taskStep svc w.row o task with
          | none => .error .taskOver
          | some p => .ok
              ({ row := p.row
                 decisions := w.decisions ++ p.decisions
                 tasks := w.tasks.set i p.task ++ p.spawned }, p.effects)

/-- A session whose row has just been inserted and persisted: its creation goes
    on with the session start. -/
def created (planInput : Dict String Json) (now : Instant) : World :=
  let start : Working := { state := initialState svc.sessionId planInput svc.config }
  { row := start, tasks := [.drive ⟨start, [.sessionStarted now], 0⟩] }

/-- The task is over. -/
def ShellTask.over : ShellTask → Bool
  | .done => true
  | .failed _ => true
  | _ => false

/-- Every call and every task has finished. -/
def World.settled (w : World) : Prop := ∀ task ∈ w.tasks, task.over = true

end Service

end TechScreen
