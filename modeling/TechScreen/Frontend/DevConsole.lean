import TechScreen.Frontend.PositionForm
import TechScreen.Services.Transcript

/-!
# The Dev Console

The page that drives an interview through the dev session API. It shows the
last view of its session, polls for newer ones, and lets the operator send a
candidate turn while the view says that a candidate is awaited.

The service has another test. It takes a turn while a candidate is awaited, and
also in the introduction, where the machine awaits the interviewer: the turn
that answers the opening is the one that gets the interview going. The page has
no such exception. So the first turn of a session is never the page's: until
another client has sent one, the session stays in its introduction.

The page, its requests and the service move in any order. An answer arrives when
it arrives or not at all, any number of requests are under way, and other
clients create sessions and send turns to all of them.

## Main definitions

* `SessionView`, `view`: What the API answers with.
* `Page`: What the browser keeps.
* `Request`: A request of the page, from its sending to its answer.
* `Dev`, `step`: The page, its requests and the service.
* `Untouched`: The invariant.

## Theorems

* `canSend_iff`: Where the tests of the page and of the service differ.
* `starts_of_taskStep`: What the creation of a session can do.
* `untouched_step`: Every event but a turn of another client keeps the invariant.
* `console_never_opens`: Sessions that no other client has sent a turn to.
-/

namespace TechScreen.Console

open Lib

section Views

/-- The phases of a view. -/
inductive ViewPhase where
  | intro
  | tech
  | qa
  | close
  | completed
  | aborted
  deriving DecidableEq

/-- A session that has not been started has no phase to show. -/
def viewPhases : Phase → Option ViewPhase
  | .created => none
  | .intro => some .intro
  | .tech => some .tech
  | .qa => some .qa
  | .close => some .close
  | .completed => some .completed
  | .aborted => some .aborted

structure SessionView where
  sessionId : Uuid
  phase : ViewPhase
  abortReason : Option AbortReason
  awaiting : Option Awaiting
  competencyIndex : Option Int
  coverage : Dict String CoverageCell
  flaggedForReview : Bool
  costUsdTotal : String
  transcript : List TranscriptEntry

/-- The view of a session, with the total that the ledger has for it. -/
def view (sessionId : Uuid) (w : Working) (total : String) : Except String SessionView :=
  match viewPhases w.state.phase with
  | none => .error ("session " ++ sessionId.text ++ " is still in " ++ w.state.phase.value ++
      " — the shell always runs SessionStarted at creation, so this state is unreachable")
  | some phase => .ok
      { sessionId := sessionId
        phase := phase
        abortReason := w.state.abortReason
        awaiting := w.state.awaiting
        competencyIndex :=
          if w.state.phase = .tech then some w.state.tech.competencyIndex else none
        coverage := w.state.tech.coverage
        flaggedForReview := w.state.flaggedForReview
        costUsdTotal := total
        transcript := w.transcript }

/-- A view shows its session, and whom that awaits. -/
theorem shown_of_view {sessionId : Uuid} {w : Working} {total : String} {v : SessionView}
    (h : view sessionId w total = .ok v) :
    v.sessionId = sessionId ∧ v.awaiting = w.state.awaiting ∧
      viewPhases w.state.phase = some v.phase := by
  unfold view at h
  cases hphase : viewPhases w.state.phase with
  | none =>
      rw [hphase] at h
      cases h
  | some phase =>
      rw [hphase] at h
      cases h
      exact ⟨rfl, rfl, rfl⟩

def terminalViewPhases : List ViewPhase := [.completed, .aborted]

def isTerminalPhase (phase : ViewPhase) : Bool := decide (phase ∈ terminalViewPhases)

theorem isTerminalPhase_iff {phase : Phase} {shown : ViewPhase}
    (h : viewPhases phase = some shown) :
    isTerminalPhase shown = true ↔ phase ∈ terminalPhases := by
  cases phase <;> cases h <;> decide

end Views

section Pages

/-- Why a request failed, as the page sees it. -/
inductive Failure where
  | status (code : Nat)
  | network
  deriving DecidableEq

/-- What the browser keeps: the session of the page, the views by session, which
    mutations are pending and how the requests failed. -/
structure Page where
  sessionId : Option Uuid := none
  cache : Dict Uuid SessionView := .empty
  creating : Bool := false
  sending : Bool := false
  createError : Option Failure := none
  queryError : Option Failure := none
  turnError : Option Failure := none

/-- The view on the page. -/
def Page.view (p : Page) : Option SessionView := p.sessionId.bind p.cache.get?

def isNotFound (error : Option Failure) : Bool := decide (error = some (.status 404))

/-- The API seems to be switched off: neither form is shown. -/
def Page.notFound (p : Page) : Bool :=
  isNotFound p.createError || isNotFound p.queryError || isNotFound p.turnError

/-- The plan form is shown and its button works. -/
def Page.canCreate (p : Page) : Bool := !p.notFound && p.view.isNone && !p.creating

/-- The composer takes a turn. -/
def canSend (v : SessionView) (isSending : Bool) : Bool :=
  decide (v.awaiting = some .candidate) && !isTerminalPhase v.phase && !isSending

/-- What the page asks of the API. -/
inductive Call where
  | create (plan : Dict String Json)
  | turn (sessionId : Uuid) (text : String)
  | view (sessionId : Uuid)

/-- The operator submits a plan. -/
def Page.handleCreate (p : Page) (plan : Dict String Json) : Page × List Call :=
  if p.canCreate then ({ p with creating := true, createError := none }, [.create plan])
  else (p, [])

/-- The operator submits a turn. -/
def Page.handleSubmit (p : Page) (text : String) : Page × List Call :=
  let value := Positions.trim text
  match p.sessionId, p.view with
  | some id, some v =>
      if p.notFound || !canSend v p.sending || decide (value = "") then (p, [])
      else ({ p with sending := true, turnError := none }, [.turn id value])
  | _, _ => (p, [])

/-- A poll: there is one whenever the page has a session. -/
def Page.poll (p : Page) : List Call :=
  match p.sessionId with
  | some id => [.view id]
  | none => []

/-- Where the browser keeps the view that a call is answered with. -/
def Call.key : Call → SessionView → Uuid
  | .view id, _ => id
  | _, v => v.sessionId

/-- An answer arrives. -/
def Page.receive (p : Page) (call : Call) (result : Except Failure SessionView) : Page :=
  match call, result with
  | .create _, .ok v =>
      { p with creating := false, cache := p.cache.set (call.key v) v
               sessionId := some v.sessionId }
  | .create _, .error failure => { p with creating := false, createError := some failure }
  | .turn _ _, .ok v => { p with sending := false, cache := p.cache.set (call.key v) v }
  | .turn _ _, .error failure => { p with sending := false, turnError := some failure }
  | .view _, .ok v => { p with queryError := none, cache := p.cache.set (call.key v) v }
  | .view _, .error failure => { p with queryError := some failure }

/-- What an answer changes in the browser's views. -/
theorem cache_receive (p : Page) (call : Call) (result : Except Failure SessionView) (id : Uuid)
    {v : SessionView} (h : (p.receive call result).cache.get? id = some v) :
    p.cache.get? id = some v ∨ result = .ok v ∧ call.key v = id := by
  cases result with
  | error failure => cases call <;> exact Or.inl h
  | ok shown =>
      have hset : (p.cache.set (call.key shown) shown).get? id = some v := by
        cases call <;> exact h
      rw [Dict.get?_set] at hset
      by_cases hkey : id = call.key shown
      · rw [if_pos hkey, Option.some.injEq] at hset
        subst hset
        exact Or.inr ⟨rfl, hkey.symm⟩
      · rw [if_neg hkey] at hset
        exact Or.inl hset

end Pages

section Requests

/-- How far a request has come: it is on its way, a task of a session works on it,
    one of the two reads of a view has been made, or it has been answered. -/
inductive Stage where
  | sent
  | task (sessionId : Uuid) (index : Nat)
  | read (state : SessionState)
  | answered (result : Except Nat SessionView)

structure Request where
  call : Call
  stage : Stage := .sent

/-- What a call comes to when its task takes a step: the copy of the row that the
    task ends with, or the status of the error that it ends with. -/
def finished (before after : ShellTask) : Option (Except Nat Working) :=
  match before, after with
  | .drive d, .done => some (.ok d.working)
  | _, .failed (.notAwaitingCandidate _) => some (.error 409)
  | _, .failed _ => some (.error 500)
  | _, _ => none

/-- The call was to create a session, and the machine has refused its plan. -/
def planRefused (w : Working) : Call → Bool
  | .create _ => decide (w.state.phase = .aborted ∧ w.state.plan.isNone)
  | _ => false

/-- The answer to a call, with the status of an error. -/
def answer (call : Call) (sessionId : Uuid) (total : String) :
    Except Nat Working → Except Nat SessionView
  | .error status => .error status
  | .ok w =>
      if planRefused w call then .error 422
      else
        match view sessionId w total with
        | .ok v => .ok v
        | .error _ => .error 500

theorem view_of_answer {call : Call} {sessionId : Uuid} {total : String}
    {result : Except Nat Working} {v : SessionView}
    (h : answer call sessionId total result = .ok v) :
    ∃ w, result = .ok w ∧ view sessionId w total = .ok v := by
  cases result with
  | error status => cases h
  | ok w =>
      refine ⟨w, rfl, ?_⟩
      unfold answer at h
      dsimp only at h
      by_cases hrefused : planRefused w call = true
      · rw [if_pos hrefused] at h
        cases h
      · rw [if_neg hrefused] at h
        cases hshown : view sessionId w total with
        | error message =>
            rw [hshown] at h
            cases h
        | ok shown =>
            rw [hshown] at h
            cases h
            rfl

/-- A call that succeeds is answered with the copy that its task has ended with. -/
theorem finished_ok {before after : ShellTask} {w : Working}
    (h : finished before after = some (.ok w)) : ∃ d, before = .drive d ∧ w = d.working := by
  unfold finished at h
  split at h
  · cases h
    exact ⟨_, rfl, rfl⟩
  · cases h
  · cases h
  · cases h

/-- The requests that wait for the task are answered when it ends. -/
def Request.settle (sessionId : Uuid) (index : Nat) (total : String)
    (result : Option (Except Nat Working)) (r : Request) : Request :=
  match r.stage, result with
  | .task id i, some outcome =>
      if id = sessionId ∧ i = index then
        { r with stage := .answered (answer r.call sessionId total outcome) }
      else r
  | _, _ => r

end Requests

section Runs

/-- What the service is built with, for all of its sessions. -/
structure Api where
  config : OrchestratorConfig
  renderScript : String → List (String × String) → String

/-- The service at work on one session. -/
def Api.session (api : Api) (id : Uuid) : DevSession :=
  ⟨api.config, id, api.renderScript⟩

/-- A candidate turn reaches a session. -/
def posted (w : World) (text : String) : World :=
  { w with tasks := w.tasks ++ [.load (.postTurn text)] }

/-- The page, its requests and the sessions of the service. -/
structure Dev where
  sessions : Dict Uuid World := .empty
  requests : List Request := []
  page : Page := {}

/-- What happens next. The operator acts or a poll is due; a request reaches the
    service, is turned away, is worked on, is answered or is lost; a task of a
    session takes a step; another client creates a session or sends a turn. -/
inductive Happening where
  | submitPlan (plan : Dict String Json)
  | submitTurn (text : String)
  | poll
  | arrive (request : Nat) (id : Uuid) (now : Instant)
  | refuse (request : Nat) (status : Nat)
  | read (request : Nat) (total : String)
  | run (id : Uuid) (task : Nat) (o : Oracle) (total : String)
  | deliver (request : Nat)
  | lose (request : Nat)
  | otherSession (id : Uuid) (plan : Dict String Json) (now : Instant)
  | otherTurn (id : Uuid) (text : String)

/-- What is observed: the page sends a turn to a session, and the effects of the
    service by session. -/
inductive Seen where
  | sent (id : Uuid) (text : String)
  | served (id : Uuid) (effect : Effect)

/-- An event for which there is no occasion. -/
inductive NoOccasion where
  | noOccasion
  deriving DecidableEq

/-- The turns among the calls that the page makes. -/
def sentBy (calls : List Call) : List Seen :=
  calls.filterMap (fun
    | .turn id text => some (.sent id text)
    | _ => none)

/-- The page makes calls. -/
def Dev.send (d : Dev) (out : Page × List Call) : Dev × List Seen :=
  ({ d with page := out.1, requests := d.requests ++ out.2.map (fun call => { call := call }) },
    sentBy out.2)

/-- A request that has been taken up goes on from this stage. -/
def Dev.put (d : Dev) (i : Nat) (r : Request) (stage : Stage) : Dev :=
  { d with requests := d.requests.set i { r with stage := stage } }

variable [Scalars] (api : Api)

/-- A request reaches its route. -/
def arrive (d : Dev) (i : Nat) (r : Request) (id : Uuid) (now : Instant) : Option Dev :=
  match r.call with
  | .create plan =>
      match d.sessions.get? id with
      | some _ => none
      | none => some
          { d.put i r (.task id 0) with
            sessions := d.sessions.set id (created (api.session id) plan now) }
  | .turn target text =>
      if text.length < 1 ∨ 8000 < text.length then some (d.put i r (.answered (.error 422)))
      else
        match d.sessions.get? target with
        | none => some (d.put i r (.answered (.error 404)))
        | some w => some
            { d.put i r (.task target w.tasks.length) with
              sessions := d.sessions.set target (posted w text) }
  | .view target =>
      match d.sessions.get? target with
      | none => some (d.put i r (.answered (.error 404)))
      | some w => some (d.put i r (.read w.row.state))

/-- The second read of a view, with which it is answered. -/
def readRow (d : Dev) (i : Nat) (r : Request) (total : String) : Option Dev :=
  match r.call, r.stage with
  | .view target, .read state =>
      (d.sessions.get? target).map (fun w =>
        d.put i r (.answered (answer r.call target total (.ok ⟨state, w.row.transcript⟩))))
  | _, _ => none

/-- A task of a session takes a step, and the request that waits for it is answered if
    that was the last one. -/
def runTask (d : Dev) (id : Uuid) (i : Nat) (o : Oracle) (total : String) :
    Option (Dev × List Seen) :=
  match d.sessions.get? id with
  | none => none
  | some w =>
      match shellStep (api.session id) w (.run i o) with
      | .error _ => none
      | .ok (w', out) =>
          let result := match w.tasks[i]?, w'.tasks[i]? with
            | some before, some after => finished before after
            | _, _ => none
          some ({ d with
            sessions := d.sessions.set id w'
            requests := d.requests.map (Request.settle id i total result) },
            out.map (.served id))

/-- The polls that are under way when a turn is answered are cancelled. -/
def Request.cancelled (call : Call) (result : Except Failure SessionView) (r : Request) : Bool :=
  match call, result, r.call with
  | .turn _ _, .ok v, .view id => decide (id = v.sessionId)
  | _, _, _ => false

/-- The page takes an answer, or gives a request up. -/
def Dev.receive (d : Dev) (i : Nat) (r : Request) (result : Except Failure SessionView) : Dev :=
  { d with
    page := d.page.receive r.call result
    requests := (d.requests.eraseIdx i).filter (fun q => !q.cancelled r.call result) }

/-- Something happens to the `i`-th request. -/
def onRequest (d : Dev) (i : Nat) (f : Request → Option Dev) :
    Except NoOccasion (Dev × List Seen) :=
  match d.requests[i]?.bind f with
  | some d' => .ok (d', [])
  | none => .error .noOccasion

/-- One event. -/
def step : Step Dev Happening Seen NoOccasion
  | d, .submitPlan plan => .ok (d.send (d.page.handleCreate plan))
  | d, .submitTurn text => .ok (d.send (d.page.handleSubmit text))
  | d, .poll => .ok (d.send (d.page, d.page.poll))
  | d, .arrive i id now => onRequest d i (fun r =>
      match r.stage with
      | .sent => arrive api d i r id now
      | _ => none)
  | d, .refuse i status => onRequest d i (fun r =>
      match r.stage with
      | .sent => some (d.put i r (.answered (.error status)))
      | _ => none)
  | d, .read i total => onRequest d i (fun r => readRow d i r total)
  | d, .run id i o total =>
      match runTask api d id i o total with
      | some result => .ok result
      | none => .error .noOccasion
  | d, .deliver i => onRequest d i (fun r =>
      match r.stage with
      | .answered result => some (d.receive i r (result.mapError .status))
      | _ => none)
  | d, .lose i => onRequest d i (fun r => some (d.receive i r (.error .network)))
  | d, .otherSession id plan now =>
      match d.sessions.get? id with
      | some _ => .error .noOccasion
      | none => .ok
          ({ d with sessions := d.sessions.set id (created (api.session id) plan now) }, [])
  | d, .otherTurn id text =>
      match d.sessions.get? id with
      | none => .error .noOccasion
      | some w => .ok ({ d with sessions := d.sessions.set id (posted w text) }, [])

end Runs

section Gates
variable {cfg : OrchestratorConfig}

/-- A state of a session that has not got beyond its introduction. -/
def StartingState (cfg : OrchestratorConfig) (s : SessionState) : Prop :=
  StateInv cfg s ∧ s.phase ∈ [.created, .intro, .aborted]

/-- Before the first turn a candidate is never awaited. -/
theorem StartingState.awaiting_ne {s : SessionState} (h : StartingState cfg s) :
    s.awaiting ≠ some .candidate := by
  obtain ⟨hinv, hphase⟩ := h
  intro hawaiting
  simp only [List.mem_cons, List.not_mem_nil, or_false] at hphase
  rcases hphase with hphase | hphase | hphase
  · have hnone := (hinv.created hphase).2.1.1
    rw [hawaiting] at hnone
    cases hnone
  · have hinterviewer := (hinv.intro hphase).2.1
    rw [hawaiting] at hinterviewer
    cases hinterviewer
  · have hidle := hinv.phase
    rw [PhaseInv, hphase] at hidle
    rw [hidle.1] at hawaiting
    cases hawaiting

/-- The service takes a turn. -/
def admits (svc : DevSession) (w : Working) : Prop :=
  ∀ text o, ∃ d, admitErrand svc w o (.postTurn text) = .drive d

theorem admits_iff (svc : DevSession) (w : Working) :
    admits svc w ↔ w.state.phase ∉ terminalPhases ∧
      (w.state.phase = .intro ∨ w.state.awaiting = some .candidate) := by
  constructor
  · intro h
    obtain ⟨d, hd⟩ := h "" ⟨0, .raised, .raised⟩
    unfold admitErrand at hd
    dsimp only at hd
    split_ifs at hd with hdead hbusy
    refine ⟨hdead, ?_⟩
    by_contra hneither
    rw [not_or] at hneither
    exact hbusy hneither
  · rintro ⟨hlive, hopen⟩ text o
    have hbusy : ¬ (w.state.phase ≠ .intro ∧ w.state.awaiting ≠ some .candidate) :=
      fun h => hopen.elim h.1 h.2
    unfold admitErrand
    dsimp only
    rw [if_neg hlive, if_neg hbusy]
    exact ⟨_, rfl⟩

/-- The composer of a page that shows the state of the row is enabled where the
    service takes a turn, but for the introduction. -/
theorem canSend_iff {svc : DevSession} {w : Working} {total : String} {v : SessionView}
    (hinv : StateInv cfg w.state) (hview : view svc.sessionId w total = .ok v) :
    canSend v false = true ↔ admits svc w ∧ w.state.phase ≠ .intro := by
  obtain ⟨_, hawaiting, hphase⟩ := shown_of_view hview
  have hterminal := isTerminalPhase_iff hphase
  have hsend : canSend v false = true ↔
      w.state.awaiting = some .candidate ∧ w.state.phase ∉ terminalPhases := by
    unfold canSend
    rw [hawaiting, ← hterminal]
    simp only [Bool.not_false, Bool.and_true, Bool.and_eq_true, decide_eq_true_eq,
      Bool.not_eq_true', Bool.not_eq_true]
  rw [hsend, admits_iff]
  constructor
  · rintro ⟨hcandidate, hlive⟩
    refine ⟨⟨hlive, Or.inr hcandidate⟩, fun hintro => ?_⟩
    have hinterviewer := (hinv.intro hintro).2.1
    rw [hcandidate] at hinterviewer
    cases hinterviewer
  · rintro ⟨⟨hlive, hopen⟩, hintro⟩
    exact ⟨hopen.resolve_left hintro, hlive⟩

end Gates

section Starts
variable [Scalars] {cfg : OrchestratorConfig}

/-- What the start of a session may ask for. -/
def opens : Command → Bool
  | .emitScriptedOpening _ => true
  | .persistState => true
  | .recordDecision _ => true
  | _ => false

/-- Starting a session leaves it in its introduction, or aborted. -/
theorem start_of_transition {s : SessionState} {now : Instant} {r : TransitionResult}
    (hs : StartingState cfg s) (h : transition s (.sessionStarted now) cfg = .ok r) :
    StartingState cfg r.newState ∧ ∀ c ∈ r.commands, opens c = true := by
  obtain ⟨hinv, hphase⟩ := hs
  have hinv' := stateInv_of_edge hinv (edge_of_transition h)
  unfold transition at h
  by_cases hdead : s.phase ∈ terminalPhases
  · rw [if_pos hdead, Except.ok.injEq] at h
    subst h
    exact ⟨⟨hinv, hphase⟩, fun c hc => absurd hc List.not_mem_nil⟩
  rw [if_neg hdead] at h
  dsimp only at h
  by_cases hcreated : s.phase = .created
  · rw [if_pos hcreated, Except.ok.injEq, onSessionStarted] at h
    cases hplan : PlanSnapshot.validatePlan (.obj s.planInput.entries) with
    | error x =>
        rw [hplan] at h
        subst h
        exact ⟨⟨hinv', by simp [abort]⟩, by simp [abort, opens]⟩
    | ok plan =>
        rw [hplan] at h
        subst h
        exact ⟨⟨hinv', by simp⟩, by simp [opens]⟩
  · rw [if_neg hcreated, Except.ok.injEq] at h
    subst h
    exact ⟨⟨hinv, hphase⟩, fun c hc => absurd hc List.not_mem_nil⟩

/-- A copy of the row with nothing in its transcript but scripts. -/
def StartingCopy (cfg : OrchestratorConfig) (w : Working) : Prop :=
  StartingState cfg w.state ∧ ∀ entry ∈ w.transcript, entry.role = .system

/-- A task that does no more than start its session. -/
def Starts (cfg : OrchestratorConfig) : ShellTask → Prop
  | .drive d => StartingCopy cfg d.working ∧ ∀ e ∈ d.queue, ∃ now, e = .sessionStarted now
  | .persist d e commands =>
      StartingCopy cfg d.working ∧ (∀ e ∈ d.queue, ∃ now, e = .sessionStarted now) ∧
        (∃ now, e = .sessionStarted now) ∧ ∀ c ∈ commands, opens c = true
  | .execute d _ commands followUps =>
      StartingCopy cfg d.working ∧ (∀ e ∈ d.queue, ∃ now, e = .sessionStarted now) ∧
        (∀ c ∈ commands, opens c = true) ∧ followUps = []
  | .save d _ followUps =>
      StartingCopy cfg d.working ∧ (∀ e ∈ d.queue, ∃ now, e = .sessionStarted now) ∧
        followUps = []
  | .done => True
  | .failed _ => True
  | _ => False

/-- An effect of the start: no agent is called. -/
def isStart : Effect → Bool
  | .accepted (.sessionStarted _) _ => true
  | _ => false

variable (svc : DevSession)

/-- The execution of such a command says at most a script, and leads to nothing. -/
theorem executeOne_of_opens {w : Working} {o : Oracle} {c : Command} {p : Performed}
    (hc : opens c = true) (h : executeOne svc w o c = .ok p) :
    (∀ entry ∈ p.entries, entry.role = .system) ∧ p.followUps = [] ∧ p.spawned = [] ∧
      callsMade svc w o c = [] := by
  cases c with
  | emitScriptedOpening c =>
      cases h
      refine ⟨fun entry hentry => ?_, rfl, rfl, rfl⟩
      rw [List.mem_singleton] at hentry
      rw [hentry]
      rfl
  | persistState | recordDecision =>
      cases h
      exact ⟨fun entry hentry => absurd hentry List.not_mem_nil, rfl, rfl, rfl⟩
  | _ => exact absurd hc Bool.false_ne_true

/-- The creation of a session goes on as it has begun. -/
theorem starts_of_taskStep {row : Working} {o : Oracle} {task : ShellTask} {p : Progress}
    (hrow : StartingCopy svc.config row) (htask : Starts svc.config task)
    (h : taskStep svc row o task = some p) :
    StartingCopy svc.config p.row ∧ Starts svc.config p.task ∧ p.spawned = [] ∧
      ∀ effect ∈ p.effects, isStart effect = true := by
  have hnone : ∀ effect ∈ ([] : List Effect), isStart effect = true :=
    fun effect heffect => absurd heffect List.not_mem_nil
  cases move_of_taskStep svc h with
  -- The creation assesses nothing and loads nothing.
  | crashed | assessed | loaded | admitted | refused | posted => exact absurd htask id
  | drained | overran | stuck => exact ⟨hrow, trivial, rfl, hnone⟩
  -- Its one event starts the session, with scripts and records for commands.
  | applied d e queue r hqueue hsteps hr =>
      obtain ⟨hcopy, hevents⟩ := htask
      rw [hqueue] at hevents
      obtain ⟨now, rfl⟩ := hevents e List.mem_cons_self
      obtain ⟨hstate, hcommands⟩ := start_of_transition hcopy.1 hr
      exact ⟨hrow, ⟨⟨hstate, hcopy.2⟩, fun e he => hevents e (List.mem_cons_of_mem _ he),
        ⟨now, rfl⟩, hcommands⟩, rfl, hnone⟩
  | persisted d e commands =>
      obtain ⟨hcopy, hevents, ⟨now, rfl⟩, hcommands⟩ := htask
      refine ⟨hcopy, ⟨hcopy, hevents, hcommands, rfl⟩, rfl, fun effect heffect => ?_⟩
      rw [List.mem_singleton] at heffect
      rw [heffect]
      rfl
  | spoken d mark followUps hmark =>
      obtain ⟨hcopy, hevents, _, hfollow⟩ := htask
      exact ⟨hrow, ⟨hcopy, hevents, hfollow⟩, rfl, hnone⟩
  | unspoken d mark followUps hmark =>
      obtain ⟨hcopy, hevents, _, rfl⟩ := htask
      refine ⟨hrow, ⟨hcopy, ?_⟩, rfl, hnone⟩
      rw [Drive.resume, List.append_nil]
      exact hevents
  -- None of these commands can raise.
  | raised d mark c commands followUps error hone =>
      have hopens := htask.2.2.1 c List.mem_cons_self
      cases c <;> first | exact absurd hopens Bool.false_ne_true | cases hone
  | executed d mark c commands followUps q hone =>
      obtain ⟨hcopy, hevents, hcommands, rfl⟩ := htask
      obtain ⟨hentries, hfollow, hspawned, hcalls⟩ :=
        executeOne_of_opens svc (hcommands c List.mem_cons_self) hone
      refine ⟨hrow, ⟨⟨hcopy.1, ?_⟩, hevents,
        fun c hc => hcommands c (List.mem_cons_of_mem _ hc), ?_⟩, hspawned, ?_⟩
      · intro entry hentry
        exact (List.mem_append.mp hentry).elim (hcopy.2 entry) (hentries entry)
      · rw [hfollow]
        rfl
      · rw [hcalls]
        exact hnone
  | saved d mark followUps =>
      obtain ⟨hcopy, hevents, rfl⟩ := htask
      refine ⟨hcopy, ⟨hcopy, ?_⟩, rfl, hnone⟩
      rw [Drive.resume, List.append_nil]
      exact hevents

/-- A session that nothing has happened to but its creation. -/
def StartingWorld (cfg : OrchestratorConfig) (w : World) : Prop :=
  StartingCopy cfg w.row ∧ ∀ task ∈ w.tasks, Starts cfg task

omit [Scalars] in
theorem starting_created (planInput : Dict String Json) (now : Instant) :
    StartingWorld svc.config (created svc planInput now) := by
  have hcopy : StartingCopy svc.config (created svc planInput now).row :=
    ⟨⟨stateInv_initialState _ _ _, List.mem_cons_self⟩,
      fun entry hentry => absurd hentry List.not_mem_nil⟩
  refine ⟨hcopy, fun task htask => ?_⟩
  rw [created, List.mem_singleton] at htask
  subst htask
  refine ⟨hcopy, fun e he => ⟨now, ?_⟩⟩
  rwa [List.mem_singleton] at he

/-- No task of such a session gets it any further. -/
theorem starting_of_shellStep {a b : World} {i : Nat} {o : Oracle} {out : List Effect}
    (ha : StartingWorld svc.config a) (h : shellStep svc a (.run i o) = .ok (b, out)) :
    StartingWorld svc.config b ∧ ∀ effect ∈ out, isStart effect = true := by
  rcases shellStep_cases svc h with
    ⟨text, hpost, _⟩ | ⟨_, _, task, p, hrun, ht, hp, rfl, rfl⟩
  · cases hpost
  · obtain ⟨hrow, htask, hspawned, heffects⟩ :=
      starts_of_taskStep svc ha.1 (ha.2 task (List.mem_of_getElem? ht)) hp
    refine ⟨⟨hrow, forall_tasks_moved ha.2 htask (fun t hmem => ?_)⟩, heffects⟩
    rw [hspawned] at hmem
    exact absurd hmem List.not_mem_nil

end Starts

section Invariant
variable (api : Api) (id : Uuid)

/-- A request that neither is a turn of the session nor brings the page a view of it
    in which a candidate is awaited. -/
def Request.Untouched (r : Request) : Prop :=
  (∀ text, r.call ≠ .turn id text) ∧
    match r.stage with
    | .sent => True
    | .task _ _ => ∀ target, r.call ≠ .view target
    | .read state => r.call = .view id → state.awaiting ≠ some .candidate
    | .answered (.ok v) => r.call.key v = id → v.awaiting ≠ some .candidate
    | .answered (.error _) => True

/-- The session has not been sent a turn, and the page does not see it await one. -/
structure Untouched (d : Dev) : Prop where
  session : ∀ w, d.sessions.get? id = some w → StartingWorld api.config w
  cache : ∀ v, d.page.cache.get? id = some v → v.awaiting ≠ some .candidate
  requests : ∀ r ∈ d.requests, r.Untouched id

/-- Nothing is sent to the session, and no agent is called for it. -/
def Seen.Quiet (seen : Seen) : Prop :=
  (∀ text, seen ≠ .sent id text) ∧ ∀ effect, seen = .served id effect → isStart effect = true

variable {api id} {d : Dev}

/-- The page sends no turn to a session that it does not see await one. -/
theorem handleSubmit_calls {p : Page} (text : String)
    (hcache : ∀ v, p.cache.get? id = some v → v.awaiting ≠ some .candidate) :
    ∀ call ∈ (p.handleSubmit text).2, ∀ value, call ≠ .turn id value := by
  intro call hcall value hturn
  subst hturn
  unfold Page.handleSubmit at hcall
  dsimp only at hcall
  cases hsession : p.sessionId with
  | none =>
      simp only [hsession, List.not_mem_nil] at hcall
  | some shown =>
      cases hview : p.view with
      | none => simp only [hsession, hview, List.not_mem_nil] at hcall
      | some v =>
          simp only [hsession, hview] at hcall
          split_ifs at hcall with hoff
          · exact absurd hcall List.not_mem_nil
          · simp only [List.mem_singleton, Call.turn.injEq] at hcall
            obtain ⟨rfl, _⟩ := hcall
            -- The view on the page is the one that the browser has for the session.
            rw [Page.view, hsession, Option.bind_some] at hview
            have hnot := hcache v hview
            simp only [canSend, decide_eq_false hnot, Bool.false_and, Bool.not_false, Bool.or_true,
              Bool.true_or, not_true_eq_false] at hoff

theorem handleSubmit_cache (p : Page) (text : String) :
    (p.handleSubmit text).1.cache = p.cache := by
  unfold Page.handleSubmit
  dsimp only
  split
  · split_ifs <;> rfl
  · rfl

/-- The page makes calls. -/
theorem untouched_send (hd : Untouched api id d) {out : Page × List Call}
    (hcache : out.1.cache = d.page.cache)
    (hcalls : ∀ call ∈ out.2, ∀ text, call ≠ .turn id text) :
    Untouched api id (d.send out).1 ∧ ∀ seen ∈ (d.send out).2, seen.Quiet id := by
  refine ⟨⟨hd.session, fun v hv => hd.cache v ?_, fun r hr => ?_⟩, fun seen hseen => ?_⟩
  · rw [← hcache]
    exact hv
  · rcases List.mem_append.mp hr with hr | hr
    · exact hd.requests r hr
    · obtain ⟨call, hcall, rfl⟩ := List.mem_map.mp hr
      exact ⟨hcalls call hcall, trivial⟩
  · obtain ⟨call, hcall, hsent⟩ := List.mem_filterMap.mp hseen
    cases call with
    | create plan => cases hsent
    | view target => cases hsent
    | turn target text =>
        cases hsent
        refine ⟨fun value hvalue => ?_, fun effect heffect => by cases heffect⟩
        cases hvalue
        exact hcalls _ hcall text rfl

/-- A request goes on. -/
theorem untouched_put (hd : Untouched api id d) (i : Nat) {r : Request} {stage : Stage}
    (hr : Request.Untouched id { r with stage := stage }) : Untouched api id (d.put i r stage) := by
  refine ⟨hd.session, hd.cache, fun q hq => ?_⟩
  rcases List.mem_or_eq_of_mem_set hq with hq | rfl
  · exact hd.requests q hq
  · exact hr

/-- A session is created, or moves. -/
theorem untouched_set (hd : Untouched api id d) {target : Uuid} {w : World}
    (hw : target = id → StartingWorld api.config w) :
    Untouched api id { d with sessions := d.sessions.set target w } := by
  refine ⟨fun w' hw' => ?_, hd.cache, hd.requests⟩
  dsimp only at hw'
  rw [Dict.get?_set] at hw'
  by_cases htarget : id = target
  · rw [if_pos htarget, Option.some.injEq] at hw'
    rw [← hw']
    exact hw htarget.symm
  · rw [if_neg htarget] at hw'
    exact hd.session w' hw'

/-- A task of a session ends, and the requests that wait for it are answered. -/
theorem untouched_settle {r : Request} (hr : r.Untouched id) (target : Uuid) (i : Nat)
    (total : String) {result : Option (Except Nat Working)}
    (hresult : target = id → ∀ w, result = some (.ok w) → w.state.awaiting ≠ some .candidate) :
    (r.settle target i total result).Untouched id := by
  obtain ⟨call, stage⟩ := r
  cases stage with
  | sent | read state | answered answer => exact hr
  | task k j =>
      cases result with
      | none => exact hr
      | some outcome =>
          unfold Request.settle
          dsimp only
          split_ifs with hmine
          · refine ⟨hr.1, ?_⟩
            cases hanswer : answer call target total outcome with
            | error status => trivial
            | ok v =>
                intro hkey
                obtain ⟨w, rfl, hview⟩ := view_of_answer hanswer
                obtain ⟨hsession, hawaiting, _⟩ := shown_of_view hview
                -- The call is no poll, so the browser keeps the view under its session.
                have hv : call.key v = v.sessionId := by
                  cases call with
                  | view shown => exact absurd rfl (hr.2 shown)
                  | create plan => rfl
                  | turn shown text => rfl
                rw [hawaiting]
                exact hresult (hsession.symm.trans (hv.symm.trans hkey)) w rfl
          · exact hr

/-- The page takes an answer. -/
theorem untouched_receive (hd : Untouched api id d) (i : Nat) (r : Request)
    {result : Except Failure SessionView}
    (hresult : ∀ v, result = .ok v → r.call.key v = id → v.awaiting ≠ some .candidate) :
    Untouched api id (d.receive i r result) := by
  refine ⟨hd.session, fun v hv => ?_, fun q hq => ?_⟩
  · rcases cache_receive d.page r.call result id hv with hold | ⟨hok, hkey⟩
    · exact hd.cache v hold
    · exact hresult v hok hkey
  · exact hd.requests q (List.mem_of_mem_eraseIdx (List.mem_of_mem_filter hq))

theorem onRequest_ok {b : Dev} {i : Nat} {f : Request → Option Dev} {out : List Seen}
    (h : onRequest d i f = .ok (b, out)) :
    ∃ r, d.requests[i]? = some r ∧ f r = some b ∧ out = [] := by
  unfold onRequest at h
  cases hr : d.requests[i]? with
  | none =>
      rw [hr] at h
      cases h
  | some r =>
      cases hf : f r with
      | none =>
          rw [hr, Option.bind_some, hf] at h
          cases h
      | some b' =>
          rw [hr, Option.bind_some, hf] at h
          cases h
          exact ⟨r, rfl, hf, rfl⟩

/-- A request reaches its route. -/
theorem untouched_arrive (hd : Untouched api id d) {b : Dev} {i : Nat} {r : Request} {new : Uuid}
    {now : Instant} (hr : r.Untouched id) (h : arrive api d i r new now = some b) :
    Untouched api id b := by
  obtain ⟨call, stage⟩ := r
  cases call with
  -- A create is for an identifier that is new.
  | create plan =>
      rw [arrive] at h
      dsimp only at h
      cases hnew : d.sessions.get? new with
      | some w =>
          rw [hnew] at h
          cases h
      | none =>
          rw [hnew] at h
          cases h
          exact untouched_set
            (untouched_put hd i ⟨hr.1, fun target htarget => by cases htarget⟩)
            (fun _ => starting_created (api.session new) plan now)
  | turn target text =>
      -- A turn is for another session, since the page sends none for this one.
      have htarget : target ≠ id := fun hid => hr.1 text (by rw [hid])
      rw [arrive] at h
      dsimp only at h
      split_ifs at h with hlength
      · cases h
        exact untouched_put hd i ⟨hr.1, trivial⟩
      · cases hw : d.sessions.get? target with
        | none =>
            rw [hw] at h
            cases h
            exact untouched_put hd i ⟨hr.1, trivial⟩
        | some w =>
            rw [hw] at h
            cases h
            exact untouched_set
              (untouched_put hd i ⟨hr.1, fun shown hshown => by cases hshown⟩)
              (fun hid => absurd hid htarget)
  -- A view changes nothing, and shows the row as it is.
  | view target =>
      rw [arrive] at h
      dsimp only at h
      cases hw : d.sessions.get? target with
      | none =>
          rw [hw] at h
          cases h
          exact untouched_put hd i ⟨hr.1, trivial⟩
      | some w =>
          rw [hw] at h
          cases h
          refine untouched_put hd i ⟨hr.1, fun hview => ?_⟩
          cases hview
          exact (hd.session w hw).1.1.awaiting_ne

/-- The rest of a view is read. -/
theorem untouched_readRow (hd : Untouched api id d) {b : Dev} {i : Nat} {r : Request}
    {total : String} (hr : r.Untouched id) (h : readRow d i r total = some b) :
    Untouched api id b := by
  obtain ⟨call, stage⟩ := r
  unfold readRow at h
  dsimp only at h
  split at h
  · rename_i target state
    rw [Option.map_eq_some_iff] at h
    obtain ⟨w, _, rfl⟩ := h
    refine untouched_put hd i ⟨hr.1, ?_⟩
    cases hanswer : answer (.view target) target total (.ok ⟨state, w.row.transcript⟩) with
    | error status => trivial
    | ok v =>
        intro hkey
        obtain ⟨read, hread, hview⟩ := view_of_answer hanswer
        cases hread
        rw [(shown_of_view hview).2.1]
        exact hr.2 (congrArg Call.view hkey)
  · cases h

end Invariant

section Steps
variable [Scalars] {api : Api} {id : Uuid} {d : Dev}

/-- A task of a session takes a step. -/
theorem untouched_runTask (hd : Untouched api id d) {target : Uuid} {i : Nat} {o : Oracle}
    {total : String} {b : Dev} {out : List Seen}
    (h : runTask api d target i o total = some (b, out)) :
    Untouched api id b ∧ ∀ seen ∈ out, seen.Quiet id := by
  unfold runTask at h
  cases hw : d.sessions.get? target with
  | none =>
      rw [hw] at h
      cases h
  | some w =>
      cases hstep : shellStep (api.session target) w (.run i o) with
      | error x =>
          simp only [hw, hstep, reduceCtorEq] at h
      | ok moved =>
          obtain ⟨w', effects⟩ := moved
          simp only [hw, hstep, Option.some.injEq, Prod.mk.injEq] at h
          obtain ⟨rfl, rfl⟩ := h
          have hquiet : target = id → StartingWorld api.config w' ∧
              ∀ effect ∈ effects, isStart effect = true := by
            intro hid
            rw [hid] at hw
            exact starting_of_shellStep (api.session target) (hd.session w hw) hstep
          have hset := untouched_set (w := w') hd (fun hid => (hquiet hid).1)
          refine ⟨⟨hset.session, hset.cache, fun q hq => ?_⟩, fun seen hseen => ?_⟩
          · obtain ⟨r, hr, rfl⟩ := List.mem_map.mp hq
            refine untouched_settle (hd.requests r hr) target i total (fun hid c hc => ?_)
            -- The copy that the answer is made of is a copy of the starting session.
            rw [hid] at hw
            cases hbefore : w.tasks[i]? with
            | none => simp only [hbefore, reduceCtorEq] at hc
            | some before =>
                cases hafter : w'.tasks[i]? with
                | none => simp only [hbefore, hafter, reduceCtorEq] at hc
                | some after =>
                    simp only [hbefore, hafter] at hc
                    obtain ⟨drive, rfl, rfl⟩ := finished_ok hc
                    exact ((hd.session w hw).2 _ (List.mem_of_getElem? hbefore)).1.1.awaiting_ne
          · obtain ⟨effect, heffect, rfl⟩ := List.mem_map.mp hseen
            refine ⟨fun text htext => (by cases htext), fun effect' heffect' => ?_⟩
            cases heffect'
            exact (hquiet rfl).2 _ heffect

/-- Every event but a turn of another client keeps the invariant. -/
theorem untouched_step {a b : Dev} {e : Happening} {out : List Seen} (ha : Untouched api id a)
    (hother : ∀ text, e ≠ .otherTurn id text) (h : step api a e = .ok (b, out)) :
    Untouched api id b ∧ ∀ seen ∈ out, seen.Quiet id := by
  have hsilent : ∀ seen ∈ ([] : List Seen), seen.Quiet id :=
    fun seen hseen => absurd hseen List.not_mem_nil
  have hmem : ∀ {i : Nat} {r : Request}, a.requests[i]? = some r → r.Untouched id :=
    fun hr => ha.requests _ (List.mem_of_getElem? hr)
  cases e with
  | submitPlan plan =>
      cases h
      refine untouched_send ha ?_ (fun call hcall text hturn => ?_)
      · unfold Page.handleCreate
        split_ifs <;> rfl
      · unfold Page.handleCreate at hcall
        split_ifs at hcall
        · rw [List.mem_singleton.mp hcall] at hturn
          cases hturn
        · exact absurd hcall List.not_mem_nil
  -- The page sends no turn for what is not shown as awaiting its candidate.
  | submitTurn text =>
      cases h
      exact untouched_send ha (handleSubmit_cache a.page text) (handleSubmit_calls text ha.cache)
  | poll =>
      cases h
      refine untouched_send ha rfl (fun call hcall text hturn => ?_)
      unfold Page.poll at hcall
      cases hsession : a.page.sessionId with
      | none => simp only [hsession, List.not_mem_nil] at hcall
      | some shown =>
          simp only [hsession, List.mem_singleton] at hcall
          rw [hcall] at hturn
          cases hturn
  | arrive i new now =>
      obtain ⟨r, hr, hf, rfl⟩ := onRequest_ok h
      refine ⟨?_, hsilent⟩
      cases hstage : r.stage with
      | sent =>
          rw [hstage] at hf
          exact untouched_arrive ha (hmem hr) hf
      | task | read | answered =>
          rw [hstage] at hf
          cases hf
  | refuse i status =>
      obtain ⟨r, hr, hf, rfl⟩ := onRequest_ok h
      refine ⟨?_, hsilent⟩
      cases hstage : r.stage with
      | sent =>
          rw [hstage] at hf
          cases hf
          exact untouched_put ha i ⟨(hmem hr).1, trivial⟩
      | task | read | answered =>
          rw [hstage] at hf
          cases hf
  | read i total =>
      obtain ⟨r, hr, hf, rfl⟩ := onRequest_ok h
      exact ⟨untouched_readRow ha (hmem hr) hf, hsilent⟩
  | run target i o total =>
      rw [step] at h
      cases hrun : runTask api a target i o total with
      | none =>
          rw [hrun] at h
          cases h
      | some result =>
          rw [hrun] at h
          cases h
          exact untouched_runTask ha hrun
  -- An answer puts what the session was into the cache.
  | deliver i =>
      obtain ⟨r, hr, hf, rfl⟩ := onRequest_ok h
      refine ⟨?_, hsilent⟩
      cases hstage : r.stage with
      | sent | task | read =>
          rw [hstage] at hf
          cases hf
      | answered result =>
          rw [hstage] at hf
          cases hf
          refine untouched_receive ha i r (fun v hv => ?_)
          have hmine := (hmem hr).2
          rw [hstage] at hmine
          cases result with
          | error status => cases hv
          | ok shown =>
              cases hv
              exact hmine
  | lose i =>
      obtain ⟨r, hr, hf, rfl⟩ := onRequest_ok h
      cases hf
      exact ⟨untouched_receive ha i r (fun v hv => by cases hv), hsilent⟩
  | otherSession new plan now =>
      rw [step] at h
      cases hnew : a.sessions.get? new with
      | some w =>
          rw [hnew] at h
          cases h
      | none =>
          rw [hnew] at h
          cases h
          exact ⟨untouched_set ha (fun _ => starting_created (api.session new) plan now), hsilent⟩
  -- Other clients write to other sessions.
  | otherTurn target text =>
      have htarget : target ≠ id := fun hid => hother text (by rw [hid])
      rw [step] at h
      cases hw : a.sessions.get? target with
      | none =>
          rw [hw] at h
          cases h
      | some w =>
          rw [hw] at h
          cases h
          exact ⟨untouched_set ha (fun hid => absurd hid htarget), hsilent⟩

end Steps

section Sessions
variable [Scalars] (api : Api) {ts : List (Taken Dev Happening Seen)} {d : Dev}

omit [Scalars] in
theorem untouched_start (id : Uuid) : Untouched api id {} where
  session w hw := by cases hw
  cache v hv := by cases hv
  requests r hr := absurd hr List.not_mem_nil

theorem untouched_run (h : Run (step api) {} ts d) (id : Uuid)
    (hother : ∀ t ∈ ts, ∀ text, t.event ≠ .otherTurn id text) :
    Untouched api id d ∧ ∀ seen ∈ outputs ts, seen.Quiet id := by
  induction h with
  | nil => exact ⟨untouched_start api id, fun seen hseen => absurd hseen List.not_mem_nil⟩
  | snoc ts a b e out _ hab ih =>
      obtain ⟨ha, hquiet⟩ := ih (fun t ht => hother t (List.mem_append_left _ ht))
      obtain ⟨hb, hout⟩ := untouched_step ha
        (hother _ (List.mem_append_right _ (List.mem_singleton_self _))) hab
      refine ⟨hb, fun seen hseen => ?_⟩
      rw [outputs_snoc] at hseen
      exact (List.mem_append.mp hseen).elim (hquiet seen) (hout seen)

/-- The page does not get an interview going. To a session that no other client has sent a
    turn to the page has sent none either; the session has not got beyond its
    introduction, has said nothing but a script, and no agent has been called for it. -/
theorem console_never_opens (h : Run (step api) {} ts d) (id : Uuid)
    (hother : ∀ t ∈ ts, ∀ text, t.event ≠ .otherTurn id text) :
    (∀ text, .sent id text ∉ outputs ts) ∧
      (∀ effect, .served id effect ∈ outputs ts → isStart effect = true) ∧
      ∀ w, d.sessions.get? id = some w →
        w.row.state.phase ∈ [.created, .intro, .aborted] ∧
          ∀ entry ∈ w.row.transcript, entry.role = .system := by
  obtain ⟨hd, hquiet⟩ := untouched_run api h id hother
  refine ⟨fun text hsent => (hquiet _ hsent).1 text rfl,
    fun effect hserved => (hquiet _ hserved).2 effect rfl, fun w hw => ?_⟩
  exact ⟨(hd.session w hw).1.1.2, (hd.session w hw).1.2⟩

end Sessions

def smallApi : Api := ⟨.committed, fun path _ => path⟩

def smallOracle (now : Instant) : Oracle := ⟨now, .raised, .raised⟩

/-- A session is created and shown, polled, and the operator tries to send a turn. -/
def smallVisit : List Happening :=
  [.submitPlan smallInput, .arrive 0 smallId 0] ++
    (List.range 7).map (fun n => .run smallId 0 (smallOracle n) "0") ++
    [.deliver 0, .submitTurn "ready", .poll, .arrive 0 smallId 0, .read 0 "0", .deliver 0,
      .submitTurn "ready"]

def Happening.foreignTurn : Happening → Bool
  | .otherTurn _ _ => true
  | _ => false

/-- The operator of a new session waits for the interviewer. -/
theorem console_never_opens_small : ∃ ts d, Run (@step Scalars.strict smallApi) {} ts d ∧
    ts.map Taken.event = smallVisit ∧
    d.page.view.map (fun v => (v.phase, v.awaiting)) = some (.intro, some .interviewer) ∧
    (∀ text, .sent smallId text ∉ outputs ts) ∧
      ∀ w, d.sessions.get? smallId = some w →
        w.row.state.phase ∈ [.created, .intro, .aborted] ∧
          ∀ entry ∈ w.row.transcript, entry.role = .system := by
  have hrec : (record (@step Scalars.strict smallApi) {} smallVisit).map (fun r =>
      (r.1.all (fun t => !t.event.foreignTurn),
        r.2.page.view.map (fun v => (v.phase, v.awaiting))))
      = .ok (true, some (.intro, some .interviewer)) := by decide +kernel
  obtain ⟨ts, d, hrun, hevents, hproj⟩ := exists_run_of_events _ _ _ _ _ hrec
  simp only [Prod.mk.injEq] at hproj
  obtain ⟨hall, hview⟩ := hproj
  have hother : ∀ t ∈ ts, ∀ text, t.event ≠ .otherTurn smallId text := by
    intro t ht text htext
    have hown := List.all_eq_true.mp hall t ht
    rw [htext] at hown
    cases hown
  obtain ⟨hsent, _, hstate⟩ :=
    @console_never_opens Scalars.strict smallApi ts d hrun smallId hother
  exact ⟨ts, d, hrun, hevents, hview, hsent, hstate⟩

end TechScreen.Console
