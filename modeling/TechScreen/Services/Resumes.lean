import TechScreen.Services.Transcript

/-!
# Resumed Sessions

The service with one more kind of call: a client that comes back drives the session
with `Reconnected`, at any time and any number of times. The machine answers with the
command that is outstanding, and the service executes it once more. It does not look
whether the command has been executed before, although its obligations say that it
tells outbound turns apart by their identifiers.

An outbound turn is executed with its entry in the transcript, and the command stays
outstanding after that. A session that is resumed then says the same again. It says
nothing twice as long as it is resumed only while the outstanding command has not been
executed: then it is the call of the interviewer that is made again, and the reply is
taken once. Where the entry is still owed by the task that was first to execute the
command, the resumed task and that one cannot both finish up to date.

## Main definitions

* `resumingStep`: The service, with clients that come back.
* `Working.executed`: The entry of the outstanding command is in the transcript.
* `Unexecuted`: The session is resumed only while it is not.
* `Told`: The numbers of the outbound turns in a transcript.
* `Speech`: What a transition says.
* `Resumed`: The invariant.

## Theorems

* `speech_of_edge`: Every edge says nothing, a new turn, the turn in flight or the
  outstanding turn again.
* `resumed_step`: Every step keeps the invariant.
* `unexecuted_of_nodup`: An executed command that is resumed is said twice.
* `resumed_once`: When resuming a session repeats nothing and changes nothing.
* `reconnect_repeats_opening`: A session that opens twice.
-/

namespace TechScreen

open Lib

section Model

/-- What happens next: a choice of the service, or a client that comes back. -/
inductive ResumeChoice where
  | shell (c : Choice)
  | reconnect (now : Instant)

variable (svc : DevSession)

/-- The service takes one step. A client that comes back has the session loaded and
    driven with the event. -/
def resumingStep [Scalars] : Step World ResumeChoice Effect Blocked
  | w, .shell c => shellStep svc w c
  | w, .reconnect now =>
      .ok ({ w with tasks := w.tasks ++ [.load (.feed (.reconnected now))] }, [])

/-- A step that is one of the service. -/
def viaShell (Q : Nat → Taken World Choice Effect → Prop) (i : Nat)
    (t : Taken World ResumeChoice Effect) : Prop :=
  ∃ c, t.event = .shell c ∧ Q i ⟨t.before, c, t.after, t.out⟩

/-- Every persist is made by a task that has looked at the row with no change of the
    row since. -/
def ResumedUpToDate (ts : List (Taken World ResumeChoice Effect)) : Prop :=
  Undisturbed World.row (viaShell looks) (viaShell commits) (fun i => i = 0) ts

/-- An entry is added when the command is executed. -/
def PendingCommand.speaks : PendingCommand → Bool
  | .runInterviewer _ => false
  | _ => true

/-- The outstanding command has been executed: its entry is in the transcript. -/
def Working.executed (w : Working) : Prop :=
  ∃ c ∈ w.state.pendingCommand, c.speaks = true ∧ some c.turnId ∈ outboundIds w.transcript

/-- Whenever the session is resumed the outstanding command has not been executed. -/
def Unexecuted (ts : List (Taken World ResumeChoice Effect)) : Prop :=
  ∀ t ∈ ts, ∀ now commands, .accepted (.reconnected now) commands ∈ t.out → ¬ t.before.row.executed

def Event.isReconnected : Event → Bool
  | .reconnected _ => true
  | _ => false

end Model

section Numbers
variable {sessionId : Uuid} {s s' : SessionState} {transcript : List TranscriptEntry}

/-- The outbound turns in a transcript have increasing numbers, and while a move is in
    flight its number is above them. -/
def Told (sessionId : Uuid) (s : SessionState) (transcript : List TranscriptEntry) : Prop :=
  ∃ ks : List Int, outboundIds transcript = ks.map (fun k => some (outboundId sessionId k)) ∧
    ks.Pairwise (· < ·) ∧ ∀ k ∈ ks, 0 ≤ k ∧ k < s.turnSeq ∧ (InFlight s → k < s.turnSeq - 1)

/-- Nothing is told of a turn. -/
theorem Told.hushed (h : Told sessionId s transcript) {more : List TranscriptEntry}
    (hmore : outboundIds more = []) (hseq : s.turnSeq ≤ s'.turnSeq)
    (hflight : InFlight s' → s.turnSeq < s'.turnSeq ∨ InFlight s) :
    Told sessionId s' (transcript ++ more) := by
  obtain ⟨ks, hks, hincreases, hrange⟩ := h
  refine ⟨ks, ?_, hincreases, fun k hk => ?_⟩
  · rw [outboundIds_append, hmore, List.append_nil, hks]
  · obtain ⟨hnonneg, hbelow, hlast⟩ := hrange k hk
    refine ⟨hnonneg, by omega, fun hf => ?_⟩
    rcases hflight hf with hnext | hf
    · omega
    · have hlast := hlast hf
      omega

/-- One more turn is told, with a number above the others. -/
theorem Told.more (h : Told sessionId s transcript) {x : TranscriptEntry} {k : Int}
    (hrole : x.role ≠ .candidate) (hid : x.turnId = some (outboundId sessionId k))
    (habove : ∀ j, some (outboundId sessionId j) ∈ outboundIds transcript → j < s.turnSeq →
      (InFlight s → j < s.turnSeq - 1) → j < k)
    (hnonneg : 0 ≤ k) (hseq : s.turnSeq ≤ s'.turnSeq) (hbelow : k < s'.turnSeq)
    (hafter : ¬ InFlight s') : Told sessionId s' (transcript ++ [x]) := by
  obtain ⟨ks, hks, hincreases, hrange⟩ := h
  have hless : ∀ j ∈ ks, j < k := by
    intro j hj
    refine habove j ?_ (hrange j hj).2.1 (hrange j hj).2.2
    rw [hks]
    exact List.mem_map.mpr ⟨j, hj, rfl⟩
  refine ⟨ks ++ [k], ?_, ?_, fun j hj => ?_⟩
  · rw [outboundIds_append, outboundIds_of_other hrole, hks, hid, List.map_append,
      List.map_singleton]
  · refine List.pairwise_append.mpr ⟨hincreases, List.pairwise_singleton _ _, fun j hj l hl => ?_⟩
    rw [List.mem_singleton.mp hl]
    exact hless j hj
  · rcases List.mem_append.mp hj with hold | hnew
    · have hrange := hrange j hold
      exact ⟨hrange.1, by omega, fun hf => absurd hf hafter⟩
    · rw [List.mem_singleton.mp hnew]
      exact ⟨hnonneg, hbelow, fun hf => absurd hf hafter⟩

/-- Where different numbers have different identifiers nothing is told twice. -/
theorem Told.nodup (h : Told sessionId s transcript)
    (hinj : Set.InjOn (outboundId sessionId) (Set.Ico 0 s.turnSeq)) :
    (outboundIds transcript).Nodup := by
  obtain ⟨ks, hks, hincreases, hrange⟩ := h
  rw [hks]
  refine List.Nodup.map_on (fun i hi j hj hij => ?_) (hincreases.imp (fun hlt => ne_of_lt hlt))
  exact hinj ⟨(hrange i hi).1, (hrange i hi).2.1⟩ ⟨(hrange j hj).1, (hrange j hj).2.1⟩
    (Option.some.inj hij)

end Numbers

section Speeches
variable (svc : DevSession)

/-- What a transition says: nothing, a new turn or the turn in flight, or the
    outstanding turn once more. -/
inductive Speech (s s' : SessionState) (e : Event) (out : List Command) : Prop
  | hushed (hout : ∀ c ∈ out, ∀ t, c.entries svc t = []) (hseq : s.turnSeq ≤ s'.turnSeq)
      (hflight : InFlight s' → s.turnSeq < s'.turnSeq ∨ InFlight s)
      (hpending : ∀ c, s'.pendingCommand = some c → c.speaks = true → s.pendingCommand = some c)
  | tells (x : TranscriptEntry) (k : Int) (hout : out.flatMap (Command.entries svc s') = [x])
      (hrole : x.role ≠ .candidate) (hid : x.turnId = some (outboundId s.sessionId k))
      (hk : (k = s.turnSeq ∧ s'.turnSeq = s.turnSeq + 1) ∨
        (k = s.turnSeq - 1 ∧ InFlight s ∧ s'.turnSeq = s.turnSeq)) (hafter : ¬ InFlight s')
      (hpending : ∀ c, s'.pendingCommand = some c → some c.turnId = x.turnId)
  | repeats (now : Instant) (he : e = .reconnected now) (hs : s' = s)
      (hout : out = (onReconnected s).commands)

variable {svc} {cfg : OrchestratorConfig} {s s' : SessionState} {e : Event} {out : List Command}

theorem PendingCommand.entries_cases (svc : DevSession) (c : PendingCommand) (t : SessionState) :
    (c.speaks = false ∧ c.entries svc t = []) ∨
      (c.speaks = true ∧ ∃ x, c.entries svc t = [x] ∧ x.role ≠ .candidate ∧
        x.turnId = some c.turnId) := by
  cases c with
  | runInterviewer c => exact Or.inl ⟨rfl, rfl⟩
  | emitScriptedOpening c | emitScriptedClosing c | deliverUtterance c =>
      exact Or.inr ⟨rfl, _, rfl, (fun hrole => by cases hrole), rfl⟩

/-- A state that waits for nobody's move has none in flight. -/
theorem not_inFlight_of_phase (h : s.phase ≠ .tech ∧ s.phase ≠ .qa) : ¬ InFlight s :=
  fun hf => hf.1.elim h.1 h.2

/-- A new move is silent. -/
theorem Speech.move {staged : SessionState} (move : InterviewerMove) (node : Option String)
    (ctx : Dict String Json) (hseq : staged.turnSeq = s.turnSeq)
    (hout : ∀ c ∈ out, ∀ t, c.entries svc t = []) :
    Speech svc s (issueInterviewer staged move node ctx).1 e out := by
  have hnext : (issueInterviewer staged move node ctx).1.turnSeq = s.turnSeq + 1 := by
    rw [← hseq]
    rfl
  refine Speech.hushed hout (by omega) (fun _ => Or.inl (by omega)) (fun c hc hspeaks => ?_)
  cases hc
  cases hspeaks

/-- Every edge is one of these. -/
theorem speech_of_edge [Scalars] (svc : DevSession) (hinv : StateInv cfg s)
    (hedge : Edge cfg s e s' out) : Speech svc s s' e out := by
  -- An edge that schedules an assessment says nothing.
  have hsilent : ∀ c, Command.runAssessor c ∈ out → ∀ k ∈ out, ∀ t, k.entries svc t = [] :=
    fun c hc => silent_of_assessor svc hedge hc
  cases hedge with
  | ignored e hidle =>
      exact Speech.hushed (fun c hc => absurd hc List.not_mem_nil) (le_refl _)
        (fun hf => Or.inr hf) (fun c hc _ => hc)
  | opened now plan hphase hplan =>
      refine Speech.tells _ s.turnSeq rfl (fun hrole => by cases hrole) rfl
        (Or.inl ⟨rfl, rfl⟩) ?_ ?_
      · exact not_inFlight_of_phase ⟨by simp [opened], by simp [opened]⟩
      · intro c hc
        cases hc
        rfl
  | entered turnId text now plan hphase hplan =>
      exact Speech.move _ _ _ rfl (by simp [Command.entries])
  | probed | seeded | advanced | finished =>
      exact Speech.move _ _ _ rfl (hsilent _ List.mem_cons_self)
  | cutShort | asked => exact Speech.move _ _ _ rfl (by simp [Command.entries])
  | closed e activity hphase =>
      refine Speech.tells _ s.turnSeq rfl (fun hrole => by cases hrole) rfl
        (Or.inl ⟨rfl, rfl⟩) ?_ ?_
      · exact not_inFlight_of_phase ⟨by simp [enterClose], by simp [enterClose]⟩
      · intro c hc
        cases hc
        rfl
  | completed e hphase =>
      refine Speech.hushed (by simp [Command.entries]) (le_refl _) (fun hf => ?_) (fun c hc => ?_)
      · exact absurd hf (not_inFlight_of_phase ⟨by simp [complete], by simp [complete]⟩)
      · cases hc
  | aborted e reason decision persist hlive hturn =>
      refine Speech.hushed ?_ (le_refl _) (fun hf => ?_) (fun c hc => ?_)
      · cases persist <;> simp [abort, Command.entries]
      · exact absurd hf (not_inFlight_of_phase ⟨by simp [abort], by simp [abort]⟩)
      · cases hc
  -- A delivery has the number of the move in flight.
  | delivered turnId output now hphase hawaiting hpending =>
      obtain ⟨-, r, hr, -, -⟩ := hinv.inFlight ⟨hphase, hawaiting⟩
      have hid := turnId_of_answers hpending hr
      have hnumber := hinv.pendingId _ hr
      refine Speech.tells _ (s.turnSeq - 1) rfl (fun hrole => by cases hrole) ?_
        (Or.inr ⟨rfl, ⟨hphase, hawaiting⟩, rfl⟩) ?_ ?_
      · rw [← hid, hnumber]
        rfl
      · intro hf
        cases hf.2
      · intro c hc
        cases hc
        rfl
  | retried turnId errorKind now pending hphase hawaiting hpending hid hstreak =>
      refine Speech.hushed (by simp [Command.entries]) (le_refl _)
        (fun _ => Or.inr ⟨hphase, hawaiting⟩) (fun c hc hspeaks => ?_)
      cases hc
      cases hspeaks
  | assessed forTurnId output now hlive hpending =>
      rw [onAssessmentCompleted, if_neg (not_not.mpr hpending)]
      exact Speech.hushed (by simp [Command.entries]) (le_refl _) (fun hf => Or.inr hf)
        (fun c hc _ => hc)
  | assessmentFailed forTurnId errorKind now hlive hpending =>
      rw [onAssessmentFailed, if_neg (not_not.mpr hpending)]
      exact Speech.hushed (by simp [Command.entries]) (le_refl _) (fun hf => Or.inr hf)
        (fun c hc _ => hc)
  | reconnected now hlive => exact Speech.repeats now rfl rfl rfl

/-- An outstanding command has a number. -/
def Pended (s : SessionState) : Prop := s.pendingCommand ≠ none → 0 < s.turnSeq

theorem pended_of_edge [Scalars] (hinv : StateInv cfg s) (h : Pended s)
    (hedge : Edge cfg s e s' out) : Pended s' := by
  have hmove {staged : SessionState} {move : InterviewerMove} {node : Option String}
      {ctx : Dict String Json} (hseq : staged.turnSeq = s.turnSeq) :
      Pended (issueInterviewer staged move node ctx).1 := by
    have hnext : (issueInterviewer staged move node ctx).1.turnSeq = s.turnSeq + 1 := by
      rw [← hseq]
      rfl
    have hnonneg := hinv.turnSeq
    exact fun _ => by omega
  have hone : 0 < s.turnSeq + 1 := Int.lt_add_one_of_le hinv.turnSeq
  cases hedge with
  | ignored | reconnected => exact h
  | opened | closed => exact fun _ => hone
  | entered | probed | seeded | advanced | finished | cutShort | asked => exact hmove rfl
  | completed | aborted => exact fun hnone => absurd rfl hnone
  | delivered turnId output now hphase hawaiting hpending =>
      obtain ⟨-, r, hr, -, -⟩ := hinv.inFlight ⟨hphase, hawaiting⟩
      exact fun _ => h (by rw [hr]; exact Option.some_ne_none _)
  | retried turnId errorKind now pending hphase hawaiting hpending hid hstreak =>
      exact fun _ => h (by rw [hpending]; exact Option.some_ne_none _)
  | assessed forTurnId output now hlive hpending =>
      rw [onAssessmentCompleted, if_neg (not_not.mpr hpending)]
      exact h
  | assessmentFailed forTurnId errorKind now hlive hpending =>
      rw [onAssessmentFailed, if_neg (not_not.mpr hpending)]
      exact h

theorem SessionRun.pended [Scalars] {sessionId : Uuid} {planInput : Dict String Json}
    {ts : List (Taken SessionState Event Command)} (h : SessionRun cfg sessionId planInput ts s) :
    Pended s := by
  induction h with
  | nil => exact fun hnone => absurd rfl hnone
  | snoc ts a b e out hrun hab ih =>
      exact pended_of_edge (SessionRun.stateInv hrun) ih (edge_of_step hab)

theorem outboundIds_said (e : Event) : outboundIds e.said = [] := by
  cases e <;> rfl

/-- What a resumed session says, if anything, is the entry of its outstanding command. -/
theorem entries_onReconnected (svc : DevSession) (s t : SessionState) :
    ((onReconnected s).commands.flatMap (Command.entries svc t) = [] ∧
      ∀ c, s.pendingCommand = some c → c.speaks = false) ∨
    ∃ c x, s.pendingCommand = some c ∧ c.speaks = true ∧
      (onReconnected s).commands.flatMap (Command.entries svc t) = [x] ∧ x.role ≠ .candidate ∧
      x.turnId = some c.turnId := by
  unfold onReconnected
  cases hpending : s.pendingCommand with
  | none => exact Or.inl ⟨rfl, fun c hc => by cases hc⟩
  | some c =>
      have hentries : [Command.reissuePendingCommand c, .persistState].flatMap
          (Command.entries svc t) = c.entries svc t := List.append_nil _
      dsimp only
      rw [hentries]
      rcases c.entries_cases svc t with ⟨hmute, hnone⟩ | ⟨hspeaks, x, hx, hrole, hid⟩
      · refine Or.inl ⟨hnone, fun c' hc' => ?_⟩
        cases hc'
        exact hmute
      · exact Or.inr ⟨c, x, rfl, hspeaks, hx, hrole, hid⟩

/-- A move in flight does not speak. -/
theorem not_inFlight_of_speaks (hinv : StateInv cfg s) {c : PendingCommand}
    (hpending : s.pendingCommand = some c) (hspeaks : c.speaks = true) : ¬ InFlight s := by
  intro hf
  obtain ⟨-, r, hr, -, -⟩ := hinv.inFlight hf
  rw [hpending, Option.some.injEq] at hr
  rw [hr] at hspeaks
  cases hspeaks

/-- An event that is accepted, told without and with what it makes the session say. A
    session is resumed while its outstanding command has not been executed. -/
theorem told_of_speech {transcript : List TranscriptEntry} (hinv : StateInv cfg s)
    (hpended : Pended s) (h : Told s.sessionId s transcript) (hspeech : Speech svc s s' e out)
    (hunexecuted : e.isReconnected = true → ¬ Working.executed ⟨s, transcript⟩) :
    Told s.sessionId s' (transcript ++ e.said) ∧
      Told s.sessionId s' (transcript ++ e.said ++ out.flatMap (Command.entries svc s')) := by
  cases hspeech with
  | hushed hout hseq hflight hpending =>
      have hnone : out.flatMap (Command.entries svc s') = [] :=
        List.flatMap_eq_nil_iff.mpr (fun c hc => hout c hc s')
      have htold := h.hushed (outboundIds_said e) hseq hflight
      rw [hnone, List.append_nil]
      exact ⟨htold, htold⟩
  | tells x k hout hrole hid hk hafter hpending =>
      have hseq : s.turnSeq ≤ s'.turnSeq := by omega
      have htold := h.hushed (outboundIds_said e) (le_refl s.turnSeq) Or.inr
      refine ⟨h.hushed (outboundIds_said e) hseq (fun hf => absurd hf hafter), ?_⟩
      rw [hout]
      refine htold.more hrole hid (fun j _ hj hf => ?_) ?_ hseq ?_ hafter
      · rcases hk with ⟨rfl, -⟩ | ⟨rfl, hflight, -⟩
        · exact hj
        · exact hf hflight
      · have hnonneg := hinv.turnSeq
        rcases hk with ⟨rfl, -⟩ | ⟨rfl, hflight, -⟩
        · exact hnonneg
        · obtain ⟨-, r, hr, -, -⟩ := hinv.inFlight hflight
          have hpos := hpended (by rw [hr]; exact Option.some_ne_none _)
          omega
      · omega
  | repeats now he hs hout =>
      subst he hs hout
      have hsame : transcript ++ Event.said (.reconnected now) = transcript := List.append_nil _
      rw [hsame]
      refine ⟨h, ?_⟩
      rcases entries_onReconnected svc s' s' with
        ⟨hnone, -⟩ | ⟨c, x, hpending, hspeaks, hx, hrole, hid⟩
      · rwa [hnone, List.append_nil]
      · -- The outstanding turn is the last one, and it is not in the transcript.
        have hnumber := hinv.pendingId _ hpending
        have hpos := hpended (by rw [hpending]; exact Option.some_ne_none _)
        rw [hx]
        refine h.more hrole (by rw [hid, hnumber]; rfl) (fun j hj hlt _ => ?_)
          (by omega : 0 ≤ s'.turnSeq - 1) (le_refl _) (by omega)
          (not_inFlight_of_speaks hinv hpending hspeaks)
        have hne : j ≠ s'.turnSeq - 1 := by
          intro hlast
          refine hunexecuted rfl ⟨c, hpending, hspeaks, ?_⟩
          rw [hnumber]
          rwa [hlast] at hj
        omega

end Speeches

section Replays
variable {svc : DevSession}

/-- What the outstanding command says is in the transcript. -/
def Said (w : Working) : Prop :=
  ∀ c, w.state.pendingCommand = some c → c.speaks = true → some c.turnId ∈ outboundIds w.transcript

theorem said_of_speech {s s' : SessionState} {e : Event} {out : List Command}
    {transcript : List TranscriptEntry} (h : Said ⟨s, transcript⟩)
    (hspeech : Speech svc s s' e out) :
    Said ⟨s', transcript ++ e.said ++ out.flatMap (Command.entries svc s')⟩ := by
  intro c hc hspeaks
  dsimp only at hc ⊢
  rw [outboundIds_append, outboundIds_append]
  have hkept : s.pendingCommand = some c → some c.turnId ∈ outboundIds transcript ++
      outboundIds e.said ++ outboundIds (out.flatMap (Command.entries svc s')) := fun hold =>
    List.mem_append_left _ (List.mem_append_left _ (h c hold hspeaks))
  cases hspeech with
  | hushed hout hseq hflight hpending => exact hkept (hpending c hc hspeaks)
  | tells x k hout hrole hid hk hafter hpending =>
      refine List.mem_append_right _ ?_
      rw [hout, outboundIds_of_other hrole, hpending c hc]
      exact List.mem_singleton_self _
  | repeats now he hs hout =>
      rw [hs] at hc
      exact hkept hc

variable [Scalars]

/-- What an event that is applied does. -/
theorem applyEvent_ok {w w' : Working} {e : Event} (h : applyEvent svc w e = .ok w') :
    ∃ r, transition w.state e svc.config = .ok r ∧ w' = ⟨r.newState,
      w.transcript ++ e.said ++ r.commands.flatMap (Command.entries svc r.newState)⟩ := by
  rw [applyEvent] at h
  cases hr : transition w.state e svc.config with
  | error x =>
      rw [hr] at h
      cases h
  | ok r =>
      rw [hr] at h
      cases h
      exact ⟨r, rfl, rfl⟩

/-- What every event keeps holds after a replay. -/
theorem replay_invariant (P : Working → Prop)
    (hstep : ∀ w e w', P w → applyEvent svc w e = .ok w' → P w') {w w' : Working}
    {es : List Event} (h0 : P w) (h : replay svc w es = .ok w') : P w' := by
  induction es generalizing w with
  | nil =>
      cases h
      exact h0
  | cons e es ih =>
      rw [replay, List.foldlM_cons] at h
      cases hone : applyEvent svc w e with
      | error x =>
          rw [hone] at h
          cases h
      | ok v =>
          rw [hone] at h
          exact ih (hstep w e v h0 hone) h

/-- After a replay the outstanding command has been executed, if it says anything. -/
theorem said_of_replay {w w' : Working} {es : List Event} (hinv : StateInv svc.config w.state)
    (hsaid : Said w) (h : replay svc w es = .ok w') : StateInv svc.config w'.state ∧ Said w' := by
  refine replay_invariant (fun v => StateInv svc.config v.state ∧ Said v)
    (fun a e b hP hone => ?_) ⟨hinv, hsaid⟩ h
  obtain ⟨r, hr, rfl⟩ := applyEvent_ok hone
  have hedge := edge_of_transition hr
  exact ⟨stateInv_of_edge hP.1 hedge, said_of_speech hP.2 (speech_of_edge svc hP.1 hedge)⟩

/-- A replay goes on from wherever a part of it has got. -/
theorem replay_append {w w' : Working} {es fs : List Event}
    (h : replay svc w (es ++ fs) = .ok w') :
    ∃ v, replay svc w es = .ok v ∧ replay svc v fs = .ok w' := by
  rw [replay, List.foldlM_append] at h
  change replay svc w es >>= (fun v => replay svc v fs) = .ok w' at h
  cases hv : replay svc w es with
  | error x =>
      rw [hv] at h
      cases h
  | ok v =>
      rw [hv] at h
      exact ⟨v, rfl, h⟩

/-- A replay only adds to the transcript. -/
theorem replay_extends {w w' : Working} {es : List Event} (h : replay svc w es = .ok w') :
    w.transcript <+: w'.transcript := by
  refine replay_invariant (fun v => w.transcript <+: v.transcript) (fun a e b hP hone => ?_)
    (List.prefix_refl _) h
  obtain ⟨r, hr, rfl⟩ := applyEvent_ok hone
  refine List.IsPrefix.trans hP ?_
  rw [List.append_assoc]
  exact List.prefix_append _ _

/-- The state of a replay is where the machine's run over its events ends. -/
theorem replay_state {planInput : Dict String Json} {ms : List (Taken SessionState Event Command)}
    {s : SessionState} {transcript : List TranscriptEntry} {v : Working}
    (h : SessionRun svc.config svc.sessionId planInput ms s)
    (hv : replay svc ⟨initialState svc.sessionId planInput svc.config, transcript⟩
      (ms.map Taken.event) = .ok v) : v.state = s := by
  induction h generalizing v with
  | nil =>
      cases hv
      rfl
  | snoc ms a b e out _ hab ih =>
      rw [List.map_append, List.map_singleton] at hv
      obtain ⟨u, hu, hone⟩ := replay_append hv
      have hstate := ih hu
      obtain ⟨r, hr, rfl⟩ := applyEvent_ok ((replay_snoc svc u u [] e rfl).symm.trans hone)
      rw [hstate, (step_eq_ok_iff _ _ _ _ _).mp hab, Except.ok.injEq] at hr
      rw [← hr]

/-- Resuming a session leaves its state as it is. -/
theorem transition_reconnected {s : SessionState} {now : Instant} {cfg : OrchestratorConfig}
    {r : TransitionResult} (h : transition s (.reconnected now) cfg = .ok r) :
    r.newState = s ∧
      ((¬ live s ∧ r.commands = []) ∨ r.commands = (onReconnected s).commands) := by
  unfold transition at h
  by_cases hover : s.phase ∈ terminalPhases
  · rw [if_pos hover] at h
    cases h
    exact ⟨rfl, Or.inl ⟨not_not.mpr hover, rfl⟩⟩
  · rw [if_neg hover] at h
    cases h
    refine ⟨?_, Or.inr rfl⟩
    unfold onReconnected
    cases s.pendingCommand with
    | none => rfl
    | some c => rfl

/-- A session whose outstanding command has been executed says it again. -/
theorem repeats_of_reconnected {w w' : Working} {now : Instant} {c : PendingCommand}
    (hinv : StateInv svc.config w.state) (hsaid : Said w)
    (hpending : w.state.pendingCommand = some c) (hspeaks : c.speaks = true)
    (h : applyEvent svc w (.reconnected now) = .ok w') : ¬ (outboundIds w'.transcript).Nodup := by
  obtain ⟨r, hr, rfl⟩ := applyEvent_ok h
  obtain ⟨-, ⟨hdead, -⟩ | hcommands⟩ := transition_reconnected hr
  · exact absurd (hinv.live_of_pending hpending) hdead
  rcases entries_onReconnected svc w.state r.newState with
    ⟨-, hmute⟩ | ⟨c', x, hpending', -, hx, hrole, hid⟩
  · rw [hmute c hpending] at hspeaks
    cases hspeaks
  · rw [hpending, Option.some.injEq] at hpending'
    subst hpending'
    have hold := hsaid c hpending hspeaks
    dsimp only
    rw [hcommands, hx, outboundIds_append, outboundIds_append, outboundIds_said, List.append_nil,
      outboundIds_of_other hrole, hid]
    exact fun hnodup => List.disjoint_of_nodup_append hnodup hold (List.mem_singleton_self _)

end Replays

section Stripped

/-- The event is one that resumes the session. -/
def Effect.resumes : Effect → Bool
  | .accepted e _ => e.isReconnected
  | _ => false

/-- What is observed but for the events that resume the session. -/
def unresumed (outs : List Effect) : List Effect := outs.filter (fun x => !x.resumes)

theorem unresumed_append (xs ys : List Effect) :
    unresumed (xs ++ ys) = unresumed xs ++ unresumed ys := List.filter_append ..

theorem accepted_unresumed (outs : List Effect) :
    accepted (unresumed outs) = (accepted outs).filter (fun e => !e.isReconnected) := by
  induction outs with
  | nil => rfl
  | cons x outs ih =>
      rw [← List.singleton_append, unresumed_append, accepted_append, accepted_append,
        List.filter_append, ih]
      congr 1
      cases x with
      | accepted e commands => cases e <;> rfl
      | interviewerCalled | assessorCalled => rfl

/-- Where nothing is accepted the session is not resumed. -/
theorem unresumed_of_quiet {out : List Effect} (h : accepted out = []) : unresumed out = out := by
  refine List.filter_eq_self.mpr (fun x hx => ?_)
  cases x with
  | accepted e commands =>
      rw [accepted, List.filterMap_eq_nil_iff] at h
      exact absurd (h _ hx) (Option.some_ne_none e)
  | interviewerCalled | assessorCalled => rfl

end Stripped

section Invariant
variable [Scalars] (svc : DevSession) (planInput : Dict String Json)

/-- The invariant: what the row holds is what the events give without those that
    resumed the session, and nothing is told twice, neither in the row nor once a task
    with a current copy has paid what it owes. -/
structure Resumed (start : Working) (outs : List Effect) (w : World) (C : Nat → Prop) : Prop where
  coherent : Coherent svc start (unresumed outs) w C
  follows : Follows svc planInput outs w
  told : Told svc.sessionId w.row.state w.row.transcript
  owed : ∀ i, C i → Told svc.sessionId w.row.state (w.row.transcript ++ w.owes svc i)

variable {svc planInput} {start : Working} {outs out : List Effect} {a b : World}
  {C C' : Nat → Prop}

/-- A task that resumes the session says what is owed already, which leaves two tasks
    that owe it, or it says nothing. -/
theorem serial_of_resume {i : Nat} (hother : ∀ j, j ≠ i → b.owes svc j = a.owes svc j)
    (hC : ∀ j, j ≠ i → C' j → C j ∧ b.row = a.row) (hfree : a.owes svc i = [])
    (hrow : b.row = a.row)
    (hself : b.owes svc i = [] ∨ (b.owes svc i ≠ [] ∧ ∃ c, a.row.state.pendingCommand = some c ∧
      c.speaks = true ∧ some c.turnId ∉ outboundIds a.row.transcript))
    (hsaid : ∀ v, replay svc start (accepted outs) = .ok v → Said v)
    (h : Stuck svc a C ∨ Serial svc start outs a) : Stuck svc b C' ∨ Serial svc start outs b := by
  rcases hself with hnone | ⟨howes, c, hpending, hspeaks, hnew⟩
  · have hcalm : Stuck svc b C' ∨ Serial svc start (outs ++ []) b :=
      serial_of_calm hrow (fun j => ?_) rfl (fun j hj hc => ?_) h
    · rwa [List.append_nil] at hcalm
    · by_cases hji : j = i
      · rw [hji, hnone, hfree]
      · exact hother j hji
    · exact (hC j (fun hji => hj (by rw [hji, hfree])) hc).1
  · rcases h with hstuck | ⟨debt, hreplay, -, hdebt⟩
    · exact Or.inl (stuck_of_stuck hother hC hfree hstuck)
    · -- The entry is not in the row, so the task that was first to say it owes it.
      have hmem := hsaid _ hreplay c hpending hspeaks
      dsimp only at hmem
      rw [outboundIds_append, List.mem_append] at hmem
      have hin := hmem.resolve_left hnew
      have hne : debt ≠ [] := by
        rintro rfl
        cases hin
      obtain ⟨j, hj⟩ := hdebt.resolve_left hne
      have hji : j ≠ i := by
        rintro rfl
        exact hne (hj.symm.trans hfree)
      refine Or.inl (Or.inr ⟨i, j, hji.symm, howes, ?_⟩)
      rw [hother j hji, hj]
      exact hne

/-- What one step of the service does to what is told. -/
theorem told_of_written (hinv : StateInv svc.config a.row.state) (hpended : Pended a.row.state)
    (hid : a.row.state.sessionId = svc.sessionId)
    (htold : Told svc.sessionId a.row.state a.row.transcript)
    (howed : ∀ i, C i → Told svc.sessionId a.row.state (a.row.transcript ++ a.owes svc i))
    (hunexecuted : ∀ now commands, .accepted (.reconnected now) commands ∈ out →
      ¬ a.row.executed)
    (h : Written svc a b C C' out) :
    Told svc.sessionId b.row.state b.row.transcript ∧
      ∀ i, C' i → Told svc.sessionId b.row.state (b.row.transcript ++ b.owes svc i) := by
  -- Nobody else's copy stays current when the row changes.
  have hothers (i : Nat) (hother : ∀ j, j ≠ i → b.owes svc j = a.owes svc j)
      (hC : ∀ j, j ≠ i → C' j → C j ∧ b.row = a.row) (j : Nat) (hji : j ≠ i) (hj : C' j) :
      Told svc.sessionId b.row.state (b.row.transcript ++ b.owes svc j) := by
    obtain ⟨hc, hsame⟩ := hC j hji hj
    rw [hother j hji, hsame]
    exact howed j hc
  cases h with
  | calm hrow howes hout hC =>
      rw [hrow]
      refine ⟨htold, fun j hj => ?_⟩
      rw [howes]
      by_cases hnone : a.owes svc j = []
      · rw [hnone, List.append_nil]
        exact htold
      · exact howed j (hC j hnone hj)
  | persisted i d e commands hother hC hfree hmatch hrow hself hout =>
      obtain ⟨htransition, hsaid⟩ := hmatch
      have hspeech := speech_of_edge svc hinv (edge_of_transition htransition)
      have hresumed : e.isReconnected = true →
          ¬ Working.executed ⟨a.row.state, a.row.transcript⟩ := by
        intro he
        cases e with
        | reconnected now =>
            exact hunexecuted now commands (by rw [hout]; exact List.mem_singleton_self _)
        | _ => cases he
      rw [← hid] at htold
      obtain ⟨hrowTold, hselfTold⟩ := told_of_speech hinv hpended htold hspeech hresumed
      rw [← hsaid, hid] at hrowTold hselfTold
      refine ⟨by rw [hrow]; exact hrowTold, fun j hj => ?_⟩
      by_cases hji : j = i
      · rw [hji, hself, hrow]
        exact hselfTold
      · exact hothers i hother hC j hji hj
  | saved i d mark followUps hother hC hcurrent howes hmatch hrow hself hout =>
      obtain ⟨hstate, hmark, htake⟩ := hmatch
      have hpaid := howed i hcurrent
      rw [howes, ← htake, List.take_append_drop, ← hstate, ← hrow] at hpaid
      refine ⟨hpaid, fun j hj => ?_⟩
      by_cases hji : j = i
      · rw [hji, hself, List.append_nil]
        exact hpaid
      · exact hothers i hother hC j hji hj

/-- A step of the service keeps the invariant. -/
theorem resumed_shell {c : Choice} (hstart : StateInv svc.config start.state)
    (hsilent : Said start) (h : Resumed svc planInput start outs a C)
    (hstep : shellStep svc a c = .ok (b, out))
    (hcommits : ∀ i, commits i ⟨a, c, b, out⟩ → C i)
    (hunexecuted : ∀ now commands, .accepted (.reconnected now) commands ∈ out →
      ¬ a.row.executed) :
    Resumed svc planInput start (outs ++ out) b
      (fun i => looks i ⟨a, c, b, out⟩ ∨ (C i ∧ b.row = a.row)) := by
  obtain ⟨ms, hrun, -, -⟩ := h.follows
  have hwritten := written_of_step h.coherent hstep hcommits
  obtain ⟨htold, howed⟩ := told_of_written (SessionRun.stateInv hrun) (SessionRun.pended hrun)
    (SessionRun.identity hrun).id_eq h.told h.owed hunexecuted hwritten
  have hcoherent := coherent_step h.coherent hstep hcommits
  refine ⟨⟨hcoherent.quiet, hcoherent.inStep, ?_⟩,
    follows_step svc h.coherent hcommits h.follows hstep, htold, howed⟩
  rw [unresumed_append]
  -- What does not resume the session is part of the replay.
  have hcounted : unresumed out = out → Stuck svc b (fun i => looks i ⟨a, c, b, out⟩ ∨
      (C i ∧ b.row = a.row)) ∨ Serial svc start (unresumed outs ++ unresumed out) b := by
    intro hout
    rw [hout]
    exact hcoherent.serial
  cases hwritten with
  | calm hrow howes hout hC => exact hcounted (unresumed_of_quiet hout)
  | saved i d mark followUps hother hC hcurrent howes hmatch hrow hself hout =>
      exact hcounted (unresumed_of_quiet hout)
  | persisted i d e commands hother hC hfree hmatch hrow hself hout =>
      cases e with
      | reconnected now =>
          obtain ⟨htransition, hsaid⟩ := hmatch
          obtain ⟨hstate, hcommands⟩ := transition_reconnected htransition
          have hsame : b.row = a.row := by
            rw [hrow]
            exact Working.ext hstate (hsaid.trans (List.append_nil _))
          have hnone : unresumed out = [] := by
            rw [hout]
            rfl
          rw [hnone, List.append_nil]
          refine serial_of_resume hother hC hfree hsame ?_
            (fun v hv => (said_of_replay hstart hsilent hv).2) h.coherent.serial
          rw [hself]
          rcases hcommands with ⟨-, rfl⟩ | rfl
          · exact Or.inl rfl
          · rcases entries_onReconnected svc a.row.state d.working.state with
              ⟨hnone, -⟩ | ⟨c, x, hpending, hspeaks, hx, -, -⟩
            · exact Or.inl hnone
            · have hnew := hunexecuted now _ (by rw [hout]; exact List.mem_singleton_self _)
              refine Or.inr ⟨?_, c, hpending, hspeaks, fun hmem => ?_⟩
              · rw [hx]
                exact List.cons_ne_nil _ _
              · exact hnew ⟨c, hpending, hspeaks, hmem⟩
      | _ => exact hcounted (by rw [hout]; rfl)

/-- A client that comes back keeps the invariant. -/
theorem resumed_reconnect {now : Instant} (h : Resumed svc planInput start outs a C)
    (hC : ∀ j, C' j → C j) : Resumed svc planInput start (outs ++ [])
      { a with tasks := a.tasks ++ [.load (.feed (.reconnected now))] } C' := by
  have hquiet : (Errand.feed (.reconnected now)).Silent := rfl
  have hadded := coherent_added h.coherent hquiet hC
  rw [List.append_nil] at hadded ⊢
  refine ⟨hadded, h.follows, h.told, fun j hj => ?_⟩
  rw [World.owes_append svc a _ _ _ (fun t ht => ?_) j]
  · exact h.owed j (hC j hj)
  · rw [List.mem_singleton.mp ht]
    rfl

omit [Scalars] in
theorem viaShell_shell {Q : Nat → Taken World Choice Effect → Prop} {i : Nat} {c : Choice} :
    viaShell Q i ⟨a, .shell c, b, out⟩ ↔ Q i ⟨a, c, b, out⟩ := by
  constructor
  · rintro ⟨c', hevent, hQ⟩
    cases hevent
    exact hQ
  · exact fun hQ => ⟨c, rfl, hQ⟩

omit [Scalars] in
theorem not_viaShell_reconnect {Q : Nat → Taken World Choice Effect → Prop} {i : Nat}
    {now : Instant} : ¬ viaShell Q i ⟨a, .reconnect now, b, out⟩ := by
  rintro ⟨c, hevent, -⟩
  cases hevent

/-- Every step of an up-to-date run keeps the invariant, if no executed command is
    resumed. -/
theorem resumed_step {choice : ResumeChoice} (hstart : StateInv svc.config start.state)
    (hsilent : Said start) (h : Resumed svc planInput start outs a C)
    (hstep : resumingStep svc a choice = .ok (b, out))
    (hunexecuted : ∀ now commands, .accepted (.reconnected now) commands ∈ out →
      ¬ a.row.executed)
    (hcommits : ∀ i, viaShell commits i ⟨a, choice, b, out⟩ → C i) :
    Resumed svc planInput start (outs ++ out) b
      (fun i => viaShell looks i ⟨a, choice, b, out⟩ ∨ (C i ∧ b.row = a.row)) := by
  cases choice with
  | shell c =>
      simp only [viaShell_shell] at hcommits ⊢
      exact resumed_shell hstart hsilent h hstep hcommits hunexecuted
  | reconnect now =>
      cases hstep
      refine resumed_reconnect h (fun j hj => ?_)
      exact (hj.resolve_left not_viaShell_reconnect).1

theorem resumed_created {now : Instant} : Resumed svc planInput (created svc planInput now).row []
    (created svc planInput now) (fun i => i = 0) where
  coherent := coherent_created
  follows := ⟨[], Run.nil, rfl, rfl⟩
  told := ⟨[], rfl, List.Pairwise.nil, fun k hk => absurd hk List.not_mem_nil⟩
  owed := by
    intro i hi
    rw [hi]
    exact ⟨[], rfl, List.Pairwise.nil, fun k hk => absurd hk List.not_mem_nil⟩

end Invariant

section Main
variable [Scalars] (svc : DevSession) (planInput : Dict String Json) (now : Instant)
  {ts : List (Taken World ResumeChoice Effect)} {w : World}

/-- The invariant of a whole run. -/
theorem resumed_run (h : Run (resumingStep svc) (created svc planInput now) ts w)
    (hts : ResumedUpToDate ts) (hunexecuted : Unexecuted ts) :
    Resumed svc planInput (created svc planInput now).row (outputs ts) w
      (Current World.row (viaShell looks) (fun i => i = 0) ts) := by
  have hstart := stateInv_initialState svc.config svc.sessionId planInput
  refine Run.copies_invariant_where World.row (viaShell looks) (viaShell commits) (fun i => i = 0)
    (fun t => ∀ now commands,
      Effect.accepted (.reconnected now) commands ∈ t.out → ¬ t.before.row.executed)
    (Resumed svc planInput (created svc planInput now).row) resumed_created
    (fun outs C a choice b out ha hstep hnew hcommits => ?_) h hts hunexecuted
  exact resumed_step hstart (fun c hc => by cases hc) ha hstep hnew hcommits

/-- However often the session is resumed, the row of an up-to-date run follows what has
    been accepted. -/
theorem coherent_resumed (h : Run (resumingStep svc) (created svc planInput now) ts w)
    (hts : ResumedUpToDate ts) :
    Coherent svc (created svc planInput now).row (outputs ts) w
        (Current World.row (viaShell looks) (fun i => i = 0) ts) ∧
      Follows svc planInput (outputs ts) w := by
  refine Run.copies_invariant World.row (viaShell looks) (viaShell commits) (fun i => i = 0)
    (fun outs w C => Coherent svc (created svc planInput now).row outs w C ∧
      Follows svc planInput outs w)
    ⟨coherent_created, [], Run.nil, rfl, rfl⟩
    (fun outs C a choice b out ha hstep hcommits => ?_) h hts
  cases choice with
  | shell c =>
      simp only [viaShell_shell] at hcommits ⊢
      exact ⟨coherent_step ha.1 hstep hcommits, follows_step svc ha.1 hcommits ha.2 hstep⟩
  | reconnect now =>
      cases hstep
      have hquiet : (Errand.feed (.reconnected now)).Silent := rfl
      refine ⟨coherent_added ha.1 hquiet (fun j hj => ?_), ?_⟩
      · exact (hj.resolve_left not_viaShell_reconnect).1
      · rw [List.append_nil]
        exact ha.2

/-- A step that accepts an event accepts nothing else. -/
theorem accepted_of_resuming {start : Working} {outs out : List Effect} {a b : World}
    {C : Nat → Prop} {choice : ResumeChoice} (h : Coherent svc start outs a C)
    (hstep : resumingStep svc a choice = .ok (b, out))
    (hcommits : ∀ i, viaShell commits i ⟨a, choice, b, out⟩ → C i) {e : Event}
    {commands : List Command} (he : .accepted e commands ∈ out) : accepted out = [e] := by
  have hmem : e ∈ accepted out := List.mem_filterMap.mpr ⟨_, he, rfl⟩
  cases choice with
  | reconnect now =>
      cases hstep
      cases he
  | shell c =>
      simp only [viaShell_shell] at hcommits
      cases written_of_step h hstep hcommits with
      | calm hrow howes hout hC =>
          rw [hout] at hmem
          cases hmem
      | saved i d mark followUps hother hC hcurrent howes hmatch hrow hself hout =>
          rw [hout] at hmem
          cases hmem
      | persisted i d e' commands' hother hC hfree hmatch hrow hself hout =>
          rw [hout, List.mem_singleton] at he
          cases he
          rw [hout]
          rfl

/-- Where nothing has been said twice no executed command was resumed. -/
theorem unexecuted_of_nodup (h : Run (resumingStep svc) (created svc planInput now) ts w)
    (hts : ResumedUpToDate ts) (hw : w.settled)
    (hnodup : (outboundIds w.row.transcript).Nodup) : Unexecuted ts := by
  rintro t ht again commands hresumed ⟨c, hpending, hspeaks, -⟩
  obtain ⟨us, vs, rfl⟩ := List.append_of_mem ht
  obtain ⟨hrun, hstep⟩ := h.split us t vs rfl
  have hbefore : ResumedUpToDate us := fun us' u vs' hus =>
    hts us' u (vs' ++ t :: vs) (by rw [hus, List.append_assoc, List.cons_append])
  obtain ⟨hcoherent, ms, hsession, hevents, -⟩ := coherent_resumed svc planInput now hrun hbefore
  have haccepted := accepted_of_resuming svc hcoherent hstep (hts us t vs rfl) hresumed
  -- The row is the replay of everything, in which the resumed command is said again.
  have hserial := (coherent_resumed svc planInput now h hts).1.replay_of_settled hw
  have hsplit : accepted (outputs (us ++ t :: vs))
      = accepted (outputs us) ++ ([.reconnected again] ++ accepted (outputs vs)) := by
    rw [← haccepted, ← accepted_append, ← accepted_append]
    simp only [outputs, List.flatMap_append, List.flatMap_cons]
  rw [hsplit] at hserial
  obtain ⟨v, hv, hrest⟩ := replay_append hserial
  obtain ⟨u, hu, hrest⟩ := replay_append hrest
  have hstate : v.state = t.before.row.state := by
    rw [← hevents] at hv
    exact replay_state hsession hv
  have hstart := stateInv_initialState svc.config svc.sessionId planInput
  obtain ⟨hinv, hsaid⟩ := said_of_replay hstart (fun c hc => by cases hc) hv
  have hone : applyEvent svc v (.reconnected again) = .ok u :=
    (replay_snoc svc v v [] (.reconnected again) rfl).symm.trans hu
  refine repeats_of_reconnected hinv hsaid (by rw [hstate]; exact hpending) hspeaks hone ?_
  obtain ⟨more, hmore⟩ := replay_extends hrest
  rw [← hmore, outboundIds_append] at hnodup
  exact hnodup.of_append_left

/-- A session that is resumed only while its outstanding command has not been executed
    says nothing twice, and when everything has finished it is as if it had not been
    resumed. No other session that is resumed says nothing twice. -/
theorem resumed_once (h : Run (resumingStep svc) (created svc planInput now) ts w)
    (hts : ResumedUpToDate ts)
    (hinj : Set.InjOn (outboundId svc.sessionId) (Set.Ico 0 w.row.state.turnSeq)) :
    (Unexecuted ts → (outboundIds w.row.transcript).Nodup ∧
      (w.settled → ∀ ts' w', Run (shellStep svc) (created svc planInput now) ts' w' →
        UpToDate ts' → w'.settled →
        accepted (outputs ts') = (accepted (outputs ts)).filter (fun e => !e.isReconnected) →
        w'.row = w.row)) ∧
      (w.settled → (outboundIds w.row.transcript).Nodup → Unexecuted ts) := by
  refine ⟨fun hunexecuted => ?_, unexecuted_of_nodup svc planInput now h hts⟩
  have hresumed := resumed_run svc planInput now h hts hunexecuted
  refine ⟨hresumed.told.nodup hinj, fun hw ts' w' h' hts' hw' hevents => ?_⟩
  have hreplay := serial_of_upToDate svc planInput now ts' w' h' hts' hw'
  rw [hevents, ← accepted_unresumed, hresumed.coherent.replay_of_settled hw] at hreplay
  exact (Except.ok.inj hreplay).symm

end Main

section SmallResume

/-- What a step does to the row, as a check sees it. -/
def resumeTurnOf (t : Taken World ResumeChoice Effect) : Turn Nat :=
  match t.event with
  | .shell c => turnOf ⟨t.before, c, t.after, t.out⟩
  | .reconnect _ => ⟨0, false, false⟩

/-- A run in which the tasks take turns at the row is up to date. -/
theorem resumedUpToDate_of_turns [Scalars] (svc : DevSession) {planInput : Dict String Json}
    {now : Instant} {ts : List (Taken World ResumeChoice Effect)} {w : World}
    (h : Run (resumingStep svc) (created svc planInput now) ts w)
    (hturns : Turns (some 0) (ts.map resumeTurnOf) = true) : ResumedUpToDate ts := by
  intro us t vs hts i hi
  rw [← List.nil_append us]
  refine undisturbed_of_turns World.row (viaShell looks) (viaShell commits) (fun i => i = 0)
    resumeTurnOf ?_ ?_ [] ts ?_ (some 0) (fun j hj => ?_) hturns us t vs hts i hi
  · rintro ⟨a, choice, b, out⟩ haccess
    cases choice with
    | shell c => exact viaShell_shell.mpr (looks_of_turnOf haccess)
    | reconnect now => exact absurd haccess (by simp [resumeTurnOf])
  · rintro i ⟨a, choice, b, out⟩ hcommit
    cases choice with
    | shell c => exact turnOf_of_commits (viaShell_shell.mp hcommit)
    | reconnect now => exact absurd hcommit not_viaShell_reconnect
  · rintro ⟨a, choice, b, out⟩ ht hcommit
    rcases h.of_mem _ ht with ⟨_, _, _, hstep⟩
    cases choice with
    | shell c => exact keeps_of_turnOf svc (t := ⟨a, c, b, out⟩) hstep hcommit
    | reconnect now =>
        change resumingStep svc a (.reconnect now) = .ok (b, out) at hstep
        cases hstep
        rfl
  · rw [Option.some.injEq] at hj
    rw [current_nil]
    exact hj.symm

instance (w : Working) : Decidable w.executed :=
  inferInstanceAs (Decidable (∃ c ∈ w.state.pendingCommand, _))

/-- No executed command is resumed in the step, as a check sees it. -/
def unexecuted (t : Taken World ResumeChoice Effect) : Bool :=
  t.out.all (fun x => !x.resumes) || !decide t.before.row.executed

theorem unexecuted_of_check {ts : List (Taken World ResumeChoice Effect)}
    (h : ts.all unexecuted = true) : Unexecuted ts := by
  intro t ht now commands hresumed
  rcases Bool.or_eq_true_iff.mp (List.all_eq_true.mp h t ht) with hnone | hnew
  · have hone := List.all_eq_true.mp hnone _ hresumed
    cases hone
  · exact of_decide_eq_false ((Bool.not_eq_true' _).mp hnew)

deriving instance DecidableEq for Event

abbrev SmallResume : List (Taken World ResumeChoice Effect) → World → Prop :=
  Run (@resumingStep smallService Scalars.strict) (created smallService smallInput 0)

abbrev smallResumeRecord (cs : List ResumeChoice) :
    Except Blocked (List (Taken World ResumeChoice Effect) × World) :=
  record (@resumingStep smallService Scalars.strict) (created smallService smallInput 0) cs

/-- The creation of a session and its first candidate turn, where the call of the
    interviewer is interrupted and made again for the client that comes back. -/
def smallInterrupted : List ResumeChoice :=
  (goes 7 0 (answering 0 "" "sql" 0)
      ++ .post "ready" :: goes 5 1 ⟨1000000, .raised, .raised⟩).map .shell
    ++ .reconnect 1500000 :: (goes 14 2 (answering 1000000 "Joins?" "sql" 0)).map .shell

/-- The events of the first candidate turn. -/
def smallOpeningEvents : List Event :=
  [.sessionStarted 0, .candidateTurnReceived (candidateTurnId smallId 0) "ready" 1000000,
    .interviewerReplyReady (outboundId smallId 1) ⟨"Joins?", .askSeed⟩ 1000000]

theorem resumed_once_small : ∃ ts w ts' w', SmallResume ts w ∧ SmallShell ts' w' ∧
    (accepted (outputs ts)).any Event.isReconnected = true ∧ Unexecuted ts ∧
    (outboundIds w.row.transcript).Nodup ∧ w'.row = w.row := by
  have hrec : (smallResumeRecord smallInterrupted).map (fun r =>
      (Turns (some 0) (r.1.map resumeTurnOf), r.1.all unexecuted, r.2.tasks.all ShellTask.over,
        r.2.row.state.turnSeq, (accepted (outputs r.1)).any Event.isReconnected,
        decide ((accepted (outputs r.1)).filter (fun e => !e.isReconnected) = smallOpeningEvents)))
        = .ok (true, true, true, 2, true, true) := by decide +kernel
  have hplain : (smallShellRecord smallOpening).map (fun r => (Turns (some 0) (r.1.map turnOf),
      r.2.tasks.all ShellTask.over, accepted (outputs r.1)))
        = .ok (true, true, smallOpeningEvents) := by decide +kernel
  have hnodup : ((List.range 2).map (fun k : Nat => outboundId smallId k)).Nodup := by
    decide +kernel
  obtain ⟨ts, w, hrun, hproj⟩ := exists_run_of_record _ _ _ _ _ hrec
  obtain ⟨ts', w', hrun', hproj'⟩ := exists_run_of_record _ _ _ _ _ hplain
  simp only [Prod.mk.injEq] at hproj hproj'
  obtain ⟨hturns, hcheck, hover, hseq, hresumed, hevents⟩ := hproj
  obtain ⟨hturns', hover', hevents'⟩ := hproj'
  have hunexecuted := unexecuted_of_check hcheck
  have hdate := @resumedUpToDate_of_turns Scalars.strict smallService smallInput 0 ts w hrun hturns
  have hdate' := @upToDate_of_turns Scalars.strict smallService smallInput 0 ts' w' hrun' hturns'
  have hall := @resumed_once Scalars.strict smallService smallInput 0 ts w hrun hdate
    (by rw [hseq]; exact outboundId_injOn smallId 2 hnodup)
  obtain ⟨hnodup, hsame⟩ := hall.1 hunexecuted
  exact ⟨ts, w, ts', w', hrun, hrun', hresumed, hunexecuted, hnodup,
    hsame (settled_of_all hover) ts' w' hrun' hdate' (settled_of_all hover')
      (hevents'.trans (of_decide_eq_true hevents).symm)⟩

/-- The creation of a session, and a client that comes back after it. -/
def smallReturn : List ResumeChoice :=
  (goes 7 0 (answering 0 "" "sql" 0)).map .shell
    ++ .reconnect 1000000 :: (goes 9 1 (answering 1000000 "" "sql" 0)).map .shell

/-- A client that comes back after the opening is told the opening once more, and the
    row is not what it is without it. -/
theorem reconnect_repeats_opening : ∃ ts w ts' w', SmallResume ts w ∧ ResumedUpToDate ts ∧
    w.settled ∧ SmallShell ts' w' ∧ UpToDate ts' ∧ w'.settled ∧
    accepted (outputs ts') = (accepted (outputs ts)).filter (fun e => !e.isReconnected) ∧
    outboundIds w.row.transcript = [some (outboundId smallId 0), some (outboundId smallId 0)] ∧
    ¬ (outboundIds w.row.transcript).Nodup ∧ w'.row ≠ w.row := by
  have hrec : (smallResumeRecord smallReturn).map (fun r =>
      (Turns (some 0) (r.1.map resumeTurnOf), r.2.tasks.all ShellTask.over,
        outboundIds r.2.row.transcript,
        (accepted (outputs r.1)).filter (fun e => !e.isReconnected)))
        = .ok (true, true, [some (outboundId smallId 0), some (outboundId smallId 0)],
          [.sessionStarted 0]) := by decide +kernel
  have hplain : (smallShellRecord (goes 7 0 (answering 0 "" "sql" 0))).map (fun r =>
      (Turns (some 0) (r.1.map turnOf), r.2.tasks.all ShellTask.over,
        outboundIds r.2.row.transcript, accepted (outputs r.1)))
        = .ok (true, true, [some (outboundId smallId 0)], [.sessionStarted 0]) := by decide +kernel
  obtain ⟨ts, w, hrun, hproj⟩ := exists_run_of_record _ _ _ _ _ hrec
  obtain ⟨ts', w', hrun', hproj'⟩ := exists_run_of_record _ _ _ _ _ hplain
  simp only [Prod.mk.injEq] at hproj hproj'
  obtain ⟨hturns, hover, hids, hevents⟩ := hproj
  obtain ⟨hturns', hover', hids', hevents'⟩ := hproj'
  refine ⟨ts, w, ts', w', hrun,
    @resumedUpToDate_of_turns Scalars.strict smallService smallInput 0 ts w hrun hturns,
    settled_of_all hover, hrun',
    @upToDate_of_turns Scalars.strict smallService smallInput 0 ts' w' hrun' hturns',
    settled_of_all hover', hevents'.trans hevents.symm, hids, ?_, fun hsame => ?_⟩
  · rw [hids]
    simp
  · rw [hsame, hids] at hids'
    cases hids'

end SmallResume

end TechScreen
