import TechScreen.Orchestrator.Delivery
import TechScreen.Services.Conversation
import TechScreen.Services.NodeIds

/-!
# The Transcript

What a transcript looks like when calls and tasks are executed one after another.
It is the record of a dialogue: the scripted opening, then exchanges of a message
and its reply, and at the end perhaps a message that has no reply, alone or with
the scripted closing. `Dialogue` says this of itself, without a machine. That the
candidate and the interviewer take turns is then a matter of what the session
waits for: an event of the conversation adds to the dialogue what suits the state,
and leaves a state that suits what it has added.

The service finds the question and the answer that an assessor is given from the
end of the transcript. In a dialogue this is the message that has just arrived and
the reply before it.

## Main definitions

* `Beat`: What an event of the conversation adds to the transcript.
* `Dialogue`: The opening, the exchanges and the ending.
* `Dialogue.Suits`: The state waits for what comes next in the dialogue.
* `Numbered`: The identifiers of the entries.

## Theorems

* `beat_of_converse`: Every event of the conversation is a beat of it.
* `spoken_of_beat`: A beat takes a dialogue to a dialogue.
* `numbered_of_beat`: And numbers what it adds.
* `transcript_alternates`: The transcript of a run, and what assessors are given.
-/

namespace TechScreen

open Lib

section Beats
variable (svc : DevSession)

/-- What an event of the conversation adds to the transcript, and what the session
    waits for before and after it. -/
inductive Beat (w w' : Working) : Event → Prop
  | opens (now : Instant) (hbefore : w.state.phase = .created) (hafter : w'.state.phase = .intro)
      (hseq : w'.state.turnSeq = w.state.turnSeq + 1)
      (hsaid : w'.transcript = w.transcript ++ [scriptEntry svc w'.state openingScriptPath
        (outboundId w.state.sessionId w.state.turnSeq)]) : Beat w w' (.sessionStarted now)
  | hears (turnId : Uuid) (text : String) (now : Instant) (hbefore : Admitted w.state)
      (hafter : InFlight w'.state) (hseq : w'.state.turnSeq = w.state.turnSeq + 1)
      (hsaid : w'.transcript = w.transcript ++ [⟨.candidate, text, some turnId⟩]) :
      Beat w w' (.candidateTurnReceived turnId text now)
  | closes (turnId : Uuid) (text : String) (now : Instant) (hbefore : AwaitsCandidate w.state)
      (hafter : w'.state.phase = .close) (hseq : w'.state.turnSeq = w.state.turnSeq + 1)
      (hsaid : w'.transcript = w.transcript ++ [⟨.candidate, text, some turnId⟩,
        scriptEntry svc w'.state closingScriptPath
          (outboundId w.state.sessionId w.state.turnSeq)]) :
      Beat w w' (.candidateTurnReceived turnId text now)
  | replies (output : InterviewerOutput) (now : Instant) (hbefore : InFlight w.state)
      (hafter : AwaitsCandidate w'.state) (hseq : w'.state.turnSeq = w.state.turnSeq)
      (hsaid : w'.transcript = w.transcript ++ [⟨.interviewer, output.utterance,
        some (outboundId w.state.sessionId (w.state.turnSeq - 1))⟩]) :
      Beat w w' (.interviewerReplyReady
        (outboundId w.state.sessionId (w.state.turnSeq - 1)) output now)
  | keeps (e : Event) (hphase : w'.state.phase = w.state.phase)
      (hawaiting : w'.state.awaiting = w.state.awaiting)
      (hseq : w'.state.turnSeq = w.state.turnSeq) (hsaid : w'.transcript = w.transcript) :
      Beat w w' e
  | ends (e : Event) (hafter : ¬ live w'.state) (hseq : w'.state.turnSeq = w.state.turnSeq)
      (hsaid : w'.transcript = w.transcript) : Beat w w' e

variable {svc}

omit svc in
theorem Admitted.live {s : SessionState} (h : Admitted s) : live s := by
  rcases h with hphase | ⟨hphase | hphase, _⟩ <;> simp [TechScreen.live, hphase, terminalPhases]

omit svc in
theorem Event.said_of_other {e : Event} (h : e.isCandidateTurn = false) : e.said = [] := by
  cases e with
  | candidateTurnReceived => cases h
  | _ => rfl

variable [Scalars]

/-- Only a message takes Q&A to the closing. -/
theorem not_closing_of_fits {w : Working} {e : Event} {s' : SessionState}
    {c : EmitScriptedClosing} (hphase : w.state.phase = .qa) (hfits : e.Fits svc w)
    (hturn : e.isCandidateTurn = false) :
    transition w.state e svc.config ≠ .ok ⟨s', [.emitScriptedClosing c, .persistState]⟩ := by
  intro h
  have hquiet : e.failedTurn = none → (∀ now, e = .timerTick now → w.state.phase = .close) →
      (∀ now, e ≠ .reconnected now) → False := by
    intro hfailed htick hreconnected
    have hnone := quiet_of_transition h hturn hfailed htick hreconnected _ List.mem_cons_self
    cases hnone
  cases e with
  | candidateTurnReceived turnId text now => cases hturn
  | interviewerFailed turnId errorKind now =>
      obtain ⟨k, hcalling, rfl⟩ := hfits
      rw [transition_of_failed hcalling, Except.ok.injEq] at h
      split at h <;> simp [abort] at h
  | timerTick now =>
      rw [hfits] at hphase
      cases hphase
  | reconnected now => exact hfits
  | sessionStarted | interviewerReplyReady | assessmentCompleted | assessmentFailed
  | operatorAbort => exact hquiet rfl (fun _ hc => by cases hc) (fun _ hc => by cases hc)

/-- Every event of the conversation is a beat of it. -/
theorem beat_of_converse {w w' : Working} {e : Event} {out : List Command}
    (hinv : StateInv svc.config w.state) (hfits : e.Fits svc w)
    (h : converse svc w e = .ok (w', out)) : Beat svc w w' e := by
  obtain ⟨s', transcript'⟩ := w'
  obtain ⟨htransition, hsaid⟩ := (converse_eq_ok_iff _ _ _ _).mp h
  dsimp only at htransition hsaid
  have hedge := edge_of_transition htransition
  -- An answer is assessed without a word to the candidate.
  have hsilent : ∀ c, Command.runAssessor c ∈ out → out.flatMap (Command.entries svc s') = [] :=
    fun c hc => List.flatMap_eq_nil_iff.mpr (fun k hk => silent_of_assessor svc hedge hc k hk s')
  have hheard : out.flatMap (Command.entries svc s') = [] →
      transcript' = w.transcript ++ e.said := by
    intro hnone
    rw [hsaid, hnone, List.append_nil]
  have hmute : e.isCandidateTurn = false → out.flatMap (Command.entries svc s') = [] →
      transcript' = w.transcript := by
    intro hturn hnone
    rw [hheard hnone, Event.said_of_other hturn, List.append_nil]
  cases hedge with
  | ignored e hidle =>
      cases hturn : e.isCandidateTurn with
      | false => exact Beat.keeps e rfl rfl rfl (hmute hturn rfl)
      | true =>
          -- A message that is admitted is not ignored.
          cases e with
          | candidateTurnReceived turnId text now =>
              exfalso
              have hstage : Stage (candidateEntry svc text []) w.state _ [] [] :=
                Stage.of_message hfits.1 htransition
              rcases hstage.finished with hover | ⟨_, c, hc⟩
              · exact hover hfits.1.live
              · cases hc
          | _ => cases hturn
  | opened now plan hphase hplan =>
      refine Beat.opens now hphase rfl rfl ?_
      rw [hsaid, Event.said_of_other rfl, List.append_nil]
      rfl
  | entered turnId text now plan hphase hplan =>
      exact Beat.hears turnId text now hfits.1 ⟨Or.inl rfl, rfl⟩ rfl (hheard rfl)
  | probed turnId text now a hphase hawaiting hclarify hprobes =>
      exact Beat.hears turnId text now hfits.1 ⟨Or.inl hphase, rfl⟩ rfl (hheard rfl)
  | seeded turnId text now a seed hphase hawaiting hanswered hseed =>
      exact Beat.hears turnId text now hfits.1 ⟨Or.inl hphase, rfl⟩ rfl (hheard rfl)
  | advanced turnId text now a following hphase hawaiting hleaves hnext =>
      have hnone := hheard (hsilent _ List.mem_cons_self)
      exact Beat.hears turnId text now hfits.1 ⟨Or.inl hphase, rfl⟩ rfl hnone
  | finished turnId text now a hphase hawaiting hleaves hlast =>
      have hnone := hheard (hsilent _ List.mem_cons_self)
      exact Beat.hears turnId text now hfits.1 ⟨Or.inr rfl, rfl⟩ rfl hnone
  | cutShort now plan hphase hplan hover => cases hphase.symm.trans hfits
  | asked turnId text now plan hphase hplan =>
      exact Beat.hears turnId text now hfits.1 ⟨Or.inr hphase, rfl⟩ rfl (hheard rfl)
  | closed e activity hphase =>
      cases hturn : e.isCandidateTurn with
      | false => exact absurd htransition (not_closing_of_fits hphase hfits hturn)
      | true =>
          cases e with
          | candidateTurnReceived turnId text now =>
              have hawaits : AwaitsCandidate w.state :=
                hfits.1.elim (fun hintro => by cases hintro.symm.trans hphase) id
              refine Beat.closes turnId text now hawaits rfl rfl ?_
              rw [hsaid, List.append_assoc]
              rfl
          | _ => cases hturn
  | completed e hphase =>
      have hover : Phase.completed ∈ terminalPhases := by decide
      cases hturn : e.isCandidateTurn with
      | false => exact Beat.ends e (fun hlive => hlive hover) rfl (hmute hturn rfl)
      | true =>
          cases e with
          | candidateTurnReceived turnId text now =>
              rcases hfits.1 with hintro | ⟨htech | hqa, _⟩
              · cases hintro.symm.trans hphase
              · cases htech.symm.trans hphase
              · cases hqa.symm.trans hphase
          | _ => cases hturn
  | aborted e reason decision persist hlive hturn =>
      have hover : Phase.aborted ∈ terminalPhases := by decide
      refine Beat.ends e (fun hlive => hlive hover) rfl (hmute hturn ?_)
      cases persist <;> rfl
  | delivered turnId output now hphase hawaiting hpending =>
      obtain ⟨-, c, hc⟩ := hfits
      have hid := hinv.pendingId _ hc.1.pending
      obtain rfl : outboundId w.state.sessionId (w.state.turnSeq - 1) = turnId :=
        hid.symm.trans hc.2
      refine Beat.replies output now ⟨hphase, hawaiting⟩ ⟨hphase, rfl⟩ rfl ?_
      rw [hsaid, Event.said_of_other rfl, List.append_nil]
      rfl
  | retried turnId errorKind now pending hphase hawaiting hpending hid hstreak =>
      exact Beat.keeps _ rfl rfl rfl (hmute rfl rfl)
  | assessed forTurnId output now hlive hpending =>
      rw [onAssessmentCompleted, if_neg (not_not.mpr hpending)]
      exact Beat.keeps _ rfl rfl rfl (hmute rfl rfl)
  | assessmentFailed forTurnId errorKind now hlive hpending =>
      rw [onAssessmentFailed, if_neg (not_not.mpr hpending)]
      have hsame := hmute rfl rfl
      cases w.state.tech.assessmentFocus.get? forTurnId with
      | none => exact Beat.keeps _ rfl rfl rfl hsame
      | some node => exact Beat.keeps _ rfl rfl rfl hsame
  | reconnected now hlive => exact absurd hfits id

end Beats

section Dialogues

/-- A message of the candidate. -/
abbrev Message := {x : TranscriptEntry // x.role = .candidate ∧ x.text ≠ ""}

/-- An utterance of the interviewer. -/
abbrev Reply := {x : TranscriptEntry // x.role = .interviewer ∧ x.text ≠ ""}

/-- Messages and their replies, one after the other. -/
def told (exchanges : List (Message × Reply)) : List TranscriptEntry :=
  exchanges.flatMap (fun x => [x.1.val, x.2.val])

/-- What comes after the last reply: nothing, or a message that has none, which
    the scripted closing may follow. -/
inductive Ending where
  | replied
  | heard (message : Message)
  | closed (message : Message) (closing : TranscriptEntry)

def Ending.entries : Ending → List TranscriptEntry
  | .replied => []
  | .heard message => [message.val]
  | .closed message closing => [message.val, closing]

/-- The scripted opening, the exchanges, and what comes after them. -/
structure Dialogue where
  opening : TranscriptEntry
  exchanges : List (Message × Reply) := []
  ending : Ending := .replied

namespace Dialogue
variable {d : Dialogue} {s s' : SessionState}

def transcript (d : Dialogue) : List TranscriptEntry :=
  d.opening :: (told d.exchanges ++ d.ending.entries)

def hear (d : Dialogue) (message : Message) : Dialogue := { d with ending := .heard message }

def close (d : Dialogue) (message : Message) (closing : TranscriptEntry) : Dialogue :=
  { d with ending := .closed message closing }

def answer (d : Dialogue) (message : Message) (reply : Reply) : Dialogue :=
  { d with exchanges := d.exchanges ++ [(message, reply)], ending := .replied }

theorem transcript_hear (h : d.ending = .replied) (message : Message) :
    (d.hear message).transcript = d.transcript ++ [message.val] := by
  simp only [transcript, hear, h, Ending.entries, List.append_nil, List.cons_append]

theorem transcript_close (h : d.ending = .replied) (message : Message)
    (closing : TranscriptEntry) :
    (d.close message closing).transcript = d.transcript ++ [message.val, closing] := by
  simp only [transcript, close, h, Ending.entries, List.append_nil, List.cons_append]

theorem transcript_answer {message : Message} (h : d.ending = .heard message) (reply : Reply) :
    (d.answer message reply).transcript = d.transcript ++ [reply.val] := by
  simp only [transcript, answer, told, h, Ending.entries, List.flatMap_append, List.flatMap_cons,
    List.flatMap_nil, List.append_nil, List.append_assoc, List.cons_append, List.nil_append]

/-- When everything has been replied to, the last reply is the last entry. -/
theorem transcript_of_replied (h : d.ending = .replied) {exchanges : List (Message × Reply)}
    {message : Message} {reply : Reply} (hlast : d.exchanges = exchanges ++ [(message, reply)]) :
    d.transcript = d.opening :: (told exchanges ++ [message.val]) ++ [reply.val] := by
  simp only [transcript, told, h, hlast, Ending.entries, List.flatMap_append, List.flatMap_cons,
    List.flatMap_nil, List.append_nil, List.append_assoc, List.cons_append, List.nil_append]

/-- What a session waits for is what comes next in the dialogue. -/
def Suits (d : Dialogue) (s : SessionState) : Prop :=
  ¬ live s ∨ match d.ending with
    | .replied => (s.phase = .intro ∧ d.exchanges = []) ∨ (AwaitsCandidate s ∧ d.exchanges ≠ [])
    | .heard _ => InFlight s
    | .closed _ _ => s.phase = .close

/-- What a session waits for is a matter of its phase and of who is awaited. -/
theorem Suits.of_eq (h : d.Suits s) (hphase : s'.phase = s.phase)
    (hawaiting : s'.awaiting = s.awaiting) : d.Suits s' := by
  unfold Suits live AwaitsCandidate InFlight at h ⊢
  rw [hphase, hawaiting]
  exact h

/-- A session that has a dialogue has been opened. -/
theorem Suits.ne_created (h : d.Suits s) : s.phase ≠ .created := by
  intro hcreated
  rcases h with hover | h
  · exact hover (by rw [live, hcreated]; decide)
  · cases hending : d.ending with
    | replied =>
        rw [hending] at h
        rcases h with ⟨hphase, _⟩ | ⟨⟨hphase | hphase, _⟩, _⟩ <;> cases hcreated.symm.trans hphase
    | heard message =>
        rw [hending] at h
        rcases h.1 with hphase | hphase <;> cases hcreated.symm.trans hphase
    | closed message closing =>
        rw [hending] at h
        cases hcreated.symm.trans h

/-- A message comes when everything has been replied to. -/
theorem Suits.replied (h : d.Suits s) (hadmitted : Admitted s) : d.ending = .replied := by
  rcases h with hover | h
  · exact absurd hadmitted.live hover
  · cases hending : d.ending with
    | replied => rfl
    | heard message =>
        rw [hending] at h
        rcases hadmitted with hphase | ⟨_, hawaiting⟩
        · rcases h.1 with hp | hp <;> cases hp.symm.trans hphase
        · cases hawaiting.symm.trans h.2
    | closed message closing =>
        rw [hending] at h
        rcases hadmitted with hphase | ⟨hphase | hphase, _⟩ <;> cases h.symm.trans hphase

/-- The candidate who is awaited has been asked. -/
theorem Suits.asked (h : d.Suits s) (hawaits : AwaitsCandidate s) : d.exchanges ≠ [] := by
  have hending := h.replied (Or.inr hawaits)
  rcases h with hover | h
  · exact absurd (Admitted.live (Or.inr hawaits)) hover
  · rw [hending] at h
    rcases h with ⟨hphase, _⟩ | ⟨_, hsome⟩
    · rcases hawaits.1 with hp | hp <;> cases hp.symm.trans hphase
    · exact hsome

/-- A call in flight is for a message that has no reply. -/
theorem Suits.heard (h : d.Suits s) (hflight : InFlight s) :
    ∃ message, d.ending = .heard message := by
  rcases h with hover | h
  · exfalso
    rcases hflight.1 with hp | hp <;> exact hover (by rw [live, hp]; decide)
  · cases hending : d.ending with
    | replied =>
        rw [hending] at h
        rcases h with ⟨hphase, _⟩ | ⟨⟨_, hawaiting⟩, _⟩
        · rcases hflight.1 with hp | hp <;> cases hp.symm.trans hphase
        · cases hawaiting.symm.trans hflight.2
    | heard message => exact ⟨message, rfl⟩
    | closed message closing =>
        rw [hending] at h
        rcases hflight.1 with hp | hp <;> cases hp.symm.trans h

end Dialogue

end Dialogues

section Spoken
variable (svc : DevSession) (plan : PlanSnapshot)

/-- An entry of a script, in a session with this plan. -/
def IsScript (path : String) (number : Int) (x : TranscriptEntry) : Prop :=
  ∃ s : SessionState, s.plan = some plan ∧
    x = scriptEntry svc s path (outboundId svc.sessionId number)

def Dialogue.Scripted (d : Dialogue) : Prop :=
  IsScript svc plan openingScriptPath 0 d.opening ∧
    ∀ message closing, d.ending = .closed message closing →
      ∃ number, IsScript svc plan closingScriptPath number closing

/-- The transcript records a dialogue, and the session waits for what comes next
    in it. -/
def Spoken (w : Working) : Prop :=
  ∃ d : Dialogue, w.transcript = d.transcript ∧ d.Suits w.state ∧ d.Scripted svc plan

variable {svc plan} {w w' : Working} {e : Event}

/-- A beat takes a dialogue to a dialogue. -/
theorem spoken_of_beat (hbeat : Beat svc w w' e) (hfits : e.Fits svc w)
    (hid : w.state.sessionId = svc.sessionId)
    (hplan : w'.state.phase = .close → w'.state.plan = some plan) (h : Spoken svc plan w) :
    Spoken svc plan w' := by
  obtain ⟨d, htranscript, hsuits, hscripted⟩ := h
  cases hbeat with
  | opens now hbefore hafter hseq hsaid => exact absurd hbefore hsuits.ne_created
  | hears turnId text now hbefore hafter hseq hsaid =>
      have hending := hsuits.replied hbefore
      let message : Message := ⟨⟨.candidate, text, some turnId⟩, rfl, hfits.2.1⟩
      -- The message has no reply yet.
      refine ⟨d.hear message, ?_, Or.inr hafter, hscripted.1, fun _ _ hc => by cases hc⟩
      rw [hsaid, htranscript, Dialogue.transcript_hear hending]
  | closes turnId text now hbefore hafter hseq hsaid =>
      have hending := hsuits.replied (Or.inr hbefore)
      let message : Message := ⟨⟨.candidate, text, some turnId⟩, rfl, hfits.2.1⟩
      -- The last message is followed by the closing.
      let closing := scriptEntry svc w'.state closingScriptPath
        (outboundId w.state.sessionId w.state.turnSeq)
      refine ⟨d.close message closing, ?_, Or.inr hafter, hscripted.1, fun m x hclosed => ?_⟩
      · rw [hsaid, htranscript, Dialogue.transcript_close hending]
      · cases hclosed
        exact ⟨w.state.turnSeq, w'.state, hplan hafter, by rw [← hid]⟩
  | replies output now hbefore hafter hseq hsaid =>
      obtain ⟨message, hending⟩ := hsuits.heard hbefore
      -- The reply makes an exchange of the message that has none.
      let reply : Reply := ⟨⟨.interviewer, output.utterance,
        some (outboundId w.state.sessionId (w.state.turnSeq - 1))⟩, rfl, hfits.1⟩
      refine ⟨d.answer message reply, ?_, Or.inr (Or.inr ⟨hafter, ?_⟩), hscripted.1,
        fun _ _ hc => by cases hc⟩
      · rw [hsaid, htranscript, Dialogue.transcript_answer hending]
      · exact List.append_ne_nil_of_right_ne_nil _ (List.cons_ne_nil _ _)
  | keeps e hphase hawaiting hseq hsaid =>
      exact ⟨d, hsaid.trans htranscript, hsuits.of_eq hphase hawaiting, hscripted⟩
  | ends e hafter hseq hsaid => exact ⟨d, hsaid.trans htranscript, Or.inl hafter, hscripted⟩

variable [Scalars] {planInput : Dict String Json} {now now' : Instant} {out : List Command}

/-- A valid plan is opened with the scripted opening. -/
theorem spoken_of_opening (hvalid : PlanSnapshot.validatePlan (.obj planInput.entries) = .ok plan)
    (h : converse svc (created svc planInput now).row (.sessionStarted now') = .ok (w', out)) :
    Spoken svc plan w' := by
  obtain ⟨s', transcript'⟩ := w'
  obtain ⟨htransition, hsaid⟩ := (converse_eq_ok_iff _ _ _ _).mp h
  have hphase : (created svc planInput now).row.state.phase = .created := rfl
  rw [transition, if_neg (by rw [hphase]; decide)] at htransition
  simp only [created, initialState, onSessionStarted, hvalid, if_true, Except.ok.injEq,
    TransitionResult.mk.injEq] at htransition
  obtain ⟨rfl, rfl⟩ := htransition
  exact ⟨⟨_, [], .replied⟩, hsaid, Or.inr (Or.inl ⟨rfl, rfl⟩), ⟨_, rfl, rfl⟩,
    fun _ _ hc => by cases hc⟩

/-- A conversation that starts with the opening records a dialogue. -/
theorem spoken_of_run (hvalid : PlanSnapshot.validatePlan (.obj planInput.entries) = .ok plan)
    {ms : List (Taken Working Event Command)}
    (h : Run (converse svc) (created svc planInput now).row ms w)
    (hfits : ∀ m ∈ ms, m.event.Fits svc m.before)
    (hopen : ∀ m, ms.head? = some m → ∃ now, m.event = .sessionStarted now) :
    ms = [] ∨ Spoken svc plan w := by
  induction h with
  | nil => exact Or.inl rfl
  | snoc ms a b e out hrun hab ih =>
      refine Or.inr ?_
      have hfit : e.Fits svc a := hfits _ (List.mem_append_right _ (List.mem_singleton_self _))
      rcases List.eq_nil_or_concat ms with rfl | ⟨rest, last, rfl⟩
      · obtain ⟨now', rfl⟩ := hopen _ rfl
        rw [hrun.eq_of_nil] at hab
        exact spoken_of_opening hvalid hab
      · have hspoken : Spoken svc plan a := by
          refine (ih (fun m hm => hfits m (List.mem_append_left _ hm)) (fun m hm => ?_)).elim
            (fun hnil => absurd hnil (by simp)) id
          exact hopen m (by rw [List.head?_append, hm]; rfl)
        obtain ⟨hinv, hid⟩ := stateInv_of_converse hrun
        have hnext := hrun.snoc _ a b e out hab
        obtain ⟨ts, hts⟩ := session_of_converse hnext
        refine spoken_of_beat (beat_of_converse hinv hfit hab) hfit hid (fun hclose => ?_) hspoken
        -- The session that is closed has a plan, and it has only the one.
        obtain ⟨p, hp⟩ := Option.isSome_iff_exists.mp (((SessionRun.stateInv hts).close hclose).1.1)
        rw [hp, SessionRun.plan_eq hvalid hts p hp]

end Spoken

section Numbers
variable (svc : DevSession)

/-- Messages are numbered among themselves, and everything else by the counter of
    the machine. -/
inductive Numbered : List TranscriptEntry → Int → Prop
  | nil : Numbered [] 0
  | message {transcript : List TranscriptEntry} {next : Int} (text : String)
      (h : Numbered transcript next) :
      Numbered (transcript ++ [candidateEntry svc text transcript]) next
  | outbound {transcript : List TranscriptEntry} {next : Int} (x : TranscriptEntry)
      (hrole : x.role ≠ .candidate) (hid : x.turnId = some (outboundId svc.sessionId next))
      (h : Numbered transcript next) : Numbered (transcript ++ [x]) (next + 1)
  | skip {transcript : List TranscriptEntry} {next next' : Int} (hle : next ≤ next')
      (h : Numbered transcript next) : Numbered transcript next'

/-- The identifiers of the candidate's entries. -/
def messageIds (transcript : List TranscriptEntry) : List (Option Uuid) :=
  (transcript.filter (fun x => x.role = .candidate)).map TranscriptEntry.turnId

/-- The identifiers of all other entries. -/
def outboundIds (transcript : List TranscriptEntry) : List (Option Uuid) :=
  (transcript.filter (fun x => x.role ≠ .candidate)).map TranscriptEntry.turnId

variable {svc} {transcript : List TranscriptEntry} {next : Int}

omit svc in
theorem messageIds_append (xs ys : List TranscriptEntry) :
    messageIds (xs ++ ys) = messageIds xs ++ messageIds ys := by
  unfold messageIds
  rw [List.filter_append, List.map_append]

omit svc in
theorem outboundIds_append (xs ys : List TranscriptEntry) :
    outboundIds (xs ++ ys) = outboundIds xs ++ outboundIds ys := by
  unfold outboundIds
  rw [List.filter_append, List.map_append]

omit svc in
theorem messageIds_of_other {x : TranscriptEntry} (h : x.role ≠ .candidate) :
    messageIds [x] = [] := by
  simp [messageIds, h]

omit svc in
theorem outboundIds_of_other {x : TranscriptEntry} (h : x.role ≠ .candidate) :
    outboundIds [x] = [x.turnId] := by
  simp [outboundIds, h]

/-- The messages have the numbers from zero on. -/
theorem Numbered.messages (h : Numbered svc transcript next) :
    messageIds transcript = (List.range (messageIds transcript).length).map
      (fun n => some (candidateTurnId svc.sessionId n)) := by
  induction h with
  | nil => rfl
  | @message transcript next text h ih =>
      -- The number of the message is how many there are before it.
      have hcount : transcript.countP (fun x => x.role = .candidate)
          = (messageIds transcript).length := by
        rw [messageIds, List.length_map, List.countP_eq_length_filter]
      have hnew : messageIds [candidateEntry svc text transcript]
          = [some (candidateTurnId svc.sessionId (messageIds transcript).length)] := by
        rw [← hcount]
        rfl
      rw [messageIds_append, hnew, List.length_append, List.length_singleton, List.range_succ,
        List.map_append, ← ih]
      rfl
  | @outbound transcript next x hrole hid h ih =>
      rw [messageIds_append, messageIds_of_other hrole, List.append_nil]
      exact ih
  | skip hle h ih => exact ih

/-- Everything else has numbers that increase. -/
theorem Numbered.others (h : Numbered svc transcript next) :
    ∃ ks : List Int, outboundIds transcript
        = ks.map (fun k => some (outboundId svc.sessionId k)) ∧
      ks.Pairwise (· < ·) ∧ ∀ k ∈ ks, k < next := by
  induction h with
  | nil => exact ⟨[], rfl, List.Pairwise.nil, fun k hk => absurd hk List.not_mem_nil⟩
  | @message transcript next text h ih =>
      obtain ⟨ks, hks, hrest⟩ := ih
      refine ⟨ks, ?_, hrest⟩
      rw [outboundIds_append, hks]
      exact List.append_nil _
  | @outbound transcript next x hrole hid h ih =>
      obtain ⟨ks, hks, hincreases, hless⟩ := ih
      refine ⟨ks ++ [next], ?_, ?_, fun k hk => ?_⟩
      · rw [outboundIds_append, outboundIds_of_other hrole, hks, hid, List.map_append]
        rfl
      · refine List.pairwise_append.mpr ⟨hincreases, List.pairwise_singleton _ _, ?_⟩
        intro k hk l hl
        rw [List.mem_singleton.mp hl]
        exact hless k hk
      · rcases List.mem_append.mp hk with hk | hk
        · have hlt := hless k hk
          omega
        · rw [List.mem_singleton.mp hk]
          omega
  | skip hle h ih =>
      obtain ⟨ks, hks, hincreases, hless⟩ := ih
      exact ⟨ks, hks, hincreases, fun k hk => Int.lt_of_lt_of_le (hless k hk) hle⟩

/-- The entries are numbered up to the counter, and while a call is in flight its
    number is not used yet. -/
def WellNumbered (svc : DevSession) (w : Working) : Prop :=
  Numbered svc w.transcript w.state.turnSeq ∧
    (InFlight w.state → Numbered svc w.transcript (w.state.turnSeq - 1))

/-- A beat numbers what it adds. -/
theorem numbered_of_beat {w w' : Working} {e : Event} (hbeat : Beat svc w w' e)
    (hfits : e.Fits svc w) (hid : w.state.sessionId = svc.sessionId) (h : WellNumbered svc w) :
    WellNumbered svc w' := by
  -- Outside of a call there is nothing else to show.
  have hidle : Numbered svc w'.transcript w'.state.turnSeq → ¬ InFlight w'.state →
      WellNumbered svc w' := fun hnumbered hno => ⟨hnumbered, fun hflight => absurd hflight hno⟩
  have hsystem : TranscriptRole.system ≠ .candidate := by decide
  have hinterviewer : TranscriptRole.interviewer ≠ .candidate := by decide
  cases hbeat with
  | opens now hbefore hafter hseq hsaid =>
      refine hidle ?_ ?_
      · rw [hsaid, hseq]
        exact Numbered.outbound _ hsystem (by rw [← hid]; rfl) h.1
      · rintro ⟨hphase | hphase, _⟩ <;> cases hafter.symm.trans hphase
  | hears turnId text now hbefore hafter hseq hsaid =>
      -- The counter moves on for the call, the message has a number of its own.
      have hmessage : Numbered svc w'.transcript w.state.turnSeq := by
        rw [hsaid, hfits.2.2]
        exact Numbered.message text h.1
      refine ⟨Numbered.skip (by omega) hmessage, fun _ => ?_⟩
      rw [hseq, Int.add_sub_cancel]
      exact hmessage
  | closes turnId text now hbefore hafter hseq hsaid =>
      refine hidle ?_ ?_
      · rw [hsaid, hseq, List.append_cons, hfits.2.2]
        exact Numbered.outbound _ hsystem (by rw [← hid]; rfl) (Numbered.message text h.1)
      · rintro ⟨hphase | hphase, _⟩ <;> cases hafter.symm.trans hphase
  | replies output now hbefore hafter hseq hsaid =>
      refine hidle ?_ (fun hflight => ?_)
      · have hnumbered := Numbered.outbound
          ⟨.interviewer, output.utterance, some (outboundId svc.sessionId (w.state.turnSeq - 1))⟩
          hinterviewer rfl (h.2 hbefore)
        rw [Int.sub_add_cancel] at hnumbered
        rw [hsaid, hseq, hid]
        exact hnumbered
      · cases hafter.2.symm.trans hflight.2
  | keeps e hphase hawaiting hseq hsaid =>
      unfold WellNumbered InFlight
      rw [hsaid, hseq, hphase, hawaiting]
      exact h
  | ends e hafter hseq hsaid =>
      refine hidle ?_ (fun hflight => hafter ?_)
      · rw [hsaid, hseq]
        exact h.1
      · rcases hflight.1 with hphase | hphase <;> rw [live, hphase] <;> decide

/-- The entries of a conversation are numbered. -/
theorem numbered_of_run [Scalars] {planInput : Dict String Json} {now : Instant} {w : Working}
    {ms : List (Taken Working Event Command)}
    (h : Run (converse svc) (created svc planInput now).row ms w)
    (hfits : ∀ m ∈ ms, m.event.Fits svc m.before) : WellNumbered svc w := by
  induction h with
  | nil =>
      refine ⟨Numbered.nil, fun hflight => ?_⟩
      rcases hflight.1 with hphase | hphase <;> cases hphase
  | snoc ms a b e out hrun hab ih =>
      have hfit : e.Fits svc a := hfits _ (List.mem_append_right _ (List.mem_singleton_self _))
      obtain ⟨hinv, hid⟩ := stateInv_of_converse hrun
      exact numbered_of_beat (beat_of_converse hinv hfit hab) hfit hid
        (ih (fun m hm => hfits m (List.mem_append_left _ hm)))

end Numbers

section Openings
variable [Scalars] (svc : DevSession) {planInput : Dict String Json} {now : Instant}
  {ts : List (Taken World Choice Effect)} {w : World}

/-- The task is about to open the session. -/
def ShellTask.Opens (now : Instant) : ShellTask → Prop
  | .drive d => d.queue = [.sessionStarted now] ∧ d.steps = 0
  | .persist _ e _ => e = .sessionStarted now
  | _ => False

omit [Scalars] in
theorem ShellTask.Opens.not_rests {task : ShellTask} (h : task.Opens now) :
    task.rests = false := by
  cases task with
  | drive | persist => rfl
  | assess | load | loadTranscript | execute | save | done | failed => exact absurd h id

/-- The start of a session is never refused. -/
theorem transition_sessionStarted (s : SessionState) (now : Instant) (cfg : OrchestratorConfig) :
    ∃ r, transition s (.sessionStarted now) cfg = .ok r := by
  unfold transition
  by_cases hdead : s.phase ∈ terminalPhases
  · exact ⟨_, if_pos hdead⟩
  · rw [if_neg hdead]
    by_cases hcreated : s.phase = .created
    · exact ⟨_, if_pos hcreated⟩
    · exact ⟨_, if_neg hcreated⟩

/-- The opening of a session comes first: nothing moves before it. -/
theorem opening_of_run (h : Run (shellStep svc) (created svc planInput now) ts w)
    (hseq : Sequential ts) :
    (accepted (outputs ts) = [] ∧ ∃ task, w.tasks[0]? = some task ∧ task.Opens now) ∨
      ∃ rest, accepted (outputs ts) = .sessionStarted now :: rest := by
  induction h with
  | nil => exact Or.inl ⟨rfl, _, rfl, rfl, rfl⟩
  | snoc ts a b c out hrun hab ih =>
      rw [outputs_snoc, accepted_append]
      rcases ih (fun t ht => hseq t (List.mem_append_left _ ht)) with
        ⟨hnone, task, htask, hopens⟩ | ⟨rest, hrest⟩
      · -- The task of the creation is the one that moves.
        rw [hnone, List.nil_append]
        have hmover := hseq _ (List.mem_append_right _ (List.mem_singleton_self _)) 0 task htask
        rw [hopens.not_rests] at hmover
        obtain ⟨o, rfl⟩ := hmover.resolve_left Bool.false_ne_true
        rcases shellStep_cases svc hab with
          ⟨text, hpost, _⟩ | ⟨i, o', mover, p, hmove, hi, hp, rfl, rfl⟩
        · cases hpost
        cases hmove
        rw [htask, Option.some.injEq] at hi
        subst hi
        have hlength : 0 < a.tasks.length := (List.getElem?_eq_some_iff.mp htask).1
        have hnext : (a.tasks.set 0 p.task ++ p.spawned)[0]? = some p.task := by
          rw [List.getElem?_append_left (by rw [List.length_set]; exact hlength),
            List.getElem?_set_self hlength]
        cases task with
        | drive d =>
            obtain ⟨hqueue, hsteps⟩ := hopens
            obtain ⟨r, hr⟩ := transition_sessionStarted d.working.state now svc.config
            have hlimit : ¬ 0 + 1 > maxDriveSteps := by decide
            cases hp
            refine Or.inl ⟨rfl, _, hnext, ?_⟩
            unfold nextEvent
            rw [hqueue, hsteps]
            simp only [if_neg hlimit, hr]
            rfl
        | persist d e commands =>
            cases hp
            exact Or.inr ⟨[], congrArg (fun e => [e]) hopens⟩
        | assess | load | loadTranscript | execute | save | done | failed => exact absurd hopens id
      · exact Or.inr ⟨rest ++ accepted out, by rw [hrest]; rfl⟩

end Openings

section Pairs
variable (svc : DevSession)

theorem lastText_append (p : TranscriptEntry → Bool) (entries : List TranscriptEntry)
    {x : TranscriptEntry} (h : p x = true) : lastText p (entries ++ [x]) = x.text := by
  unfold lastText
  rw [List.reverse_append, List.reverse_singleton, List.singleton_append, List.find?_cons_of_pos h]

/-- The question and the answer are the last two entries of the transcript. -/
theorem assessorInputs_of_pair (s : SessionState) (c : RunAssessor) (entries : List TranscriptEntry)
    (question : Reply) (answer : Message) :
    (assessorInputs svc ⟨s, entries ++ [question.val, answer.val]⟩ c).question = question.val.text ∧
      (assessorInputs svc ⟨s, entries ++ [question.val, answer.val]⟩ c).answer
        = answer.val.text := by
  have hfilter : (entries ++ [question.val, answer.val]).filter (fun entry => entry.text ≠ "")
      = (entries.filter (fun entry => entry.text ≠ "") ++ [question.val]) ++ [answer.val] := by
    simp [question.property.2, answer.property.2]
  have hrole : question.val.role ≠ .candidate := by
    rw [question.property.1]
    decide
  unfold assessorInputs
  simp only [hfilter, List.dropLast_concat]
  exact ⟨lastText_append _ _ (decide_eq_true hrole),
    lastText_append _ _ (decide_eq_true answer.property.1)⟩

/-- What an assessor is called with is the message that the assessment is for, and
    the utterance that it answers. -/
def Paired (transcript : List TranscriptEntry) (c : RunAssessor) (inputs : AssessorTurnInput) :
    Prop :=
  ∃ (before after : List TranscriptEntry) (question : Reply) (answer : Message),
    transcript = before ++ question.val :: answer.val :: after ∧
      answer.val.turnId = some c.turnId ∧ inputs.turnId = c.turnId ∧
      inputs.question = question.val.text ∧ inputs.answer = answer.val.text

variable {svc} [Scalars] {plan : PlanSnapshot} {planInput : Dict String Json} {now : Instant}

/-- An assessment is asked for when the technical phase takes the answer that it
    awaits, on the competency that it is on. -/
theorem awaits_of_assessor {cfg : OrchestratorConfig} {s s' : SessionState} {e : Event}
    {out : List Command} (hinv : StateInv cfg s) (hedge : Edge cfg s e s' out) {c : RunAssessor}
    (hc : .runAssessor c ∈ out) :
    awaitsAnswer s e = true ∧ ∃ plan competency, s.plan = some plan ∧
      plan.competency s.tech.competencyIndex = some competency ∧
      c.competencyFocus = competency.nodeId.val := by
  have hscheduled : (c.turnId, c.competencyFocus) ∈ scheduled out :=
    List.mem_filterMap.mpr ⟨_, hc, rfl⟩
  obtain ⟨plan, competency, hplan, hindex, hnode⟩ := focus_of_edge hedge hscheduled
  refine ⟨?_, plan, competency, hplan, hindex, hnode.symm⟩
  by_contra hidle
  have hsame : ∀ p, s.plan = some p → p = plan :=
    fun p hp => Option.some.inj (hp.symm.trans hplan)
  have hlaw := (budgetLaw_of_edge hinv hsame hedge).scheduled
  rw [acceptedAnswer_of_idle (Bool.eq_false_of_not_eq_true hidle), assessors,
    List.countP_eq_zero] at hlaw
  exact hlaw _ hc rfl

/-- The answer that is assessed follows the utterance that it answers. -/
theorem pair_of_assessor (hvalid : PlanSnapshot.validatePlan (.obj planInput.entries) = .ok plan)
    {ms : List (Taken Working Event Command)} {m : Taken Working Event Command}
    (h : Run (converse svc) (created svc planInput now).row ms m.before)
    (hfits : ∀ k ∈ ms, k.event.Fits svc k.before) (hfit : m.event.Fits svc m.before)
    (hopen : ∀ k, ms.head? = some k → ∃ now, k.event = .sessionStarted now)
    (hstep : converse svc m.before m.event = .ok (m.after, m.out)) {c : RunAssessor}
    (hc : .runAssessor c ∈ m.out) :
    ∃ d : Dialogue, ∃ exchanges message, ∃ (question : Reply) (answer : Message),
      m.before.transcript = d.transcript ∧ d.ending = .replied ∧
      d.exchanges = exchanges ++ [(message, question)] ∧
      m.event.said = [answer.val] ∧ answer.val.turnId = some c.turnId := by
  obtain ⟨hinv, -⟩ := stateInv_of_converse h
  have hedge := edge_of_transition ((converse_eq_ok_iff _ _ _ _).mp hstep).1
  obtain ⟨text, now', he⟩ := runAssessor_of_edge hedge hc
  obtain ⟨⟨hphase, hawaiting⟩, -⟩ :=
    (awaitsAnswer_iff _ _).mp (awaits_of_assessor hinv hedge hc).1
  have hcandidate : AwaitsCandidate m.before.state := ⟨Or.inl hphase, hawaiting⟩
  rcases spoken_of_run hvalid h hfits hopen with rfl | ⟨d, htranscript, hsuits, -⟩
  · -- The session has not been opened yet.
    rw [h.eq_of_nil] at hphase
    cases hphase
  -- The candidate who is awaited has been asked before.
  obtain ⟨exchanges, ⟨message, question⟩, hexchanges⟩ :=
    (List.eq_nil_or_concat d.exchanges).resolve_left (hsuits.asked hcandidate)
  rw [he] at hfit ⊢
  exact ⟨d, exchanges, message, question, ⟨⟨.candidate, text, some c.turnId⟩, rfl, hfit.2.1⟩,
    htranscript, hsuits.replied (Or.inr hcandidate), by rw [hexchanges, List.concat_eq_append],
    rfl, rfl⟩

variable {ts : List (Taken World Choice Effect)} {w : World}

/-- When every task rests, the row is where the conversation has come to. -/
theorem conversation_at_rest (h : Run (shellStep svc) (created svc planInput now) ts w)
    (hseq : Sequential ts) (hworded : ∀ t ∈ ts, t.event.Worded)
    (hrest : ∀ task ∈ w.tasks, task.rests = true) :
    Run (converse svc) (created svc planInput now).row (conversation svc ts) w.row ∧
      (∀ m ∈ conversation svc ts, m.event.Fits svc m.before) ∧
      conversation svc ts ≠ [] ∧
      ∀ m, (conversation svc ts).head? = some m → ∃ now, m.event = .sessionStarted now := by
  obtain ⟨row, hrun, hevents, hfits⟩ := conversation_of_run svc h hseq hworded
  -- No task owes anything, so the row is the end of the conversation.
  have hrow : row = w.row := by
    have hreplay := replay_row svc h hseq (fun i => ?_)
    · rw [← hevents, replay_of_converse hrun, Except.ok.injEq] at hreplay
      exact hreplay
    · cases hi : w.tasks[i]? with
      | none => rw [World.owes, hi]
      | some task =>
          rw [World.owes_of_task svc hi]
          exact ShellTask.owes_of_rests svc (hrest task (List.mem_of_getElem? hi))
  rw [hrow] at hrun
  refine ⟨hrun, hfits, ?_⟩
  rcases opening_of_run svc h hseq with ⟨_, task, htask, hopens⟩ | ⟨rest, hfirst⟩
  · -- The task of the creation does not rest before it has opened the session.
    have hrests := hrest task (List.mem_of_getElem? htask)
    rw [hopens.not_rests] at hrests
    cases hrests
  · rw [← hevents] at hfirst
    obtain ⟨m, ms, hms, hm, -⟩ := List.map_eq_cons_iff.mp hfirst
    rw [hms]
    refine ⟨List.cons_ne_nil _ _, fun k hk => ⟨now, ?_⟩⟩
    rw [← Option.some.inj hk]
    exact hm

/-- What an assessor is given is in the transcript. -/
theorem paired_of_asked (hvalid : PlanSnapshot.validatePlan (.obj planInput.entries) = .ok plan)
    {ms : List (Taken Working Event Command)} {row : Working}
    (h : Run (converse svc) (created svc planInput now).row ms row)
    (hfits : ∀ m ∈ ms, m.event.Fits svc m.before)
    (hopen : ∀ m, ms.head? = some m → ∃ now, m.event = .sessionStarted now) {c : RunAssessor}
    {inputs : AssessorTurnInput} (hasked : AskedIn svc ms c inputs) :
    Paired row.transcript c inputs := by
  obtain ⟨m, hm, hc, rfl⟩ := hasked
  obtain ⟨us, vs, hsplit⟩ := List.append_of_mem hm
  obtain ⟨hrun, hstep, hpre, hfit⟩ := split_of_converse h hfits us m vs hsplit
  have hhead : ∀ k, us.head? = some k → ∃ now, k.event = .sessionStarted now := by
    intro k hk
    refine hopen k ?_
    rw [hsplit, List.head?_append, hk]
    rfl
  obtain ⟨d, exchanges, message, question, answer, htranscript, hending, hlast, hsaid, hid⟩ :=
    pair_of_assessor hvalid hrun hpre hfit hhead hstep hc
  -- What the copy holds then is what the transcript begins with.
  have hgrown : m.before.transcript ++ m.event.said
      = d.opening :: (told exchanges ++ [message.val]) ++ [question.val, answer.val] := by
    rw [htranscript, d.transcript_of_replied hending hlast, hsaid, List.append_assoc]
    rfl
  have hafter : m.after.transcript
      = m.before.transcript ++ m.event.said
        ++ m.out.flatMap (Command.entries svc m.after.state) :=
    ((converse_eq_ok_iff _ _ _ _).mp hstep).2
  obtain ⟨more, hmore⟩ := transcript_prefix_of_converse (h.rest us m vs hsplit)
  rw [hafter, hgrown] at hmore
  obtain ⟨hquestion, hanswer⟩ := assessorInputs_of_pair svc m.after.state c
    (d.opening :: (told exchanges ++ [message.val])) question answer
  rw [hgrown]
  refine ⟨d.opening :: (told exchanges ++ [message.val]),
    m.out.flatMap (Command.entries svc m.after.state) ++ more, question, answer, ?_, hid, rfl,
    hquestion, hanswer⟩
  rw [← hmore, List.append_assoc, List.append_assoc]
  rfl

end Pairs

/-- When calls and tasks are executed one after another on a valid plan, the
    transcript is the scripted opening followed by messages and replies in turn,
    where a last message may have no reply, or be followed by the scripted
    closing. The identifiers of the messages are distinct, as far as those of the
    first numbers are; the others are numbered by the counter of the machine. Every
    assessor is called with the message that its assessment is for, and with the
    utterance right before it. -/
theorem transcript_alternates [Scalars] (svc : DevSession) (planInput : Dict String Json)
    (plan : PlanSnapshot) (now : Instant) (ts : List (Taken World Choice Effect)) (w : World)
    (h : Run (shellStep svc) (created svc planInput now) ts w)
    (hvalid : PlanSnapshot.validatePlan (.obj planInput.entries) = .ok plan)
    (hseq : Sequential ts) (hworded : ∀ t ∈ ts, t.event.Worded)
    (hrest : ∀ task ∈ w.tasks, task.rests = true)
    (hinj : Set.InjOn (candidateTurnId svc.sessionId)
      {n | n < (messageIds w.row.transcript).length}) :
    (∃ d : Dialogue, w.row.transcript = d.transcript ∧ d.Scripted svc plan) ∧
    (messageIds w.row.transcript).Nodup ∧
    (∃ ks : List Int, outboundIds w.row.transcript
      = ks.map (fun k => some (outboundId svc.sessionId k)) ∧ ks.Pairwise (· < ·)) ∧
    ∀ c inputs, (.assess c inputs ∈ w.tasks ∨ .assessorCalled c inputs ∈ outputs ts) →
      Paired w.row.transcript c inputs := by
  obtain ⟨hrun, hfits, hsome, hopen⟩ := conversation_at_rest h hseq hworded hrest
  obtain ⟨d, htranscript, -, hscripted⟩ :=
    (spoken_of_run hvalid hrun hfits hopen).resolve_left hsome
  have hnumbered := (numbered_of_run hrun hfits).1
  refine ⟨⟨d, htranscript, hscripted⟩, ?_, ?_, fun c inputs hc => ?_⟩
  · rw [hnumbered.messages]
    refine List.Nodup.map_on (fun i hi j hj hij => ?_) List.nodup_range
    exact hinj (List.mem_range.mp hi) (List.mem_range.mp hj) (Option.some.inj hij)
  · obtain ⟨ks, hks, hincreases, -⟩ := hnumbered.others
    exact ⟨ks, hks, hincreases⟩
  · obtain ⟨htasks, hcalls⟩ := assess_of_run svc h hseq
    refine paired_of_asked hvalid hrun hfits hopen (hc.elim (fun htask => ?_) (hcalls c inputs))
    exact htasks _ htask

section SmallService

/-- The text of a request or of an utterance is not empty, as a check sees it. -/
def Choice.worded : Choice → Bool
  | .post text => text ≠ ""
  | .run _ o =>
      match o.interviewer with
      | .output output => output.utterance ≠ ""
      | _ => true

theorem worded_of_check {ts : List (Taken World Choice Effect)}
    (h : ts.all (fun t => t.event.worded) = true) : ∀ t ∈ ts, t.event.Worded := by
  intro t ht
  have hone := List.all_eq_true.mp h t ht
  cases hevent : t.event with
  | post text =>
      rw [hevent] at hone
      exact of_decide_eq_true (p := text ≠ "") hone
  | run i o =>
      rw [hevent] at hone
      intro output houtput
      rw [Choice.worded, houtput] at hone
      exact of_decide_eq_true hone

/-- The creation of a session, and its first two messages. -/
def smallExchanges : List Choice :=
  goes 7 0 (answering 0 "Hello" "sql" 0)
    ++ .post "ready" :: goes 14 1 (answering 1000000 "Joins?" "sql" 0)
    ++ .post "an answer" :: goes 15 2 (answering 2000000 "Why?" "sql" 0)

/-- The assessment that a task is. -/
def ShellTask.assessment : ShellTask → Option (RunAssessor × AssessorTurnInput)
  | .assess c inputs => some (c, inputs)
  | _ => none

/-- In the small interview the first answer is about to be assessed. -/
theorem transcript_alternates_small : ∃ ts w c inputs, SmallShell ts w ∧ Sequential ts ∧
    .assess c inputs ∈ w.tasks ∧ inputs.question = "Joins?" ∧ inputs.answer = "an answer" ∧
    (messageIds w.row.transcript).Nodup ∧ Paired w.row.transcript c inputs := by
  have hrec : (smallShellRecord smallExchanges).map (fun r => (sequentially r.1,
      r.1.all (fun t => t.event.worded), r.2.tasks.all ShellTask.rests,
      (messageIds r.2.row.transcript).length, decide ((r.2.tasks.filterMap ShellTask.assessment).map
        (fun x => (x.2.question, x.2.answer)) = [("Joins?", "an answer")])))
        = .ok (true, true, true, 2, true) := by decide +kernel
  have hvalid : @PlanSnapshot.validatePlan Scalars.strict (.obj smallInput.entries)
      = .ok smallPlan := by decide +kernel
  have hnodup : ((List.range 2).map (candidateTurnId smallId)).Nodup := by decide +kernel
  obtain ⟨ts, w, hrun, hproj⟩ := exists_run_of_record _ _ _ _ _ hrec
  simp only [Prod.mk.injEq] at hproj
  obtain ⟨hcheck, hworded, hrests, hlength, htasks⟩ := hproj
  obtain ⟨⟨c, inputs⟩, hassess, hinputs⟩ :=
    List.mem_map.mp ((of_decide_eq_true htasks).symm ▸ List.mem_cons_self)
  rw [Prod.mk.injEq] at hinputs
  obtain ⟨task, htask, hc⟩ := List.mem_filterMap.mp hassess
  have hmem : .assess c inputs ∈ w.tasks := by
    cases task with
    | assess command given =>
        cases hc
        exact htask
    | load | loadTranscript | drive | persist | execute | save | done | failed => cases hc
  have hinj : Set.InjOn (candidateTurnId smallId)
      {n | n < (messageIds w.row.transcript).length} := by
    rw [hlength]
    intro i hi j hj hij
    exact List.inj_on_of_nodup_map hnodup (List.mem_range.mpr hi) (List.mem_range.mpr hj) hij
  have hseq := sequential_of_check hcheck
  have hall := @transcript_alternates Scalars.strict smallService smallInput smallPlan 0 ts w hrun
    hvalid hseq (worded_of_check hworded) (fun task => List.all_eq_true.mp hrests task) hinj
  exact ⟨ts, w, c, inputs, hrun, hseq, hmem, hinputs.1, hinputs.2, hall.2.1,
    hall.2.2.2 c inputs (Or.inl hmem)⟩

end SmallService

end TechScreen
