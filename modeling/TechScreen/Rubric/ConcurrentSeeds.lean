import TechScreen.Lib.Run
import TechScreen.Rubric.Editions

/-!
# Concurrent Seeds

Any number of seeds at once, each a transaction on its own connection. A
transaction is stamped when it begins; then it waits for the advisory lock, which
one transaction has at a time and in no particular order; with the lock it reads
the committed tables and prepares its writes; and then it commits or rolls back,
which gives the lock back.

The lock lets the seeds through one after another, but the stamp of a version is
older than the wait. The latest version by stamp is the one committed last just
where the transactions that commit versions began in the order in which they
commit, and then every seed answers as it would if the seeds had been made one
after another in that order.

## Main definitions

* `Job`, `Transaction`, `Server`, `serverStep`: The seeds and the server.
* `serial`: The answers of the same seeds one after another.
* `Linear`: The seeds behave like their commit order.
* `InOrder`: The transactions that have something to commit began in the order
  in which they commit.

## Theorems

* `answer_of_archives`: What a seed answers depends on the editions alone.
* `inOrder_tracks`: In order, the tables hold the editions of the serial tables.
* `linear_iff`: Seeds behave like their commit order just where they are in
  order.
-/

namespace TechScreen.Rubric

open Lib

section Server

/-- A seed that has read its directory. -/
structure Job where
  edition : Edition
  dryRun : Bool
  deriving DecidableEq

/-- A transaction, with what `now()` is in it. -/
structure Transaction where
  job : Job
  start : Instant
  deriving DecidableEq

/-- What a transaction is about to commit, or the error it is about to raise. -/
abbrev Prepared := Except ImporterError (SeedResult × Tables)

/-- The body of a seed, on tables it reads. -/
def Transaction.body (x : Transaction) (t : Tables) : Prepared :=
  seedTransaction x.job.edition.docs x.job.edition.hash x.job.dryRun x.start t

/-- The committed tables, oldest version first, the transactions that wait for the
    lock, and the one that has it. -/
structure Server where
  clock : Instant
  tables : Tables := {}
  waiting : List Transaction := []
  holder : Option (Transaction × Option Prepared) := none

inductive Act where
  | begin (job : Job) (delay : Nat)
  | lock (n : Nat)
  | work
  | finish

/-- What a seed answers: an error, or whether it was a no-op and whether there is
    a new version. -/
abbrev Answer := Except ImporterError (Bool × Bool)

def answerOf (prepared : Prepared) : Answer :=
  prepared.map (fun r => (r.1.noop, r.1.newVersionId.isSome))

/-- The tables after a commit or a rollback. -/
def conclude (t : Tables) : Prepared → Tables
  | .ok r => r.2
  | .error _ => t

structure Ended where
  transaction : Transaction
  answer : Answer

/-- One step of one of the seeds. -/
def serverStep : Step Server Act Ended Unit
  | s, .begin job delay =>
      .ok ({ s with
        clock := s.clock + delay
        waiting := s.waiting ++ [⟨job, s.clock + delay⟩] }, [])
  | s, .lock n =>
      match s.holder, s.waiting[n]? with
      | none, some x =>
          .ok ({ s with waiting := s.waiting.eraseIdx n, holder := some (x, none) }, [])
      | _, _ => .error ()
  | s, .work =>
      match s.holder with
      | some (x, none) => .ok ({ s with holder := some (x, some (x.body s.tables)) }, [])
      | _ => .error ()
  | s, .finish =>
      match s.holder with
      | some (x, some prepared) =>
          .ok ({ s with tables := conclude s.tables prepared, holder := none },
            [⟨x, answerOf prepared⟩])
      | _ => .error ()

end Server

section Serial

/-- The tables of the serial seeds, and the start of the last of them. -/
structure Serial where
  clock : Instant := 0
  tables : Tables := {}

def Serial.prepared (s : Serial) (job : Job) : Prepared :=
  Transaction.body ⟨job, s.clock + 1⟩ s.tables

/-- One seed after those before it. -/
def Serial.next (s : Serial) (job : Job) : Serial where
  clock := s.clock + 1
  tables := conclude s.tables (s.prepared job)

/-- The tables after several seeds. -/
def serially (jobs : List Job) : Serial := jobs.foldl Serial.next {}

/-- What the seeds answer one after another. -/
def serialFrom (s : Serial) : List Job → List Answer
  | [] => []
  | job :: jobs => answerOf (s.prepared job) :: serialFrom (s.next job) jobs

def serial (jobs : List Job) : List Answer := serialFrom {} jobs

theorem serial_concat (jobs : List Job) (job : Job) :
    serial (jobs ++ [job]) = serial jobs ++ [answerOf ((serially jobs).prepared job)] := by
  unfold serial serially
  generalize ({} : Serial) = s
  induction jobs generalizing s with
  | nil => rfl
  | cons j jobs ih => exact congrArg (answerOf (s.prepared j) :: ·) (ih (s.next j))

theorem length_serial (jobs : List Job) : (serial jobs).length = jobs.length := by
  unfold serial
  generalize ({} : Serial) = s
  induction jobs generalizing s with
  | nil => rfl
  | cons j jobs ih => exact congrArg (· + 1) (ih (s.next j))

/-- An answer with a new version. -/
def creates : Answer → Bool
  | .ok (_, created) => created
  | .error _ => false

/-- The transactions that have a version to commit, if they are made one after
    another. -/
def creating (xs : List Transaction) : List Transaction :=
  ((xs.zip (serial (xs.map Transaction.job))).filter (fun p => creates p.2)).map Prod.fst

theorem creating_concat (xs : List Transaction) (x : Transaction) :
    creating (xs ++ [x]) = creating xs ++
      if creates (answerOf ((serially (xs.map Transaction.job)).prepared x.job)) then [x]
      else [] := by
  unfold creating
  rw [List.map_append, List.map_singleton, serial_concat, List.zip_append (by
    rw [length_serial, List.length_map]), List.filter_append, List.map_append]
  congr 1
  cases hc : creates (answerOf ((serially (xs.map Transaction.job)).prepared x.job)) with
  | true => simp [hc]
  | false => simp [hc]

end Serial

section Order

/-- The transactions that have ended, in their order. -/
def ended (ts : List (Taken Server Act Ended)) : List Transaction :=
  (outputs ts).map Ended.transaction

/-- Whatever version a query for the latest finds is the one committed last. -/
def LastWins (t : Tables) : Prop := ∀ v, t.Newest v → t.versions.getLast? = some v

/-- The seeds behave like their commit order: at any time the version committed
    last is the latest, every seed compares its payload with the version committed
    before it, and all seeds answer as they would one after another. -/
structure Linear (ts : List (Taken Server Act Ended)) : Prop where
  lastWins : ∀ t ∈ ts, LastWins t.after.tables
  compares : ∀ t ∈ ts, t.event = .work →
    t.before.tables.latest? = t.before.tables.versions.getLast?
  answers : (outputs ts).map Ended.answer = serial ((ended ts).map Transaction.job)

/-- The transactions that have a version to commit began in the order in which
    they commit. -/
def InOrder (ts : List (Taken Server Act Ended)) : Prop :=
  (creating (ended ts)).Pairwise (fun x y => x.start < y.start)

instance (ts : List (Taken Server Act Ended)) : Decidable (InOrder ts) :=
  inferInstanceAs (Decidable (List.Pairwise _ _))

end Order

section Answers

/-- What writing a version answers depends on the hashes and on the payload. -/
theorem answerOf_writeVersion (e : Edition) (now : Instant) (t : Tables) :
    answerOf (writeVersion e.docs e.hash now t) =
      if e.hash ∈ t.versions.map VersionRow.payloadHash then .error .uniqueViolation
      else if e.Storable then .ok (false, true) else .error .characterNotInRepertoire := by
  unfold writeVersion
  by_cases hhash : e.hash ∈ t.versions.map VersionRow.payloadHash
  · rw [if_pos hhash, if_pos hhash]
    rfl
  · rw [if_neg hhash, if_neg hhash]
    have hrefused := materialise_storable e now t
    rcases materialise_usual t.nextId e.docs (openVersion e.hash now t) (Or.inl rfl) with hw | hw
    · rw [if_pos (hrefused.mp hw)]
      simp only [hw]
      rfl
    · have hnot : ¬ e.Storable := by
        rw [← hrefused, hw]
        exact Option.some_ne_none _
      rw [if_neg hnot]
      simp only [hw]
      rfl

/-- What the rename check finds missing depends on the last edition. -/
theorem Archives.disappeared_eq {t : Tables} {past : List Edition} (h : Archives t past)
    (docs : List (String × Document)) :
    disappeared t docs = match past.getLast? with
      | none => []
      | some last => last.names.filter (fun name => !(payloadIds docs).contains name) := by
  unfold disappeared
  rcases h.latest with ⟨hlatest, rfl⟩ | ⟨v, last, _, hlatest, hlast, hholds⟩
  · rw [hlatest]
    rfl
  · rw [hlatest, hlast]
    simp only [hholds.names]

/-- What a seed answers depends on the editions alone. -/
theorem answer_of_archives {t t' : Tables} {past : List Edition} (h : Archives t past)
    (h' : Archives t' past) (job : Job) (now now' : Instant) :
    answerOf (Transaction.body ⟨job, now⟩ t) = answerOf (Transaction.body ⟨job, now'⟩ t') := by
  unfold Transaction.body seedTransaction
  simp only [h.latest_hash, h'.latest_hash, h.disappeared_eq, h'.disappeared_eq]
  by_cases hsame : past.getLast?.map Edition.hash = some job.edition.hash
  · rw [if_pos hsame, if_pos hsame]
    rfl
  · rw [if_neg hsame, if_neg hsame]
    generalize (match past.getLast? with
      | none => []
      | some last => last.names.filter
          (fun name => !(payloadIds job.edition.docs).contains name) : List String) = gone
    by_cases hgone : gone ≠ []
    · rw [if_pos hgone, if_pos hgone]
    · rw [if_neg hgone, if_neg hgone]
      cases job.dryRun with
      | true => rfl
      | false =>
          rw [if_neg Bool.false_ne_true, if_neg Bool.false_ne_true, answerOf_writeVersion,
            answerOf_writeVersion, h.hashes, h'.hashes]

end Answers

section Linearity

/-- What a transaction that has worked has prepared, it has prepared from the
    committed tables: nobody else has the lock. -/
def Server.Honest (s : Server) : Prop :=
  ∀ x prepared, s.holder = some (x, some prepared) → prepared = x.body s.tables

/-- The tables hold the editions of the serial tables, each version stamped with
    the start of its transaction. -/
structure Tracks (ts : List (Taken Server Act Ended)) (s : Server) : Prop where
  editions : ∃ past, Archives s.tables past ∧
    Archives (serially ((ended ts).map Transaction.job)).tables past
  clock : ∀ v ∈ (serially ((ended ts).map Transaction.job)).tables.versions,
    v.createdAt ≤ (serially ((ended ts).map Transaction.job)).clock
  stamps : s.tables.versions.map VersionRow.createdAt =
    (creating (ended ts)).map Transaction.start
  answers : (outputs ts).map Ended.answer = serial ((ended ts).map Transaction.job)

/-- What one step is: nothing to the tables, or the end of a transaction. -/
theorem serverStep_cases {s s' : Server} {a : Act} {out : List Ended}
    (h : serverStep s a = .ok (s', out)) :
    (s'.tables = s.tables ∧ out = [] ∧ (s.Honest → s'.Honest)) ∨
      ∃ x prepared, a = .finish ∧ s.holder = some (x, some prepared) ∧
        out = [⟨x, answerOf prepared⟩] ∧ s'.holder = none ∧
        s'.tables = conclude s.tables prepared := by
  cases a with
  | begin job delay =>
      cases h
      exact Or.inl ⟨rfl, rfl, id⟩
  | lock n =>
      simp only [serverStep] at h
      rcases hh : s.holder with _ | held
      · cases hw : s.waiting[n]? with
        | none => simp only [hh, hw, reduceCtorEq] at h
        | some x =>
            simp only [hh, hw, Except.ok.injEq, Prod.mk.injEq] at h
            rcases h with ⟨rfl, rfl⟩
            refine Or.inl ⟨rfl, rfl, fun _ y prepared hy => ?_⟩
            cases hy
      · simp only [hh, reduceCtorEq] at h
  | work =>
      simp only [serverStep] at h
      rcases hh : s.holder with _ | ⟨x, _ | prepared⟩
      · simp only [hh, reduceCtorEq] at h
      · simp only [hh, Except.ok.injEq, Prod.mk.injEq] at h
        rcases h with ⟨rfl, rfl⟩
        refine Or.inl ⟨rfl, rfl, fun _ y prepared hy => ?_⟩
        cases hy
        rfl
      · simp only [hh, reduceCtorEq] at h
  | finish =>
      simp only [serverStep] at h
      rcases hh : s.holder with _ | ⟨x, _ | prepared⟩
      · simp only [hh, reduceCtorEq] at h
      · simp only [hh, reduceCtorEq] at h
      · simp only [hh, Except.ok.injEq, Prod.mk.injEq] at h
        rcases h with ⟨rfl, rfl⟩
        exact Or.inr ⟨x, prepared, rfl, rfl, rfl, rfl, rfl⟩

theorem run_honest {clock : Instant} {ts : List (Taken Server Act Ended)} {s : Server}
    (h : Run serverStep { clock := clock } ts s) : s.Honest := by
  refine h.invariant Server.Honest (fun x prepared hx => ?_) (fun s a s' out hs hstep => ?_)
  · cases hx
  · rcases serverStep_cases hstep with ⟨_, _, hhonest⟩ | ⟨x, prepared, _, _, _, hfree, _⟩
    · exact hhonest hs
    · intro y prepared hy
      rw [hfree] at hy
      cases hy

/-- A seed answers that there is a new version when there is one, and else leaves
    the tables alone. -/
theorem body_cases (x : Transaction) (t : Tables) :
    (creates (answerOf (x.body t)) = false ∧ conclude t (x.body t) = t) ∨
      ∃ r, x.body t = .ok r ∧ creates (answerOf (x.body t)) = true ∧
        Versioned x.job.edition.docs x.job.edition.hash x.start t r.2 := by
  cases hbody : x.body t with
  | error e => exact Or.inl ⟨rfl, rfl⟩
  | ok r =>
      rcases seedTransaction_cases hbody with
        ⟨_, hr, ht⟩ | ⟨_, _, ⟨_, hr, ht⟩ | ⟨_, hwrite⟩⟩
      · refine Or.inl ⟨?_, ht⟩
        simp only [answerOf, Except.map, creates, hr, Option.isSome_none]
      · refine Or.inl ⟨?_, ht⟩
        simp only [answerOf, Except.map, creates, hr, Option.isSome_none]
      · rcases writeVersion_versioned hwrite with ⟨hversioned, hid, _⟩
        refine Or.inr ⟨r, rfl, ?_, hversioned⟩
        simp only [answerOf, Except.map, creates, hid, Option.isSome_some]

theorem serially_concat (jobs : List Job) (job : Job) :
    serially (jobs ++ [job]) = (serially jobs).next job := by
  rw [serially, List.foldl_append]
  rfl

theorem ended_snoc (ts : List (Taken Server Act Ended)) (t : Taken Server Act Ended) :
    ended (ts ++ [t]) = ended ts ++ t.out.map Ended.transaction := by
  rw [ended, outputs_snoc, List.map_append]
  rfl

/-- A transaction that ends, and that began after those before it if it has a
    version to commit. -/
theorem Tracks.finish {ts : List (Taken Server Act Ended)} {s s' : Server} {a : Act}
    {x : Transaction} {prepared : Prepared} (htracks : Tracks ts s)
    (hprepared : prepared = x.body s.tables)
    (htables : s'.tables = conclude s.tables prepared)
    (horder : creates (answerOf ((serially ((ended ts).map Transaction.job)).prepared x.job)) →
      ∀ y ∈ creating (ended ts), y.start < x.start) :
    Tracks (ts ++ [⟨s, a, s', [⟨x, answerOf prepared⟩]⟩]) s' := by
  subst hprepared
  rcases htracks.editions with ⟨past, harchives, hserial⟩
  have hclock := htracks.clock
  have hended : ended (ts ++ [⟨s, a, s', [⟨x, answerOf (x.body s.tables)⟩]⟩]) = ended ts ++ [x] :=
    ended_snoc _ _
  have hjobs : (ended ts ++ [x]).map Transaction.job =
      (ended ts).map Transaction.job ++ [x.job] := List.map_append
  -- Both have archived the same editions, so the answers agree.
  have hanswer : answerOf (x.body s.tables) =
      answerOf ((serially ((ended ts).map Transaction.job)).prepared x.job) :=
    answer_of_archives harchives hserial x.job x.start _
  have hanswers : (outputs (ts ++ [⟨s, a, s', [⟨x, answerOf (x.body s.tables)⟩]⟩])).map
      Ended.answer = serial ((ended ts ++ [x]).map Transaction.job) := by
    rw [outputs_snoc, List.map_append, htracks.answers, hjobs, serial_concat, ← hanswer]
    rfl
  have hstamp (v) (hv : v ∈ s.tables.versions) :
      ∃ y ∈ creating (ended ts), v.createdAt = y.start := by
    have hmem := htracks.stamps ▸ List.mem_map_of_mem (f := VersionRow.createdAt) hv
    rcases List.mem_map.mp hmem with ⟨y, hy, hys⟩
    exact ⟨y, hy, hys.symm⟩
  have hnext : (serially ((ended ts).map Transaction.job)).next x.job =
      serially ((ended ts).map Transaction.job ++ [x.job]) := (serially_concat _ _).symm
  refine ⟨?_, ?_, ?_, ?_⟩
  · rw [hended, hjobs, ← hnext]
    generalize serially ((ended ts).map Transaction.job) = S at *
    rcases body_cases x s.tables with ⟨hidle, hsame⟩ | ⟨r, hbody, hcreates, hversioned⟩
    · rcases body_cases ⟨x.job, S.clock + 1⟩ S.tables with ⟨_, hsame'⟩ | ⟨_, _, hcreates', _⟩
      · refine ⟨past, htables.trans hsame ▸ harchives, ?_⟩
        rw [show (S.next x.job).tables = S.tables from hsame']
        exact hserial
      · rw [hanswer] at hidle
        exact absurd (hidle.symm.trans hcreates') Bool.noConfusion
    · rcases body_cases ⟨x.job, S.clock + 1⟩ S.tables with
        ⟨hidle', _⟩ | ⟨r', hbody', _, hversioned'⟩
      · rw [hanswer] at hcreates
        exact absurd (hidle'.symm.trans hcreates) Bool.noConfusion
      · refine ⟨past ++ [x.job.edition], ?_, ?_⟩
        · rw [htables, hbody]
          refine harchives.versioned (fun v hv => ?_) hversioned
          rcases hstamp v hv with ⟨y, hy, hvy⟩
          rw [hvy]
          exact horder (hanswer ▸ hcreates) y hy
        · have htables' : (S.next x.job).tables = r'.2 := by
            exact congrArg (conclude S.tables) hbody'
          rw [htables']
          exact hserial.versioned (fun v hv => Int.lt_add_one_of_le (hclock v hv)) hversioned'
  · rw [hended, hjobs, ← hnext]
    generalize serially ((ended ts).map Transaction.job) = S at *
    intro v hv
    have hlate (hv : v ∈ S.tables.versions) : v.createdAt ≤ S.clock + 1 :=
      (hclock v hv).trans (le_of_lt (Int.lt_add_one_of_le (le_refl _)))
    rcases body_cases ⟨x.job, S.clock + 1⟩ S.tables with ⟨_, hsame'⟩ | ⟨r', hbody', _, hversioned'⟩
    · rw [show (S.next x.job).tables = S.tables from hsame'] at hv
      exact hlate hv
    · have htables' : (S.next x.job).tables = r'.2 := by
        exact congrArg (conclude S.tables) hbody'
      rw [htables', hversioned'.versions] at hv
      rcases List.mem_append.mp hv with hv | hv
      · exact hlate hv
      · rw [List.mem_singleton.mp hv]
        exact le_refl _
  · rw [hended, creating_concat, ← hanswer]
    rcases body_cases x s.tables with ⟨hidle, hsame⟩ | ⟨r, hbody, hcreates, hversioned⟩
    · rw [htables, hsame, hidle, if_neg Bool.false_ne_true, List.append_nil]
      exact htracks.stamps
    · have htables' : s'.tables = r.2 := htables.trans (congrArg (conclude s.tables) hbody)
      rw [htables', hversioned.versions, hcreates, if_pos rfl, List.map_append, List.map_append,
        htracks.stamps]
      rfl
  · rw [hended]
    exact hanswers

theorem InOrder.prefix {ts : List (Taken Server Act Ended)} {t : Taken Server Act Ended}
    (h : InOrder (ts ++ [t])) : InOrder ts := by
  unfold InOrder at h ⊢
  rw [ended_snoc] at h
  generalize t.out.map Ended.transaction = xs at h
  induction xs using List.reverseRecOn with
  | nil => rwa [List.append_nil] at h
  | append_singleton xs x ih =>
      rw [← List.append_assoc, creating_concat, List.pairwise_append] at h
      exact ih h.1

/-- The last step of a run: nothing to the tables, or the end of a transaction. -/
theorem run_last {clock : Instant} {ts : List (Taken Server Act Ended)} {s s' : Server} {a : Act}
    {out : List Ended} (hrun : Run serverStep { clock := clock } ts s)
    (hstep : serverStep s a = .ok (s', out)) :
    (s'.tables = s.tables ∧ out = []) ∨
      ∃ x, a = .finish ∧ out = [⟨x, answerOf (x.body s.tables)⟩] ∧
        s'.tables = conclude s.tables (x.body s.tables) := by
  rcases serverStep_cases hstep with ⟨htables, hout, _⟩ | ⟨x, prepared, ha, hheld, hout, _, htables⟩
  · exact Or.inl ⟨htables, hout⟩
  · rw [run_honest hrun x prepared hheld] at hout htables
    exact Or.inr ⟨x, ha, hout, htables⟩

/-- A step that ends no transaction. -/
theorem Tracks.idle {ts : List (Taken Server Act Ended)} {s s' : Server} {a : Act}
    (htracks : Tracks ts s) (htables : s'.tables = s.tables) :
    Tracks (ts ++ [⟨s, a, s', []⟩]) s' := by
  have hended : ended (ts ++ [⟨s, a, s', []⟩]) = ended ts := by
    rw [ended_snoc, List.map_nil, List.append_nil]
  have houtputs : outputs (ts ++ [⟨s, a, s', []⟩]) = outputs ts := by
    rw [outputs_snoc, List.append_nil]
  constructor
  · rw [hended, htables]
    exact htracks.editions
  · rw [hended]
    exact htracks.clock
  · rw [hended, htables]
    exact htracks.stamps
  · rw [hended, houtputs]
    exact htracks.answers

/-- In order, the tables hold the editions of the serial tables. -/
theorem inOrder_tracks {clock : Instant} {ts : List (Taken Server Act Ended)} {s : Server}
    (hrun : Run serverStep { clock := clock } ts s) (horder : InOrder ts) : Tracks ts s := by
  induction hrun with
  | nil =>
      exact ⟨⟨[], archives_empty, archives_empty⟩, fun v hv => absurd hv List.not_mem_nil, rfl, rfl⟩
  | snoc ts s s' a out hrun hstep ih =>
      have htracks := ih horder.prefix
      rcases run_last hrun hstep with ⟨htables, rfl⟩ | ⟨x, _, rfl, htables⟩
      · exact htracks.idle htables
      · refine htracks.finish rfl htables (fun hcreates y hy => ?_)
        unfold InOrder at horder
        rw [ended_snoc, List.map_singleton, creating_concat, if_pos hcreates,
          List.pairwise_append] at horder
        exact horder.2.2 y hy x List.mem_cons_self

/-- Versions whose stamps follow each other end with the latest. -/
theorem Archives.lastWins {t : Tables} {past : List Edition} (h : Archives t past) :
    LastWins t := by
  rintro v ⟨hv, hnewest⟩
  rcases List.eq_nil_or_concat' t.versions with hnil | ⟨init, w, hlast⟩
  · rw [hnil] at hv
    exact absurd hv List.not_mem_nil
  · have hordered := h.ordered
    rw [hlast, List.pairwise_append] at hordered
    rw [hlast, List.mem_append] at hv
    rw [hlast, List.getLast?_concat]
    rcases hv with hv | hv
    · have hw : w ∈ t.versions := hlast ▸ List.mem_append_right _ List.mem_cons_self
      exact absurd (hnewest w hw) (not_le_of_gt (hordered.2.2 v hv w List.mem_cons_self))
    · rw [List.mem_singleton.mp hv]

/-- So the query for the latest finds the version committed last. -/
theorem LastWins.latest {t : Tables} (h : LastWins t) : t.latest? = t.versions.getLast? := by
  rcases latest?_cases t with ⟨hnil, hnone⟩ | ⟨v, hlatest, hnewest⟩
  · rw [hnil, hnone]
    rfl
  · rw [hlatest, h v hnewest]

/-- Where the version committed last wins, it began after all others. -/
theorem LastWins.stamps_lt {docs : List (String × Document)} {hash : String} {now : Instant}
    {t t' : Tables} (ht : t.Sound) (h : Versioned docs hash now t t') (hlast : LastWins t') :
    ∀ v ∈ t.versions, v.createdAt < now := by
  intro v hv
  by_contra hlate
  rw [not_lt] at hlate
  -- A newest of the older versions would then be a newest of all.
  rcases latest?_cases t with ⟨hnil, _⟩ | ⟨w, _, hw, hnewest⟩
  · rw [hnil] at hv
    exact absurd hv List.not_mem_nil
  · have hwnewest : t'.Newest w := by
      rw [Tables.Newest, h.versions]
      refine ⟨List.mem_append_left _ hw, fun u hu => ?_⟩
      rcases List.mem_append.mp hu with hu | hu
      · exact hnewest u hu
      · rw [List.mem_singleton.mp hu]
        exact hlate.trans (hnewest v hv)
    have hlastw := hlast w hwnewest
    rw [h.versions, List.getLast?_concat, Option.some.injEq] at hlastw
    exact Nat.ne_of_lt (ht.versions_lt w hw) (congrArg VersionRow.id hlastw).symm

theorem InOrder.linear {clock : Instant} {ts : List (Taken Server Act Ended)} {s : Server}
    (hrun : Run serverStep { clock := clock } ts s) (horder : InOrder ts) : Linear ts := by
  induction hrun with
  | nil =>
      exact ⟨fun t ht => absurd ht List.not_mem_nil, fun t ht => absurd ht List.not_mem_nil, rfl⟩
  | snoc ts s s' a out hrun hstep ih =>
      have hbefore := ih horder.prefix
      have htracks := inOrder_tracks hrun horder.prefix
      have htracks' := inOrder_tracks (hrun.snoc ts s s' a out hstep) horder
      rcases htracks.editions with ⟨past, harchives, _⟩
      rcases htracks'.editions with ⟨past', harchives', _⟩
      refine ⟨fun t ht => ?_, fun t ht hwork => ?_, htracks'.answers⟩
      · rcases List.mem_append.mp ht with ht | ht
        · exact hbefore.lastWins t ht
        · rw [List.mem_singleton.mp ht]
          exact harchives'.lastWins
      · rcases List.mem_append.mp ht with ht | ht
        · exact hbefore.compares t ht hwork
        · rw [List.mem_singleton.mp ht]
          exact harchives.lastWins.latest

theorem Linear.prefix {ts : List (Taken Server Act Ended)} {t : Taken Server Act Ended}
    (h : Linear (ts ++ [t])) : Linear ts := by
  refine ⟨fun u hu => h.lastWins u (List.mem_append_left _ hu),
    fun u hu => h.compares u (List.mem_append_left _ hu), ?_⟩
  have hanswers := h.answers
  rw [outputs_snoc, ended_snoc, List.map_append, List.map_append] at hanswers
  generalize t.out = out at hanswers
  induction out using List.reverseRecOn with
  | nil => simpa using hanswers
  | append_singleton out e ih =>
      rw [List.map_append, List.map_append, List.map_append, ← List.append_assoc,
        ← List.append_assoc, List.map_singleton, List.map_singleton, List.map_singleton,
        serial_concat] at hanswers
      exact ih (List.append_inj_left' hanswers rfl)

theorem Linear.inOrder {clock : Instant} {ts : List (Taken Server Act Ended)} {s : Server}
    (hrun : Run serverStep { clock := clock } ts s) (h : Linear ts) : InOrder ts := by
  induction hrun with
  | nil => exact List.Pairwise.nil
  | snoc ts s s' a out hrun hstep ih =>
      have horder := ih h.prefix
      have htracks := inOrder_tracks hrun horder
      rcases htracks.editions with ⟨past, harchives, hserial⟩
      unfold InOrder at horder ⊢
      rcases run_last hrun hstep with ⟨_, rfl⟩ | ⟨x, _, rfl, htables⟩
      · rw [ended_snoc, List.map_nil, List.append_nil]
        exact horder
      · have hanswer : answerOf (x.body s.tables) =
            answerOf ((serially ((ended ts).map Transaction.job)).prepared x.job) :=
          answer_of_archives harchives hserial x.job x.start _
        rw [ended_snoc, List.map_singleton, creating_concat]
        simp only
        rw [← hanswer]
        rcases body_cases x s.tables with ⟨hidle, _⟩ | ⟨r, hbody, hcreates, hversioned⟩
        · rw [hidle, if_neg Bool.false_ne_true, List.append_nil]
          exact horder
        · rw [hcreates, if_pos rfl, List.pairwise_append]
          refine ⟨horder, List.pairwise_singleton _ _, fun y hy z hz => ?_⟩
          rw [List.mem_singleton.mp hz]
          -- The stamp of a version already there is the start of its transaction.
          have hlast := h.lastWins _ (List.mem_append_right _ List.mem_cons_self)
          rw [htables, hbody] at hlast
          have hstamp := htracks.stamps ▸ List.mem_map_of_mem (f := Transaction.start) hy
          rcases List.mem_map.mp hstamp with ⟨v, hv, hvy⟩
          rw [← hvy]
          exact hlast.stamps_lt harchives.sound hversioned v hv

/-- Any number of seeds behave like their commit order just where the transactions
    that have a version to commit began in the order in which they commit. -/
theorem linear_iff {clock : Instant} {ts : List (Taken Server Act Ended)} {s : Server}
    (hrun : Run serverStep { clock := clock } ts s) : Linear ts ↔ InOrder ts :=
  ⟨Linear.inOrder hrun, InOrder.linear hrun⟩

def jobD : Job := ⟨⟨computePayloadHash sampleKit (sampleDir "D"),
  [("go", sampleDocument "D" sampleD_ne)]⟩, false⟩

def jobE : Job := ⟨⟨computePayloadHash sampleKit (sampleDir "E"),
  [("go", sampleDocument "E" sampleE_ne)]⟩, false⟩

/-- Two seeds that begin one after the other and get the lock in that order. -/
def orderedActs : List Act :=
  [.begin jobD 0, .begin jobE 1, .lock 0, .work, .finish, .lock 0, .work, .finish]

theorem linear_sample : ∃ ts s, Run serverStep { clock := 0 } ts s ∧
    s.tables.versions.length = 2 ∧ Linear ts := by
  have hrec : (record serverStep { clock := 0 } orderedActs).map
      (fun r => (r.2.tables.versions.length, decide (InOrder r.1))) = .ok (2, true) := by
    decide +kernel
  rcases exists_run_of_record _ _ _ _ _ hrec with ⟨ts, s, hrun, hshown⟩
  rw [Prod.mk.injEq] at hshown
  exact ⟨ts, s, hrun, hshown.1, (linear_iff hrun).mpr (of_decide_eq_true hshown.2)⟩

/-- The seed that begins first gets the lock last. -/
def overtakenActs : List Act :=
  [.begin jobD 0, .begin jobE 1, .lock 1, .work, .finish, .lock 0, .work, .finish]

/-- Then the version committed last is not the latest. -/
theorem overtaken : ∃ ts s, Run serverStep { clock := 0 } ts s ∧
    s.tables.versions.map VersionRow.createdAt = [1, 0] ∧ ¬ Linear ts := by
  have hrec : (record serverStep { clock := 0 } overtakenActs).map
      (fun r => (r.2.tables.versions.map VersionRow.createdAt,
        r.1.getLast?.map (fun t => t.after.tables.versions.map VersionRow.createdAt))) =
      .ok ([1, 0], some [1, 0]) := by
    decide +kernel
  rcases exists_run_of_record _ _ _ _ _ hrec with ⟨ts, s, hrun, hshown⟩
  rw [Prod.mk.injEq] at hshown
  refine ⟨ts, s, hrun, hshown.1, fun hlinear => ?_⟩
  rcases Option.map_eq_some_iff.mp hshown.2 with ⟨t, ht, hstamps⟩
  have hlast := hlinear.lastWins t (List.mem_of_getLast? ht)
  unfold LastWins Tables.Newest at hlast
  -- Two versions, the first of them stamped later.
  rcases hversions : t.after.tables.versions with _ | ⟨v, _ | ⟨w, _ | ⟨u, rest⟩⟩⟩
  · simp [hversions] at hstamps
  · simp [hversions] at hstamps
  · simp only [hversions, List.map_cons, List.map_nil, List.cons.injEq, and_true] at hstamps hlast
    have hv := hlast v ⟨List.mem_cons_self, fun x hx => ?_⟩
    · have hwv : w = v := Option.some.inj hv
      rw [hwv, hstamps.1] at hstamps
      exact absurd hstamps.2 (by decide)
    · rcases List.mem_cons.mp hx with rfl | hx
      · exact le_refl _
      · rw [List.mem_singleton.mp hx, hstamps.1, hstamps.2]
        decide
  · simp [hversions] at hstamps

end Linearity

end TechScreen.Rubric
