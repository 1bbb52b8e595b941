import TechScreen.Services.FlagStaleness

/-!
# Syncing Flags

Two parties write the rows that the flags are read from. The sync of the
committed configuration upserts a row for every entry, statement by statement,
and an operator flips, inserts or deletes rows by hand. Nothing keeps them
apart: a sync may be cut short, run twice at once, or run for another version of
the configuration than the service has. What keeps an operator's decision safe
is that an upsert never touches the `enabled` column of a row that is there.

So two promises can be made about what a query returns, over every interleaving
of syncs, operators, queries and lost notifications. Where no operator writes
another value, the answers stay what they were at the start, since a row that a
sync creates says what the service falls back to without it. And a value that
an operator sets on a row that is there is what every query returns that starts
a time-to-live later, whatever is synced meanwhile, until an operator says
otherwise.

The first promise rests on a sync and a service that agree on the defaults. The
contract of the configuration lets a name stand twice, and then they need not: a
sync creates the row from the first entry, and the service keeps the last.

## Main definitions

* `Row`, `SyncEntry`: A row of `feature_flag`, and an entry as a sync reads it.
* `Statement`: What is executed on the table.
* `World`: The service, and the rows it reads.
* `upsertAll`, `orphans`: A whole sync.

## Theorems

* `happened_of_step`: What an event does to the world.
* `answers_kept`: Where no operator says otherwise, the answers stay the same.
* `switch_sticks`: What an operator sets stays set.
* `sync_unseen_iff`: Which configurations a service cannot see being synced.
-/

namespace TechScreen.FeatureFlags

open Lib

section Table

/-- What a sync reads of an entry of `configs/feature-flags.yaml`. -/
structure SyncEntry where
  name : String
  owner : String
  default : Bool
  defaultValue : Option Json := none

/-- A row of `feature_flag`, but for its key and its timestamp. -/
structure Row where
  enabled : Bool
  owner : String
  defaultValue : Option Json := none
  updatedBy : Option String := none

/-- The row that an upsert leaves: a row that is there keeps its `enabled`. -/
def upserted (entry : SyncEntry) : Option Row → Row
  | none => ⟨entry.default, entry.owner, entry.defaultValue, some "configs-as-code"⟩
  | some row => { row with
      owner := entry.owner, defaultValue := entry.defaultValue
      updatedBy := some "configs-as-code" }

/-- A statement that is executed on the table, in a transaction of its own. -/
inductive Statement where
  | upsert (entry : SyncEntry)
  | setEnabled (name : String) (enabled : Bool) (updatedBy : String)
  | insert (name : String) (row : Row)
  | delete (name : String)

/-- The row that a statement writes or deletes, if there is one: an update finds no
    row to change, and an insert is refused where one is. -/
def Statement.write (table : Dict String Row) : Statement → Option (String × Option Row)
  | .upsert entry => some (entry.name, some (upserted entry (table.get? entry.name)))
  | .setEnabled name enabled updatedBy => (table.get? name).map (fun row =>
      (name, some { row with enabled := enabled, updatedBy := some updatedBy }))
  | .insert name row => if (table.get? name).isSome then none else some (name, some row)
  | .delete name => (table.get? name).map (fun _ => (name, none))

def put (table : Dict String Row) (name : String) : Option Row → Dict String Row
  | some row => table.set name row
  | none => table.erase name

theorem get?_put (table : Dict String Row) (name other : String) (row : Option Row) :
    (put table name row).get? other = if other = name then row else table.get? other := by
  by_cases h : other = name
  · subst h
    rw [if_pos rfl]
    cases row with
    | some row => exact Dict.get?_set_self _ _ _
    | none => exact Dict.get?_erase_self _ _
  · rw [if_neg h]
    cases row with
    | some row => exact Dict.get?_set_of_ne _ _ _ _ h
    | none => exact Dict.get?_erase_of_ne _ _ _ h

end Table

section World

/-- The service, and the table whose `enabled` column it reads. -/
structure World where
  flags : Flags
  table : Dict String Row
  enabled_eq : ∀ name, flags.rows.get? name = (table.get? name).map Row.enabled

inductive Event where
  | service (action : Action)
  | statement (s : Statement)

/-- A row is committed through its statement only. -/
def Action.isCommit : Action → Bool
  | .commit _ _ => true
  | _ => false

theorem rows_commit (flags : Flags) (name other : String) (row : Option Bool) :
    (flags.commit name row).rows.get? other
      = if other = name then row else flags.rows.get? other := by
  by_cases h : other = name
  · subst h
    rw [if_pos rfl]
    cases row with
    | some row => exact Dict.get?_set_self _ _ _
    | none => exact Dict.get?_erase_self _ _
  · rw [if_neg h]
    cases row with
    | some row => exact Dict.get?_set_of_ne _ _ _ _ h
    | none => exact Dict.get?_erase_of_ne _ _ _ h

theorem enabled_eq_put (w : World) (name : String) (row : Option Row) (other : String) :
    (w.flags.commit name (row.map Row.enabled)).rows.get? other
      = ((put w.table name row).get? other).map Row.enabled := by
  rw [rows_commit, get?_put]
  split
  · rfl
  · exact w.enabled_eq other

variable {reg : Registry}

theorem rows_of_move {w w' : Flags} {action : Action} {out : List Output}
    (hmove : Move reg w action w' out) (h : action.isCommit = false) : w'.rows = w.rows := by
  cases hmove with
  | committed name row => exact Bool.noConfusion h
  | notified k flag hchange =>
      unfold onNotify
      split <;> rfl
  | refused | hit | missed | read | failed | acquired | stored | finished | lost | ticked => rfl

theorem enabled_eq_of_step (w : World) {action : Action} {flags : Flags} {out : List Output}
    (hcommit : ¬ action.isCommit = true) (h : Flags.step reg w.flags action = .ok (flags, out))
    (name : String) : flags.rows.get? name = (w.table.get? name).map Row.enabled := by
  rw [rows_of_move (move_of_step h) (Bool.eq_false_iff.mpr hcommit)]
  exact w.enabled_eq name

def World.step (reg : Registry) : Step World Event Output Disabled := fun w event =>
  match event with
  | .statement s =>
      match s.write w.table with
      | none => .ok (w, [])
      | some (name, row) =>
          .ok (⟨w.flags.commit name (row.map Row.enabled), put w.table name row,
            enabled_eq_put w name row⟩, [])
  | .service action =>
      if hcommit : action.isCommit = true then .error .disabled
      else
        match hstep : Flags.step reg w.flags action with
        | .error x => .error x
        | .ok (flags, out) => .ok (⟨flags, w.table, enabled_eq_of_step w hcommit hstep⟩, out)

theorem enabled_eq_built (table : Dict String Row) (name : String) :
    (table.mapValues Row.enabled).get? name = (table.get? name).map Row.enabled :=
  Dict.get?_mapValues Row.enabled table name

/-- A service that has just been built over a table. -/
def World.built (table : Dict String Row) (clock : Instant) : World :=
  ⟨FeatureFlags.built (table.mapValues Row.enabled) clock, table, enabled_eq_built table⟩

/-- What an event does to the world. -/
inductive Happened (reg : Registry) (w : World) : Event → World → List Output → Prop
  | idle (s : Statement) (hwrite : s.write w.table = none) : Happened reg w (.statement s) w []
  | wrote (s : Statement) (name : String) (row : Option Row) (w' : World)
      (hwrite : s.write w.table = some (name, row))
      (hflags : w'.flags = w.flags.commit name (row.map Row.enabled))
      (htable : w'.table = put w.table name row) : Happened reg w (.statement s) w' []
  | served (action : Action) (w' : World) (out : List Output)
      (hcommit : action.isCommit = false) (hmove : Move reg w.flags action w'.flags out)
      (htable : w'.table = w.table) : Happened reg w (.service action) w' out

theorem happened_of_step {w w' : World} {event : Event} {out : List Output}
    (h : World.step reg w event = .ok (w', out)) : Happened reg w event w' out := by
  cases event with
  | statement s =>
      simp only [World.step] at h
      split at h
      · next hwrite =>
          obtain ⟨rfl, rfl⟩ := Prod.mk.inj (Except.ok.inj h)
          exact .idle s hwrite
      · next name row hwrite =>
          obtain ⟨rfl, rfl⟩ := Prod.mk.inj (Except.ok.inj h)
          exact .wrote s name row _ hwrite rfl rfl
  | service action =>
      simp only [World.step] at h
      split at h
      · cases h
      · next hcommit =>
          split at h
          · cases h
          · next flags out' hstep =>
              obtain ⟨rfl, rfl⟩ := Prod.mk.inj (Except.ok.inj h)
              exact .served action _ _ (Bool.eq_false_iff.mpr hcommit)
                (move_of_step hstep) rfl

end World

section Answers
variable {reg : Registry} {w₀ w w' : World} {ts : List (Taken World Event Output)}
  {event : Event} {out : List Output}

/-- The states of the service in a run of the world. -/
def sights (w₀ : World) (ts : List (Taken World Event Output)) : List Flags :=
  w₀.flags :: ts.map (fun t => t.after.flags)

theorem sights_snoc (w₀ : World) (ts : List (Taken World Event Output))
    (t : Taken World Event Output) : sights w₀ (ts ++ [t]) = sights w₀ ts ++ [t.after.flags] := by
  rw [sights, sights, List.map_append, List.map_singleton, List.cons_append]

theorem mem_sights (h : Run (World.step reg) w₀ ts w) : w.flags ∈ sights w₀ ts := by
  cases h with
  | nil => exact List.mem_cons_self
  | snoc us a b e o hrun hstep =>
      rw [sights_snoc]
      exact List.mem_append_right _ List.mem_cons_self

/-- What the service sees of an event: nothing, or one of its moves. -/
theorem move_of_happened (h : Happened reg w event w' out) :
    (w' = w ∧ out = []) ∨ ∃ action, Move reg w.flags action w'.flags out := by
  cases h with
  | idle s hwrite => exact Or.inl ⟨rfl, rfl⟩
  | wrote s name row w' hwrite hflags htable =>
      refine Or.inr ⟨.commit name (row.map Row.enabled), ?_⟩
      rw [hflags]
      exact .committed name _
  | served action w' out hcommit hmove htable => exact Or.inr ⟨action, hmove⟩

theorem sourced_of_world {table : Dict String Row} {clock : Instant}
    (h : Run (World.step reg) (World.built table clock) ts w) :
    Sourced reg (sights (World.built table clock) ts) w.flags := by
  induction h with
  | nil => exact sourced_built reg _ clock _
  | snoc us a b e o hrun hstep ih =>
      rw [sights_snoc]
      rcases move_of_happened (happened_of_step hstep) with ⟨rfl, -⟩ | ⟨action, hmove⟩
      · exact
          { entries := fun name value expires hentry => (ih.entries name value expires hentry).more
            carried := fun i q value hq hvalue => (ih.carried i q value hq hvalue).more
            started := ih.started }
      · exact sourced_of_move (mem_sights hrun) ih hmove

/-- A returned value was seen, not more than a time-to-live before its query
    started. -/
theorem sighted_of_returned {seen : List Flags} {flags flags' : Flags} {action : Action}
    (h : Sourced reg seen flags) (hmove : Move reg flags action flags' out) {i : Nat}
    {value : Bool} (hout : .returned i value ∈ out) :
    ∃ q, flags'.queries[i]? = some q ∧ Sighted reg seen (q.now - cacheTtl) q.name value := by
  obtain ⟨q, hq, hfrom⟩ := returned_of_move hmove hout
  refine ⟨q, hq, ?_⟩
  rcases hfrom with ⟨-, -, hnow, hcached⟩ | hstored
  · rw [cached] at hcached
    split at hcached
    · next held expires hentry =>
        rw [Option.ite_none_right_eq_some] at hcached
        obtain ⟨hfuture, hheld⟩ := hcached
        obtain ⟨u, hu, hsince, hvalue⟩ := h.entries q.name held expires hentry
        have hlate : q.now - cacheTtl ≤ expires - cacheTtl :=
          Int.sub_le_sub_right (hnow ▸ Int.le_of_lt hfuture) _
        exact ⟨u, hu, Int.le_trans hlate hsince, hvalue.trans (Option.some.inj hheld)⟩
    · cases hcached
  · obtain ⟨u, hu, hsince, hvalue⟩ := h.carried i _ value hstored rfl
    have hpos : (0 : Int) ≤ cacheTtl := by decide
    exact ⟨u, hu, Int.le_trans (Int.sub_le_self _ hpos) hsince, hvalue⟩

/-- A statement leaves a flag at a value: a sync declares the default that the
    service has, and an operator writes nothing else. -/
def Statement.Leaves (name : String) (declared value : Bool) : Statement → Prop
  | .upsert entry => entry.name = name → entry.default = declared
  | .setEnabled flag enabled _ => flag = name → enabled = value
  | .insert flag row => flag = name → row.enabled = value
  | .delete flag => flag = name → declared = value

theorem effective_eq (w : World) {name : String} {decl : FlagDecl}
    (hdecl : reg.flags.get? name = some decl) :
    effective reg w.flags name
      = ((w.table.get? name).map Row.enabled).getD decl.default := by
  rw [effective, w.enabled_eq, hdecl]
  cases w.table.get? name with
  | none => rfl
  | some row => rfl

/-- What each event leaves of a flag's value. -/
theorem effective_of_happened {name : String} {decl : FlagDecl} {value : Bool}
    (hdecl : reg.flags.get? name = some decl) (h : Happened reg w event w' out)
    (hleaves : ∀ s, event = .statement s → s.Leaves name decl.default value)
    (heffective : effective reg w.flags name = value) : effective reg w'.flags name = value := by
  rw [effective_eq w hdecl] at heffective
  rw [effective_eq w' hdecl]
  cases h with
  | idle s hwrite => exact heffective
  | served action w' out hcommit hmove htable => rw [htable, heffective]
  | wrote s flag row w' hwrite hflags htable =>
      have hs := hleaves s rfl
      rw [htable, get?_put]
      by_cases hname : name = flag
      · subst hname
        rw [if_pos rfl]
        cases s with
        | upsert entry =>
            obtain ⟨rfl, rfl⟩ := Prod.mk.inj (Option.some.inj hwrite)
            cases hrow : w.table.get? entry.name with
            | none =>
                rw [hrow] at heffective
                exact (hs rfl).trans heffective
            | some row =>
                -- The row keeps its column.
                rw [hrow] at heffective
                exact heffective
        | setEnabled flag enabled updatedBy =>
            obtain ⟨row', -, hrow⟩ := Option.map_eq_some_iff.mp hwrite
            obtain ⟨rfl, rfl⟩ := Prod.mk.inj hrow
            exact hs rfl
        | insert flag row' =>
            rw [Statement.write, Option.ite_none_left_eq_some] at hwrite
            obtain ⟨rfl, rfl⟩ := Prod.mk.inj (Option.some.inj hwrite.2)
            exact hs rfl
        | delete flag =>
            obtain ⟨row', -, hrow⟩ := Option.map_eq_some_iff.mp hwrite
            obtain ⟨rfl, rfl⟩ := Prod.mk.inj hrow
            exact hs rfl
      · rw [if_neg hname]
        exact heffective

theorem effective_of_sights {name : String} {decl : FlagDecl} {value : Bool}
    (hdecl : reg.flags.get? name = some decl) (hrun : Run (World.step reg) w₀ ts w)
    (hleaves : ∀ t ∈ ts, ∀ s, t.event = .statement s → s.Leaves name decl.default value)
    (hstart : effective reg w₀.flags name = value) :
    ∀ u ∈ sights w₀ ts, effective reg u name = value := by
  induction hrun with
  | nil =>
      intro u hu
      rw [List.mem_singleton.mp hu, hstart]
  | snoc us a b e o hrun hstep ih =>
      have hbefore := ih (fun t ht => hleaves t (List.mem_append_left _ ht))
      intro u hu
      rw [sights_snoc, List.mem_append, List.mem_singleton] at hu
      rcases hu with hu | rfl
      · exact hbefore u hu
      · exact effective_of_happened hdecl (happened_of_step hstep)
          (hleaves _ (List.mem_append_right _ List.mem_cons_self))
          (hbefore a.flags (mem_sights hrun))

/-- Where no operator writes another value, and every sync declares the default
    that the service has, the answers stay what they were at the start. -/
theorem answers_kept (reg : Registry) (name : String) (decl : FlagDecl)
    (hdecl : reg.flags.get? name = some decl) (table : Dict String Row) (clock : Instant)
    (ts : List (Taken World Event Output)) (w : World)
    (hrun : Run (World.step reg) (World.built table clock) ts w)
    (hleaves : ∀ t ∈ ts, ∀ s, t.event = .statement s → s.Leaves name decl.default
      (effective reg (World.built table clock).flags name))
    (t : Taken World Event Output) (ht : t ∈ ts) (i : Nat) (value : Bool)
    (hout : .returned i value ∈ t.out) (q : Query) (hq : t.after.flags.queries[i]? = some q)
    (hname : q.name = name) : value = effective reg (World.built table clock).flags name := by
  obtain ⟨us, vs, hts⟩ := List.append_of_mem ht
  obtain ⟨hbefore, hstep⟩ := hrun.split us t vs hts
  rcases move_of_happened (happened_of_step hstep) with ⟨-, hnone⟩ | ⟨action, hmove⟩
  · rw [hnone] at hout
    exact absurd hout List.not_mem_nil
  · obtain ⟨q', hq', u, hu, -, hvalue⟩ := sighted_of_returned (sourced_of_world hbefore) hmove hout
    obtain rfl := Option.some.inj (hq.symm.trans hq')
    rw [← hvalue, hname]
    refine effective_of_sights hdecl hbefore (fun t' ht' => hleaves t' ?_) rfl u hu
    rw [hts]
    exact List.mem_append_left _ ht'

end Answers

section Switch
variable {reg : Registry} {w₀ w w' : World} {ts : List (Taken World Event Output)}
  {event : Event} {out : List Output}

/-- No operator undoes a value: a sync may say what it likes. -/
def Statement.Spares (name : String) (value : Bool) : Statement → Prop
  | .upsert _ => True
  | .setEnabled flag enabled _ => flag = name → enabled = value
  | .insert _ _ => True
  | .delete flag => flag ≠ name

/-- The row of a flag is there, and has the value. -/
def Set (w : World) (name : String) (value : Bool) : Prop :=
  (w.table.get? name).map Row.enabled = some value

theorem set_of_happened {name : String} {value : Bool} (h : Happened reg w event w' out)
    (hspares : ∀ s, event = .statement s → s.Spares name value) (hset : Set w name value) :
    Set w' name value := by
  cases h with
  | idle s hwrite => exact hset
  | served action w' out hcommit hmove htable => rwa [Set, htable]
  | wrote s flag row w' hwrite hflags htable =>
      have hs := hspares s rfl
      rw [Set, htable, get?_put]
      by_cases hname : name = flag
      · subst hname
        rw [if_pos rfl]
        obtain ⟨row', hrow', henabled⟩ := Option.map_eq_some_iff.mp hset
        cases s with
        | upsert entry =>
            obtain ⟨rfl, rfl⟩ := Prod.mk.inj (Option.some.inj hwrite)
            rw [hrow']
            exact congrArg some henabled
        | setEnabled flag enabled updatedBy =>
            obtain ⟨row'', -, hrow⟩ := Option.map_eq_some_iff.mp hwrite
            obtain ⟨rfl, rfl⟩ := Prod.mk.inj hrow
            exact congrArg some (hs rfl)
        | insert flag row'' =>
            rw [Statement.write, Option.ite_none_left_eq_some] at hwrite
            obtain ⟨rfl, rfl⟩ := Prod.mk.inj (Option.some.inj hwrite.2)
            rw [hrow'] at hwrite
            exact absurd rfl hwrite.1
        | delete flag =>
            obtain ⟨row'', -, hrow⟩ := Option.map_eq_some_iff.mp hwrite
            exact absurd (Prod.mk.inj hrow).1 hs
      · rw [if_neg hname]
        exact hset

/-- An update of a row that is there sets it. -/
theorem set_of_setEnabled {name updatedBy : String} {value : Bool}
    (h : Happened reg w (.statement (.setEnabled name value updatedBy)) w' out)
    (hrow : (w.table.get? name).isSome) : Set w' name value := by
  obtain ⟨row, hrow⟩ := Option.isSome_iff_exists.mp hrow
  cases h with
  | idle s hwrite =>
      rw [Statement.write, hrow] at hwrite
      cases hwrite
  | wrote s flag row' w' hwrite hflags htable =>
      rw [Statement.write, hrow] at hwrite
      obtain ⟨rfl, rfl⟩ := Prod.mk.inj (Option.some.inj hwrite)
      rw [Set, htable, get?_put, if_pos rfl]
      rfl

theorem clock_of_happened (h : Happened reg w event w' out) : w.flags.clock ≤ w'.flags.clock := by
  rcases move_of_happened h with ⟨rfl, -⟩ | ⟨action, hmove⟩
  · exact Int.le_refl _
  · exact clock_of_move hmove

theorem set_of_sights {name : String} {value : Bool} (hrun : Run (World.step reg) w₀ ts w)
    (hspares : ∀ t ∈ ts, ∀ s, t.event = .statement s → s.Spares name value)
    (hset : Set w₀ name value) : Set w name value ∧
      ∀ u ∈ sights w₀ ts, u.rows.get? name = some value := by
  induction hrun with
  | nil =>
      refine ⟨hset, fun u hu => ?_⟩
      rw [List.mem_singleton.mp hu, w₀.enabled_eq]
      exact hset
  | snoc us a b e o hrun hstep ih =>
      obtain ⟨hbefore, hseen⟩ := ih (fun t ht => hspares t (List.mem_append_left _ ht))
      have hafter := set_of_happened (happened_of_step hstep)
        (hspares _ (List.mem_append_right _ List.mem_cons_self)) hbefore
      refine ⟨hafter, fun u hu => ?_⟩
      rw [sights_snoc, List.mem_append, List.mem_singleton] at hu
      rcases hu with hu | rfl
      · exact hseen u hu
      · rw [b.enabled_eq]
        exact hafter

theorem clock_of_sights (hrun : Run (World.step reg) w₀ ts w) :
    ∀ u ∈ sights w₀ ts, u.clock ≤ w.flags.clock := by
  induction hrun with
  | nil =>
      intro u hu
      have huw : u = _ := List.mem_singleton.mp hu
      exact Int.le_of_eq (by rw [huw])
  | snoc us a b e o hrun hstep ih =>
      intro u hu
      rw [sights_snoc, List.mem_append, List.mem_singleton] at hu
      rcases hu with hu | rfl
      · exact Int.le_trans (ih u hu) (clock_of_happened (happened_of_step hstep))
      · exact Int.le_refl _

/-- What an operator sets on a row that is there is what every query returns that
    starts more than a time-to-live later, whatever is synced meanwhile, as long
    as no operator says otherwise. -/
theorem switch_sticks (reg : Registry) (name : String) (value : Bool) (table : Dict String Row)
    (clock : Instant) (us vs : List (Taken World Event Output)) (t : Taken World Event Output)
    (w : World) (hrun : Run (World.step reg) (World.built table clock) (us ++ t :: vs) w)
    (updatedBy : String) (hset : t.event = .statement (.setEnabled name value updatedBy))
    (hrow : (t.before.table.get? name).isSome)
    (hspares : ∀ t' ∈ vs, ∀ s, t'.event = .statement s → s.Spares name value)
    (t' : Taken World Event Output) (ht' : t' ∈ vs) (i : Nat) (answer : Bool)
    (hout : .returned i answer ∈ t'.out) (q : Query)
    (hq : t'.after.flags.queries[i]? = some q) (hname : q.name = name)
    (hlate : t.after.flags.clock + cacheTtl < q.now) : answer = value := by
  obtain ⟨hbefore, hstep⟩ := hrun.split us t vs rfl
  have hrest := hrun.rest us t vs rfl
  have hset' := set_of_setEnabled (hset ▸ happened_of_step hstep) hrow
  obtain ⟨xs, ys, hvs⟩ := List.append_of_mem ht'
  obtain ⟨hxs, hstep'⟩ := hrest.split xs t' ys hvs
  have hwhole : us ++ t :: vs = (us ++ t :: xs) ++ t' :: ys := by
    rw [hvs, List.append_assoc, List.cons_append]
  have hprefix := (hrun.split _ t' ys hwhole).1
  rcases move_of_happened (happened_of_step hstep') with ⟨-, hnone⟩ | ⟨action, hmove⟩
  · rw [hnone] at hout
    exact absurd hout List.not_mem_nil
  · obtain ⟨q', hq', u, hu, hsince, hvalue⟩ :=
      sighted_of_returned (sourced_of_world hprefix) hmove hout
    obtain rfl := Option.some.inj (hq.symm.trans hq')
    have hsights : sights (World.built table clock) (us ++ t :: xs)
        = sights (World.built table clock) us ++ sights t.after xs := by
      rw [sights, sights, sights, List.map_append, List.map_cons, List.cons_append]
    rw [hsights, List.mem_append] at hu
    rcases hu with hu | hu
    · -- What was seen before the statement is too old by now.
      have hold : u.clock ≤ t.after.flags.clock := Int.le_trans (clock_of_sights hbefore u hu)
        (clock_of_happened (happened_of_step hstep))
      have hyoung : t.after.flags.clock < q.now - cacheTtl := Int.lt_sub_right_of_add_lt hlate
      exact absurd (Int.lt_of_lt_of_le hyoung hsince) (Int.not_lt.mpr hold)
    · have hseen := (set_of_sights hxs (fun t'' ht'' => hspares t'' (by
        rw [hvs]
        exact List.mem_append_left _ ht'')) hset').2 u hu
      rw [← hvalue, hname, effective, hseen]

end Switch

section WholeSync

/-- `_upsert_all`. -/
def upsertAll (entries : List SyncEntry) (table : Dict String Row) : Dict String Row :=
  entries.foldl (fun table entry =>
    put table entry.name (some (upserted entry (table.get? entry.name)))) table

/-- The rows that `_warn_on_orphans` warns about. -/
def orphans (entries : List SyncEntry) (table : Dict String Row) : List String :=
  (table.keys.filter (fun name => !(entries.map SyncEntry.name).contains name)).mergeSort

/-- `configs/feature-flags.yaml`, as far as its schema goes: no name is checked to
    stand once. -/
structure FlagsYaml where
  entries : List SyncEntry
  named : ∀ entry ∈ entries, isFlagName entry.name = true

/-- `_build_registry`: of two entries of one name the later is kept. -/
def FlagsYaml.flags (yaml : FlagsYaml) : Dict String FlagDecl :=
  Dict.ofList (yaml.entries.map (fun entry => (entry.name, ⟨entry.default⟩)))

theorem FlagsYaml.flags_named (yaml : FlagsYaml) (name : String) (decl : FlagDecl)
    (h : yaml.flags.get? name = some decl) : isFlagName name = true := by
  rw [Dict.get?_eq_some_iff] at h
  obtain ⟨entry, hentry, heq⟩ := List.mem_map.mp (Dict.mem_of_mem_ofList h)
  obtain ⟨rfl, -⟩ := Prod.mk.inj heq
  exact yaml.named entry hentry

def FlagsYaml.registry (yaml : FlagsYaml) : Registry := ⟨yaml.flags, yaml.flags_named⟩

/-- The value that a service with this configuration reads out of a table. -/
def FlagsYaml.reads (yaml : FlagsYaml) (table : Dict String Row) (name : String) : Bool :=
  effective yaml.registry (World.built table 0).flags name

theorem FlagsYaml.reads_eq (yaml : FlagsYaml) (table : Dict String Row) (name : String) :
    yaml.reads table name = ((table.get? name).map Row.enabled).getD
      (((yaml.flags.get? name).map FlagDecl.default).getD false) := by
  have hrow : (World.built table 0).flags.rows.get? name = (table.get? name).map Row.enabled :=
    World.enabled_eq _ name
  rw [reads, effective, hrow]
  cases table.get? name with
  | none => rfl
  | some row => rfl

/-- After a sync a row has the value it had, or the default of the first entry of
    its name. -/
theorem enabled_upsertAll (entries : List SyncEntry) (table : Dict String Row) (name : String) :
    ((upsertAll entries table).get? name).map Row.enabled
      = ((table.get? name).map Row.enabled).or
        ((entries.find? (fun entry => entry.name = name)).map SyncEntry.default) := by
  induction entries generalizing table with
  | nil =>
      rw [List.find?_nil, Option.map_none, Option.or_none]
      rfl
  | cons entry rest ih =>
      rw [upsertAll, List.foldl_cons, ← upsertAll, ih, get?_put]
      by_cases h : name = entry.name
      · subst h
        rw [if_pos rfl, List.find?_cons_of_pos (by simp)]
        cases table.get? entry.name with
        | none => rfl
        | some row => rfl
      · rw [if_neg h, List.find?_cons_of_neg (by simpa using fun hc => h hc.symm)]

theorem FlagsYaml.get?_flags (yaml : FlagsYaml) (name : String) :
    (yaml.flags.get? name).map FlagDecl.default
      = (yaml.entries.reverse.find? (fun entry => entry.name = name)).map SyncEntry.default := by
  have hfold := Dict.get?_foldl_set
    (yaml.entries.map (fun entry => (entry.name, FlagDecl.mk entry.default))) Dict.empty name
  rw [Dict.get?_empty, Option.or_none] at hfold
  rw [flags, Dict.ofList, hfold, ← List.map_reverse]
  induction yaml.entries.reverse with
  | nil => rfl
  | cons entry rest ih =>
      by_cases h : entry.name = name
      · rw [List.map_cons, List.lookup_cons, beq_iff_eq.mpr h.symm,
          List.find?_cons_of_pos (by simpa using h)]
        rfl
      · rw [List.map_cons, List.lookup_cons, beq_eq_false_iff_ne.mpr (Ne.symm h),
          List.find?_cons_of_neg (by simpa using h)]
        exact ih

/-- A service cannot see its own configuration being synced, whatever rows there
    are, exactly if of each name the first entry declares what the last one does. -/
theorem sync_unseen_iff (yaml : FlagsYaml) :
    (∀ table name, yaml.reads (upsertAll yaml.entries table) name = yaml.reads table name) ↔
      ∀ name, (yaml.entries.find? (fun entry => entry.name = name)).map SyncEntry.default
        = (yaml.entries.reverse.find? (fun entry => entry.name = name)).map SyncEntry.default := by
  simp only [FlagsYaml.reads_eq, enabled_upsertAll, FlagsYaml.get?_flags]
  constructor
  · intro h name
    have hempty := h Dict.empty name
    simp only [Dict.get?_empty, Option.map_none, Option.none_or, Option.getD_none] at hempty
    cases hfirst : yaml.entries.find? (fun entry => entry.name = name) with
    | none =>
        rw [List.find?_eq_none] at hfirst
        rw [List.find?_eq_none.mpr (fun entry he => hfirst entry (List.mem_reverse.mp he))]
    | some first =>
        rw [hfirst] at hempty
        cases hlast : yaml.entries.reverse.find? (fun entry => entry.name = name) with
        | none =>
            rw [List.find?_eq_none] at hlast
            exact absurd (List.find?_some hfirst)
              (hlast first (List.mem_reverse.mpr (List.mem_of_find?_eq_some hfirst)))
        | some last =>
            rw [hlast] at hempty
            exact congrArg some hempty
  · intro h table name
    rw [h name]
    cases table.get? name with
    | none =>
        rw [Option.map_none, Option.none_or, Option.getD_none]
        cases yaml.entries.reverse.find? (fun entry => entry.name = name) with
        | none => rfl
        | some last => rfl
    | some row => rfl

/-- A sync deletes nothing and leaves no row without an entry that was not there
    before it. -/
theorem mem_orphans_upsertAll (entries : List SyncEntry) (table : Dict String Row)
    (name : String) : name ∈ orphans entries (upsertAll entries table) ↔
      name ∈ table.keys ∧ ∀ entry ∈ entries, entry.name ≠ name := by
  have hkeys : ∀ d : Dict String Row, name ∈ d.keys ↔ ((d.get? name).map Row.enabled).isSome := by
    intro d
    rw [Option.isSome_map]
    refine ⟨Dict.isSome_get?_of_mem_keys, fun h => ?_⟩
    obtain ⟨row, hrow⟩ := Option.isSome_iff_exists.mp h
    exact Dict.mem_keys_of_get? hrow
  have hentry : (!(entries.map SyncEntry.name).contains name) = true ↔
      ∀ entry ∈ entries, entry.name ≠ name := by
    simp
  rw [orphans, List.mem_mergeSort, List.mem_filter, hentry]
  refine and_congr_left fun hnone => ?_
  have hfind : entries.find? (fun entry => entry.name = name) = none :=
    List.find?_eq_none.mpr (fun entry he => by simpa using hnone entry he)
  rw [hkeys, hkeys, enabled_upsertAll, hfind, Option.map_none, Option.or_none]

end WholeSync

section SmallWorld

/-- One row, switched on, though its flag is declared off. -/
def smallTable : Dict String Row := Dict.ofList [("beta", ⟨true, "@owner", none, none⟩)]

/-- A query of the flag, from its start to its end. -/
def query : List Event :=
  [.service (.isEnabled "beta"), .service (.read 0), .service (.acquire 0), .service (.store 0),
    .service (.finish 0)]

/-- The flag is synced as it is declared, and stays on. -/
theorem answers_kept_small : ∃ ts w t value, Run (World.step smallRegistry)
    (World.built smallTable 0) ts w ∧ t ∈ ts ∧ t.out = [.returned 0 value] ∧
    t.after.flags.queries[0]? = some ⟨"beta", 0, .done⟩ ∧
    value = effective smallRegistry (World.built smallTable 0).flags "beta" := by
  have hrec : (record (World.step smallRegistry) (World.built smallTable 0)
      (.statement (.upsert ⟨"beta", "@owner", false, none⟩) :: query)).map (fun r =>
        r.1.getLast?.map (fun t => (t.out, t.after.flags.queries)))
      = .ok (some ([.returned 0 true], [⟨"beta", 0, .done⟩])) := by decide +kernel
  obtain ⟨ts, w, hrun, hevents, hproj⟩ := exists_run_of_events _ _ _ _ _ hrec
  obtain ⟨t, hlast, ht⟩ := Option.map_eq_some_iff.mp hproj
  obtain ⟨hout, hqueries⟩ := Prod.mk.inj ht
  have hmem := List.mem_of_getLast? hlast
  have hq : t.after.flags.queries[0]? = some ⟨"beta", 0, .done⟩ := by rw [hqueries]; rfl
  refine ⟨ts, w, t, true, hrun, hmem, hout, hq, ?_⟩
  refine answers_kept smallRegistry "beta" ⟨false⟩ (by decide +kernel) smallTable 0 ts w hrun ?_ t
    hmem 0 true (by rw [hout]; exact List.mem_cons_self) _ hq rfl
  intro t' ht' s hs
  have hevent : t'.event ∈ ts.map Taken.event := List.mem_map_of_mem ht'
  rw [hevents, hs] at hevent
  simp only [query, List.mem_cons, Event.statement.injEq, reduceCtorEq, List.not_mem_nil, or_false]
    at hevent
  subst hevent
  intro _
  rfl

/-- The flag is switched off by hand. It is declared on by the configuration that
    is synced afterwards, and stays off. -/
theorem switch_sticks_small : ∃ vs t w t' answer, Run (World.step smallRegistry)
    (World.built smallTable 0) (t :: vs) w ∧
    t.event = .statement (.setEnabled "beta" false "@operator") ∧ t' ∈ vs ∧
    t'.out = [.returned 0 answer] ∧
    t'.after.flags.queries[0]? = some ⟨"beta", 60000001, .done⟩ ∧ answer = false := by
  have hrec : (record (World.step smallRegistry) (World.built smallTable 0)
      (.statement (.setEnabled "beta" false "@operator") ::
        .statement (.upsert ⟨"beta", "@owner", true, none⟩) ::
        .service (.tick 60000001) :: query)).map (fun r =>
        (r.1.head?.map (fun t => (t.after.flags.clock, (t.before.table.get? "beta").isSome)),
          r.1.tail.getLast?.map (fun t => (t.out, t.after.flags.queries))))
      = .ok (some (0, true), some ([.returned 0 false], [⟨"beta", 60000001, .done⟩])) := by
    decide +kernel
  obtain ⟨ts, w, hrun, hevents, hproj⟩ := exists_run_of_events _ _ _ _ _ hrec
  obtain ⟨hhead, hlast⟩ := Prod.mk.inj hproj
  cases ts with
  | nil => cases hhead
  | cons t vs =>
      obtain ⟨hclock, hrow⟩ := Prod.mk.inj (Option.some.inj hhead)
      obtain ⟨t', ht', hend⟩ := Option.map_eq_some_iff.mp hlast
      obtain ⟨hout, hqueries⟩ := Prod.mk.inj hend
      obtain ⟨hset, hrest⟩ := List.cons.inj hevents
      have hmem : t' ∈ vs := List.mem_of_getLast? ht'
      have hq : t'.after.flags.queries[0]? = some ⟨"beta", 60000001, .done⟩ := by
        rw [hqueries]
        rfl
      have hlate : t.after.flags.clock + cacheTtl < (60000001 : Int) := by
        rw [hclock]
        decide
      refine ⟨vs, t, w, t', false, hrun, hset, hmem, hout, hq, ?_⟩
      refine switch_sticks smallRegistry "beta" false smallTable 0 [] vs t w hrun _ hset hrow ?_
        t' hmem 0 false (by rw [hout]; exact List.mem_cons_self) _ hq rfl hlate
      intro t'' ht'' s hs
      have hevent : t''.event ∈ vs.map Taken.event := List.mem_map_of_mem ht''
      rw [hrest, hs] at hevent
      simp only [query, List.mem_cons, Event.statement.injEq, reduceCtorEq, List.not_mem_nil,
        or_false] at hevent
      subst hevent
      trivial

end SmallWorld

end TechScreen.FeatureFlags
