import Gleaner.Proofs.Run.Forward
import Gleaner.Proofs.Store.Theorems

namespace Gleaner

open Instruction

variable {σ : Type}

-- A run fails only if it does not come to an end: every other failure is recorded.
theorem run_ok_of_ends {env : Environment σ} {limit : Option Int} {fuel : Nat}
    {script : List Instruction} {entries : Array Entry} {s : σ}
    (h : (run env limit fuel script entries s).1 ≠ .error .unfinished) :
    ∃ after, (run env limit fuel script entries s).1 = .ok after := by
  rw [run_eq_wholeRun] at h ⊢
  rcases hloop : loop env limit (turnLimit limit fuel) (begun env script entries s) with
    ⟨outcome, t⟩
  rw [wholeRun_of_loop env limit hloop] at h ⊢
  dsimp only at h ⊢
  by_cases hends : outcome = .error .unfinished
  · subst hends
    exact absurd rfl h
  · rw [conclude_ok hends]
    exact ⟨_, rfl⟩

-- A run whose calls come back comes to an end if there is a limit, or if its jumps go forward.
theorem run_ends {env : Environment σ} {limit : Option Int} {fuel : Nat}
    {script : List Instruction} (hreturns : env.Returns script)
    (hlimit : limit = none → OnlyForward script ∧ 2 * (partsOfList script).length + 2 ≤ fuel)
    (entries : Array Entry) (s : σ) :
    (run env limit fuel script entries s).1 ≠ .error .unfinished := by
  have hloop : (loop env limit (turnLimit limit fuel) (begun env script entries s)).1 ≠
      .error .unfinished := by
    cases limit with
    | none =>
      obtain ⟨hforward, hfuel⟩ := hlimit rfl
      exact loop_ends_forward hforward hreturns hfuel entries s
    | some most =>
      rcases hloop : loop env (some most) (turnLimit (some most) fuel) (begun env script entries s)
        with ⟨outcome, t⟩
      rintro rfl
      obtain ⟨n, u, hturns, ht⟩ :=
        loop_failed_of_limit (turnsLeft_begun_lt env most fuel script entries s) hloop
      exact turn_returns hreturns (hturns.reachable (.start _ entries)) ht rfl
  rw [run_eq_wholeRun, wholeRun]
  dsimp only
  rw [conclude_ok hloop]
  intro h
  cases h

namespace Host

variable (host : Host σ)

-- What a run has around it that is bound to some context.
def bound (context : Option IterationContext) : Environment σ :=
  host.environment (host.warehouse.boundTo context)

-- What the runs of a scraper are bound to. Nothing has been run when this is known.
def plan : Option ExecutionIterator → Effect σ (List (Option IterationContext))
  | none => pure [none]
  | some it => (·.map some) <$> it.contexts host.warehouse

-- A plan as it follows from a state: one unbound run, one for each value of a range, or one for
-- each of the rows that are found in that state.
inductive Plans (s : σ) : Option ExecutionIterator → List (Option IterationContext) → Prop
  | once : Plans s none [none]
  | range (source identifier : String) (span : Span) :
      Plans s (some (.range source identifier span))
        (((span.resolve.values span.resolve.count).mapIdx fun i (n : Nat) =>
          ⟨i + 1, source, identifier, .int n, none⟩).map some)
  | rows {it : ExecutionIterator} {sql : Option String} {rows : List Row} {t : σ}
      (hsql : it.filterSql? = .ok sql)
      (hrows : host.warehouse.rows it.source sql s = (.ok rows, t)) :
      Plans s (some it) ((rows.mapIdx fun i row => ⟨i + 1, it.source,
        host.warehouse.identifierColumn,
        (Fields.get? row host.warehouse.identifierColumn).getD .null, some row⟩).map some)

variable {host}

theorem plans_of_plan {iterator : Option ExecutionIterator} {s t : σ}
    {contexts : List (Option IterationContext)} (h : host.plan iterator s = (.ok contexts, t)) :
    host.Plans s iterator contexts := by
  cases iterator with
  | none =>
    cases h
    exact .once
  | some it =>
    obtain ⟨found, hfound, rfl⟩ : ∃ found, it.contexts host.warehouse s = (.ok found, t) ∧
        contexts = found.map some := by
      rw [plan, map_eq_pure_bind] at h
      obtain ⟨found, u, hfound, h⟩ := Effect.bind_eq_ok h
      cases h
      exact ⟨found, hfound, rfl⟩
    have hset : it.setContexts host.warehouse s = (.ok found, t) →
        host.Plans s (some it) (found.map some) := by
      intro h
      obtain ⟨sql, u, hsql, h⟩ := Effect.bind_eq_ok h
      obtain ⟨rows, v, hrows, h⟩ := Effect.bind_eq_ok h
      cases h
      cases hfilter : it.filterSql? with
      | error e =>
        rw [hfilter] at hsql
        cases hsql
      | ok filter =>
        rw [hfilter] at hsql
        cases hsql
        exact .rows hfilter hrows
    cases it with
    | range source identifier span =>
      cases hfound
      exact .range source identifier span
    | entireSet source => exact hset hfound
    | filteredSet source filter => exact hset hfound

-- The record of a run that is bound to some context and starts in some state.
structure IsRecord (host : Host σ) (limit : Option Int) (script : List Instruction) (s : σ)
    (number : Nat) (context : Option IterationContext) (r : IterationRecord) : Prop where
  bound : (host.bound context).store = host.warehouse.boundTo context
  number : r.iteration = number
  entries : (run (host.bound context) limit (host.bound context).patience script #[] s).1 =
    .ok r.entries.toArray

-- What comes after a run: it gets a time, and one that has failed is warned of before.
def stamped (env : Environment σ) (number : Nat) (entries : Array Entry) :
    Effect σ IterationRecord := do
  match DateTime.ofEpochMillis? (← env.now) with
  | some finishedAt => return ⟨number, entries.toList, finishedAt⟩
  | none => throw .beyondCalendar

def reported (env : Environment σ) (number : Nat) (entries : Array Entry) :
    Effect σ IterationRecord := do
  if !TraceLog.succeeded entries then env.warn (failedMessage number entries)
  stamped env number entries

-- It fails only at a time that has no date.
theorem stamped_cases (env : Environment σ) (number : Nat) (entries : Array Entry) (s : σ) :
    ((stamped env number entries s).1 = .error .beyondCalendar ∧
      ∃ t, DateTime.ofEpochMillis? (env.now t).1 = none) ∨
    ∃ finishedAt, (stamped env number entries s).1 = .ok ⟨number, entries.toList, finishedAt⟩ := by
  rw [stamped, Effect.bind_ok (Effect.lift_apply _ _)]
  cases hdate : DateTime.ofEpochMillis? (env.now s).1 with
  | none => exact .inl ⟨rfl, s, hdate⟩
  | some finishedAt => exact .inr ⟨finishedAt, rfl⟩

theorem reported_cases (env : Environment σ) (number : Nat) (entries : Array Entry) (s : σ) :
    ((reported env number entries s).1 = .error .beyondCalendar ∧
      ∃ t, DateTime.ofEpochMillis? (env.now t).1 = none) ∨
    ∃ finishedAt, (reported env number entries s).1 = .ok ⟨number, entries.toList, finishedAt⟩ := by
  unfold reported
  split
  · rw [Effect.bind_ok (Effect.lift_apply _ _)]
    exact stamped_cases env number entries _
  · exact stamped_cases env number entries s

-- A run that comes to an end, at a time that has a date.
structure Ends (host : Host σ) (limit : Option Int) (script : List Instruction) (s : σ)
    (number : Nat) (context : Option IterationContext) : Prop where
  run : (Gleaner.run (host.bound context) limit (host.bound context).patience script #[] s).1 ≠
    .error .unfinished
  dated : (host.runOnce limit script number context s).1 ≠ .error .beyondCalendar

section

variable {limit : Option Int} {script : List Instruction}

theorem runOnce_eq (number : Nat) (context : Option IterationContext) :
    host.runOnce limit script number context = (do
      reported (host.bound context) number
        (← run (host.bound context) limit (host.bound context).patience script #[])) := rfl

theorem runAll_append (number : Nat) (front back : List (Option IterationContext)) :
    host.runAll limit script number (front ++ back) = (do
      let first ← host.runAll limit script number front
      return first ++ (← host.runAll limit script (number + front.length) back)) := by
  induction front generalizing number with
  | nil => simp [runAll]
  | cons context front ih =>
    have hnext : number + (context :: front).length = number + 1 + front.length := by
      rw [List.length_cons]
      omega
    rw [List.cons_append, runAll, runAll, ih, hnext]
    simp only [bind_assoc, pure_bind, List.cons_append]

theorem runOnce_cases {number : Nat} {context : Option IterationContext} {s : σ}
    (hends : (run (host.bound context) limit (host.bound context).patience script #[] s).1 ≠
      .error .unfinished) :
    ((host.runOnce limit script number context s).1 = .error .beyondCalendar ∧
      ∃ t, DateTime.ofEpochMillis? ((host.bound context).now t).1 = none) ∨
    ∃ entries finishedAt,
      (run (host.bound context) limit (host.bound context).patience script #[] s).1 =
        .ok entries ∧
      (host.runOnce limit script number context s).1 =
        .ok ⟨number, entries.toList, finishedAt⟩ := by
  obtain ⟨entries, hentries⟩ := run_ok_of_ends hends
  rcases hrun : run (host.bound context) limit (host.bound context).patience script #[] s with
    ⟨outcome, t⟩
  rw [hrun] at hentries
  cases hentries
  rw [runOnce_eq, Effect.bind_ok hrun]
  rcases reported_cases (host.bound context) number entries t with
    hlate | ⟨finishedAt, hreported⟩
  · exact .inl hlate
  · exact .inr ⟨entries, finishedAt, rfl, hreported⟩

-- A run that comes to an end is recorded, whatever has failed in it.
theorem runOnce_ok (hstore : ∀ store, (host.environment store).store = store) {number : Nat}
    {context : Option IterationContext} {s : σ} (h : host.Ends limit script s number context) :
    ∃ r, (host.runOnce limit script number context s).1 = .ok r ∧
      host.IsRecord limit script s number context r := by
  rcases runOnce_cases h.run with ⟨hlate, -⟩ | ⟨entries, finishedAt, hentries, hrecord⟩
  · exact absurd hlate h.dated
  · exact ⟨_, hrecord, hstore _, rfl, hentries⟩

-- With a clock that stays within the calendar it is enough that the run itself comes to an end.
theorem ends_of_dates {number : Nat} {context : Option IterationContext} {s : σ}
    (hclock : ∀ t, (DateTime.ofEpochMillis? ((host.bound context).now t).1).isSome = true)
    (hends : (run (host.bound context) limit (host.bound context).patience script #[] s).1 ≠
      .error .unfinished) :
    host.Ends limit script s number context := by
  refine ⟨hends, ?_⟩
  rcases runOnce_cases hends with ⟨-, t, hundated⟩ | ⟨entries, finishedAt, -, hrecord⟩
  · have hdated := hclock t
    rw [hundated] at hdated
    cases hdated
  · rw [hrecord]
    intro h
    cases h

theorem ends_of_runOnce {number : Nat} {context : Option IterationContext} {s : σ}
    {r : IterationRecord} (h : (host.runOnce limit script number context s).1 = .ok r) :
    host.Ends limit script s number context := by
  refine ⟨fun hendless => ?_, fun hlate => nomatch h.symm.trans hlate⟩
  rcases hrun : run (host.bound context) limit (host.bound context).patience script #[] s with
    ⟨outcome, t⟩
  rw [hrun] at hendless
  cases hendless
  rw [runOnce_eq, Effect.bind_error hrun] at h
  cases h

-- The state in which a run starts: what the runs before it leave.
def startOf (host : Host σ) (limit : Option Int) (script : List Instruction)
    (contexts : List (Option IterationContext)) (s : σ) (k : Nat) : σ :=
  (host.runAll limit script 1 (contexts.take k) s).2

-- Each run comes to an end if all before it have.
def AllEnd (host : Host σ) (limit : Option Int) (script : List Instruction)
    (contexts : List (Option IterationContext)) (s : σ) : Prop :=
  ∀ k context, contexts[k]? = some context →
    host.Ends limit script (host.startOf limit script contexts s k) (k + 1) context

variable {contexts : List (Option IterationContext)} {s : σ}

-- One run more: it starts where the ones before have left off.
theorem runAll_take_succ {k : Nat} {context : Option IterationContext}
    (hcontext : contexts[k]? = some context) :
    host.runAll limit script 1 (contexts.take (k + 1)) = (do
      let records ← host.runAll limit script 1 (contexts.take k)
      return records ++ [← host.runOnce limit script (k + 1) context]) := by
  have hk : k < contexts.length := (List.getElem?_eq_some_iff.mp hcontext).1
  have hnumber : 1 + (contexts.take k).length = k + 1 := by
    rw [List.length_take]
    omega
  rw [List.take_add_one, hcontext, Option.toList_some, runAll_append, hnumber]
  simp only [runAll, bind_assoc, pure_bind]

theorem runAll_take (hstore : ∀ store, (host.environment store).store = store)
    (hends : host.AllEnd limit script contexts s) (n : Nat)
    (hn : n ≤ contexts.length) :
    ∃ records, (host.runAll limit script 1 (contexts.take n) s).1 = .ok records ∧
      records.length = n ∧ ∀ k < n, ∃ context r, contexts[k]? = some context ∧
        records[k]? = some r ∧
        host.IsRecord limit script (host.startOf limit script contexts s k) (k + 1) context r := by
  induction n with
  | zero => exact ⟨[], rfl, rfl, fun k hk => absurd hk (Nat.not_lt_zero k)⟩
  | succ n ih =>
    obtain ⟨records, hrecords, hlength, hall⟩ := ih (by omega)
    have hcontext : contexts[n]? = some contexts[n] := List.getElem?_eq_getElem hn
    rcases hrun : host.runAll limit script 1 (contexts.take n) s with ⟨outcome, t⟩
    rw [hrun] at hrecords
    cases hrecords
    have hstart : host.startOf limit script contexts s n = t := by rw [startOf, hrun]
    obtain ⟨r, hr, hrecord⟩ := runOnce_ok hstore (hstart ▸ hends n _ hcontext)
    rcases hlast : host.runOnce limit script (n + 1) contexts[n] t with ⟨outcome, u⟩
    rw [hlast] at hr
    cases hr
    refine ⟨records ++ [r], ?_, by simp [hlength], fun k hk => ?_⟩
    · rw [runAll_take_succ hcontext, Effect.bind_ok hrun, Effect.bind_ok hlast]
      rfl
    · rcases Nat.lt_succ_iff_lt_or_eq.mp hk with hlt | rfl
      · obtain ⟨context, first, hfound, hfirst, hrecorded⟩ := hall k hlt
        refine ⟨context, first, hfound, ?_, hrecorded⟩
        rw [List.getElem?_append_left (by omega), hfirst]
      · refine ⟨contexts[k], r, hcontext, ?_, hstart.symm ▸ hrecord⟩
        rw [List.getElem?_append_right (by omega), hlength, Nat.sub_self]
        rfl

theorem allEnd_of_ok {records : List IterationRecord}
    (h : (host.runAll limit script 1 contexts s).1 = .ok records) :
    host.AllEnd limit script contexts s := by
  intro k context hcontext
  have hsplit : host.runAll limit script 1 contexts = (do
      let first ← host.runAll limit script 1 (contexts.take (k + 1))
      return first ++ (← host.runAll limit script (1 + (contexts.take (k + 1)).length)
        (contexts.drop (k + 1)))) := by
    rw [← runAll_append, List.take_append_drop]
  rcases hall : host.runAll limit script 1 contexts s with ⟨outcome, u⟩
  rw [hall] at h
  cases h
  rw [hsplit] at hall
  obtain ⟨first, v, hfirst, -⟩ := Effect.bind_eq_ok hall
  rw [runAll_take_succ hcontext] at hfirst
  obtain ⟨before, t, hbefore, hlast⟩ := Effect.bind_eq_ok hfirst
  obtain ⟨r, w, hr, -⟩ := Effect.bind_eq_ok hlast
  have hstart : host.startOf limit script contexts s k = t := by rw [startOf, hbefore]
  have hlast : (host.runOnce limit script (k + 1) context t).1 = .ok r := by rw [hr]
  exact hstart ▸ ends_of_runOnce hlast

theorem execute_eq (iterator : Option ExecutionIterator) :
    host.execute limit script iterator = (do
      host.runAll limit script 1 (← host.plan iterator)) := by
  cases iterator <;> rfl

-- A scraper is run once for each context of the plan, and once without one if there is no
-- iterator. The plan is made in the state before the first run; if it cannot be made, nothing is
-- run. There are as many records as contexts, in the order of the plan and numbered from one, and
-- each is that of a run bound to the context with its number, whatever has failed in a run before
-- and whatever that has made of the rows. There are no records only if some run does not come to
-- an end. With a limit, or with a script whose jumps go forward, each run does if its calls come
-- back.
theorem execute_perContext (hstore : ∀ store, (host.environment store).store = store)
    (limit : Option Int) (script : List Instruction)
    (iterator : Option ExecutionIterator) (s : σ) :
    (∀ e t, host.plan iterator s = (.error e, t) →
      host.execute limit script iterator s = (.error e, t)) ∧
    ∀ contexts t, host.plan iterator s = (.ok contexts, t) →
      host.Plans s iterator contexts ∧
      (∀ records, (host.execute limit script iterator s).1 = .ok records →
        records.length = contexts.length ∧
        ∀ k < contexts.length, ∃ context r, contexts[k]? = some context ∧ records[k]? = some r ∧
          host.IsRecord limit script (host.startOf limit script contexts t k) (k + 1) context r) ∧
      ((∃ records, (host.execute limit script iterator s).1 = .ok records) ↔
        host.AllEnd limit script contexts t) ∧
      ((∀ context ∈ contexts, (host.bound context).Returns script ∧
          ∀ u, (DateTime.ofEpochMillis? ((host.bound context).now u).1).isSome = true) →
        (limit = none → OnlyForward script ∧ ∀ context ∈ contexts,
          2 * (partsOfList script).length + 2 ≤ (host.bound context).patience) →
        host.AllEnd limit script contexts t) := by
  rw [execute_eq]
  constructor
  · intro e t hplan
    exact Effect.bind_error hplan _
  · intro contexts t hplan
    rw [Effect.bind_ok hplan]
    refine ⟨plans_of_plan hplan, fun records hrecords => ?_, ⟨?_, ?_⟩, ?_⟩
    · obtain ⟨others, hothers, hlength, hall⟩ :=
        runAll_take hstore (allEnd_of_ok hrecords) contexts.length (Nat.le_refl _)
      rw [List.take_length, hrecords] at hothers
      cases hothers
      exact ⟨hlength, hall⟩
    · rintro ⟨records, hrecords⟩
      exact allEnd_of_ok hrecords
    · intro hends
      obtain ⟨records, hrecords, -, -⟩ := runAll_take hstore hends contexts.length (Nat.le_refl _)
      rw [List.take_length] at hrecords
      exact ⟨records, hrecords⟩
    · intro hreturns hlimit k context hcontext
      have hmem := List.mem_of_getElem? hcontext
      obtain ⟨hcalls, hclock⟩ := hreturns context hmem
      have hpatient := fun hnone => (hlimit hnone).imp_right fun hall => hall context hmem
      exact ends_of_dates hclock (run_ends hcalls hpatient _ _)

end

-- Adds a row and removes all of them under another name of the source, then removes the one it is
-- bound to, and fails.
def emptyAndFail : List Instruction :=
  [.saveData "folk.name" (.literal "c"), .deleteData "folk", .deleteData "people", .jump "gone"]

def peopleInTurn : List (Option IterationContext) :=
  [some ⟨1, "people", "id", .int 1, some [("id", .int 1), ("name", .text "a")]⟩,
    some ⟨2, "people", "id", .int 2, some [("id", .int 2), ("name", .text "b")]⟩]

-- The first run leaves no row and fails; the second is bound to the second row all the same.
theorem execute_perContext_emptyAndFail :
    let host := Rehearsal.tableHost [("people", "people"), ("folk", "people")] "id"
    let it : ExecutionIterator := .entireSet "people"
    (∀ store, (host.environment store).store = store) ∧
    ∃ t records, host.plan (some it) twoPeople = (.ok peopleInTurn, t) ∧
      (host.execute (some 9) emptyAndFail (some it) twoPeople).1 = .ok records ∧
      records.map (fun r => (r.iteration, r.failed)) = [(1, true), (2, true)] ∧
      (host.startOf (some 9) emptyAndFail peopleInTurn t 1).database.tables.map (·.rows) = [[]] ∧
      ∃ context r, peopleInTurn[1]? = some context ∧ records[1]? = some r ∧
        host.IsRecord (some 9) emptyAndFail (host.startOf (some 9) emptyAndFail peopleInTurn t 1) 2
          context r := by
  intro host it
  have hstore : ∀ store, (host.environment store).store = store := fun _ => rfl
  have hplan : host.plan (some it) twoPeople =
      (.ok peopleInTurn, (host.plan (some it) twoPeople).2) := by rfl
  have hfacts : (host.execute (some 9) emptyAndFail (some it) twoPeople).1.toOption.map
        (·.map fun r => (r.iteration, r.failed)) = some [(1, true), (2, true)] ∧
      (host.startOf (some 9) emptyAndFail peopleInTurn
        (host.plan (some it) twoPeople).2 1).database.tables.map (·.rows) = [[]] := by
    decide +kernel
  obtain ⟨hrecords, hemptied⟩ := hfacts
  obtain ⟨-, hplanned⟩ := execute_perContext hstore (some 9) emptyAndFail (some it) twoPeople
  obtain ⟨-, hall, -⟩ := hplanned _ _ hplan
  cases hexecuted : (host.execute (some 9) emptyAndFail (some it) twoPeople).1 with
  | error e =>
    rw [hexecuted] at hrecords
    cases hrecords
  | ok records =>
    rw [hexecuted] at hrecords
    exact ⟨hstore, _, records, hplan, rfl, Option.some.inj hrecords, hemptied,
      (hall records hexecuted).2 1 (by decide)⟩

end Host

end Gleaner
