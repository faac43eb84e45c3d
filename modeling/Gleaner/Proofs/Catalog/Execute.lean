import Gleaner.Proofs.Browser.Leaves
import Gleaner.Proofs.Catalog.Moves

namespace Gleaner

variable {σ τ α β : Type}

-- Where some work that starts with `c` in sight leads, however it ends.
def Yields (view : σ → τ) (c : τ) (work : Effect σ α) (P : τ → Prop) : Prop :=
  ∀ s, view s = c → P (view (work s).2)

section

variable {view : σ → τ} {c : τ} {P : τ → Prop}

theorem yields_of_leaves {work : Effect σ α} (hw : Leaves view work) (hP : P c) :
    Yields view c work P := by
  intro s hs
  rw [hw s, hs]
  exact hP

theorem yields_bind {work : Effect σ α} {next : α → Effect σ β} (hw : Leaves view work) (hP : P c)
    (hn : ∀ a, Yields view c (next a) P) : Yields view c (work >>= next) P := by
  intro s hs
  have hview := (hw s).trans hs
  rw [Effect.bind_apply]
  rcases hr : work s with ⟨e | a, t⟩
  · rw [hr] at hview
    rw [show view t = c from hview]
    exact hP
  · rw [hr] at hview
    exact hn a t hview

theorem yields_pure_bind {a : α} {next : α → Effect σ β} (hn : Yields view c (next a) P) :
    Yields view c (pure a >>= next) P := hn

theorem yields_bind_last {work : Effect σ α} {next : α → Effect σ β} (hw : Yields view c work P)
    (hn : ∀ a, Leaves view (next a)) : Yields view c (work >>= next) P := by
  intro s hs
  have hview := hw s hs
  rw [Effect.bind_apply]
  rcases hr : work s with ⟨e | a, t⟩
  · rwa [hr] at hview
  · rw [hr] at hview
    rw [hn a t]
    exact hview

-- Work in a browser of its own does to what is seen what it does without one.
theorem Browser.yields_within {launcher : Launcher σ} (h : launcher.Leaves view) {key : String}
    {headless : Bool} {work : Nat → Effect σ α} (hP : P c)
    (hwork : ∀ browser, Yields view c (work browser) P) :
    Yields view c (within launcher key headless work) P := by
  refine yields_bind (leaves_enter h key headless) hP fun browser => ?_
  refine yields_bind_last (hwork browser) fun outcome => ?_
  refine leaves_bind (leaves_leave h key) fun _ => ?_
  cases outcome with
  | ok a => exact leaves_pure a
  | error e => exact leaves_throw e

end

-- A keeper shows what is kept, and looking at it changes nothing.
structure Keeper.Shows (keeper : Keeper σ) (view : σ → Catalog) : Prop where
  catalog : ∀ s, (keeper.catalog s).1 = view s
  looking : Passes view keeper.catalog
  keep : ∀ c s, view (keeper.keep c s).2 = c

section

variable {view : σ → Catalog} {keeper : Keeper σ} (hk : keeper.Shows view) {c : Catalog}
  {P : Catalog → Prop}
include hk

theorem yields_catalog {next : Catalog → Effect σ α} (hn : Yields view c (next c) P) :
    Yields view c ((monadLift keeper.catalog : Effect σ Catalog) >>= next) P := by
  intro s hs
  have hnext := hn (keeper.catalog s).2 ((hk.looking s).trans hs)
  change P (view (next (keeper.catalog s).1 (keeper.catalog s).2).2)
  rwa [hk.catalog s, hs]

theorem yields_putRoutine {r : RoutineRecord} {next : Unit → Effect σ α}
    (hn : Yields view (c.putRoutine r) (next ()) P) :
    Yields view c (keeper.putRoutine r >>= next) P := by
  intro s hs
  refine hn (keeper.keep ((keeper.catalog s).1.putRoutine r) (keeper.catalog s).2).2 ?_
  rw [hk.keep, hk.catalog s, hs]

theorem yields_change_of_ok {f : Catalog → Except Failure (Catalog × α)} {c' : Catalog} {a : α}
    (hf : f c = .ok (c', a)) (hP : P c') : Yields view c (keeper.change f) P := by
  refine yields_catalog hk ?_
  rw [hf]
  intro s _
  change P (view (keeper.keep c' s).2)
  rwa [hk.keep]

theorem yields_change {f : Catalog → Except Failure (Catalog × α)} (hP : P c)
    (hf : ∀ c' a, f c = .ok (c', a) → P c') : Yields view c (keeper.change f) P := by
  cases hc : f c with
  | error e =>
    refine yields_catalog hk ?_
    rw [hc]
    exact yields_of_leaves (leaves_throw e) hP
  | ok changed => exact yields_change_of_ok hk hc (hf changed.1 changed.2 hc)

end

theorem RoutineRecord.storable_eq_ok {r r' : RoutineRecord} (h : r.storable = .ok r') :
    r' = r := by
  unfold RoutineRecord.storable at h
  split at h
  · cases h
    rfl
  · cases h

-- Only the next run is new, and it is the one that comes after the time that is given.
theorem RoutineRecord.reschedule_eq_ok {r r' : RoutineRecord} {now : Int}
    (h : r.reschedule now = .ok r') :
    ∃ next, nextRunOf (.text r.status) r.schedule now = .ok next ∧
      r' = { r with nextRunAt := next } := by
  unfold RoutineRecord.reschedule at h
  cases hn : nextRunOf (.text r.status) r.schedule now with
  | error e =>
    rw [hn] at h
    cases h
  | ok next =>
    rw [hn] at h
    exact ⟨next, rfl, RoutineRecord.storable_eq_ok h⟩

theorem RoutineRecord.assign_eq_ok {r r' : RoutineRecord} {draft : RoutineDraft} {now : Int}
    (h : r.assign draft now = .ok r') :
    ∃ iterator next,
      nextRunOf (.text r.status) (draft.schedule.document.toValue .full) now = .ok next ∧
      r' = { r with
        scraperId := draft.scraperId
        description := draft.description
        iterator
        schedule := draft.schedule.document.toValue .full
        failureLimit := draft.failureLimit.map fun (n : Nat) => n
        updatedAt := now
        nextRunAt := next } := by
  unfold RoutineRecord.assign at h
  cases hit : draft.iterator.elim (.ok .null) fun it => it.document.json with
  | error e =>
    rw [hit] at h
    cases h
  | ok iterator =>
    rw [hit] at h
    obtain ⟨next, hnext, rfl⟩ := RoutineRecord.reschedule_eq_ok h
    exact ⟨iterator, next, hnext, rfl⟩

theorem RoutineRecord.countRun_id (r : RoutineRecord) (failed : Bool) :
    (r.countRun failed).id = r.id ∧ (r.countRun failed).scraperId = r.scraperId := by
  unfold RoutineRecord.countRun
  cases failed with
  | false => exact ⟨rfl, rfl⟩
  | true =>
    dsimp only
    split
    · split <;> exact ⟨rfl, rfl⟩
    · exact ⟨rfl, rfl⟩

theorem RoutineRecord.finish_eq_ok {r r' : RoutineRecord} {failed : Bool}
    {startedAt finishedAt : Int} (h : r.finish failed startedAt finishedAt = .ok r') :
    ∃ next,
      nextRunOf (.text (r.countRun failed).status) (r.countRun failed).schedule finishedAt =
        .ok next ∧
      r' = { r.countRun failed with
        lastRunAt := some startedAt
        updatedAt := finishedAt
        nextRunAt := next } :=
  RoutineRecord.reschedule_eq_ok h

theorem RoutineRecord.finish_id {r r' : RoutineRecord} {failed : Bool}
    {startedAt finishedAt : Int} (h : r.finish failed startedAt finishedAt = .ok r') :
    r'.id = r.id ∧ r'.scraperId = r.scraperId := by
  obtain ⟨next, -, rfl⟩ := RoutineRecord.finish_eq_ok h
  exact r.countRun_id failed

-- To execute a routine is one move, with an execution at most.
theorem Catalog.Ran.move {c c' : Catalog} {r : RoutineRecord} (h : c.Ran r c')
    (hr : c.routine? r.id = some r) : c.Move (some r.id) c' := by
  cases h with
  | missed => exact .stay
  | failed => exact .putRoutine hr (.inl rfl)
  | stranded => exact .putRoutine hr (.inl rfl)
  | kept hs h hruns he her =>
    obtain ⟨hid, hscraper⟩ := RoutineRecord.finish_id h
    exact .keepRun rfl hr hs hid hscraper he her

theorem leaves_runRoutine {view : σ → τ} {host : Host σ} (hh : host.Leaves view)
    (limit : Option Int) (scraper : ScraperRecord) (r : RoutineRecord) :
    Leaves view (runRoutine host limit scraper r) :=
  leaves_bind (leaves_ofExcept _ _) fun _ =>
    leaves_bind (leaves_ofExcept _ _) fun _ => leaves_hostExecute hh _ _ _

section

variable {view : σ → Catalog} {host : Host σ} {keeper : Keeper σ} (hk : keeper.Shows view)
  {c : Catalog} {r : RoutineRecord} (hs : c.HasScraper r.scraperId)
include hk hs

-- A run is kept in one change, together with the routine as it is after it.
theorem yields_keepRun {runs : List IterationRecord} {stored : List Value}
    (hruns : runsJson runs = .ok stored) (startedAt finishedAt : Int) (createdAt : DateTime) :
    Yields view (c.putRoutine (r.withStatus .executing))
      (keeper.change fun c => do
        let finished ← r.finish (runs.any (·.failed)) startedAt finishedAt
        .ok ((c.putRoutine finished).addExecution
          ⟨0, r.scraperId, r.id, r.iterator, stored, createdAt⟩)) (c.Ran r) := by
  refine yields_change hk .stranded fun c' kept hf => ?_
  cases hfinish : r.finish (runs.any (·.failed)) startedAt finishedAt with
  | error e =>
    rw [hfinish] at hf
    cases hf
  | ok finished =>
    have hid := (RoutineRecord.finish_id hfinish).1
    have hput := Catalog.putRoutine_putRoutine (c := c) (r := r.withStatus .executing) hid
    rw [hfinish] at hf
    obtain rfl : _ = c' := congrArg Prod.fst (Except.ok.inj hf)
    rw [hput]
    exact .kept hs hfinish hruns rfl rfl

variable (hh : host.Leaves view)
include hh

theorem yields_finishRoutine (runs : List IterationRecord) (startedAt : Int)
    (now : Option Int) :
    Yields view (c.putRoutine (r.withStatus .executing))
      (finishRoutine host keeper r runs startedAt now) (c.Ran r) := by
  have henv := hh.environment none
  unfold finishRoutine
  cases hruns : runsJson runs with
  | error e => exact yields_of_leaves (leaves_throw e) .stranded
  | ok stored =>
    refine yields_pure_bind ?_
    cases r.pauseWarning? (runs.any (·.failed))
    case' some => refine yields_bind (leaves_lift (henv.warn _)) .stranded fun _ => ?_
    all_goals
      refine yields_bind (leaves_lift henv.now) .stranded fun present => ?_
      cases DateTime.ofEpochMillis? present with
      | none => exact yields_of_leaves (leaves_throw _) .stranded
      | some createdAt => exact yields_keepRun hk hs hruns _ _ _

omit hs in
theorem yields_executeRoutine (limit now : Option Int) :
    Yields view c (executeRoutine host keeper limit r now) (c.Ran r) := by
  refine yields_catalog hk ?_
  cases hscraper : c.scraper? r.scraperId with
  | none => exact yields_of_leaves (leaves_throw _) .missed
  | some scraper =>
    have hs := Catalog.hasScraper_of_scraper? hscraper
    refine yields_bind (leaves_lift (hh.environment none).now) .missed fun present => ?_
    refine yields_putRoutine hk ?_
    refine yields_bind (leaves_attempt (leaves_runRoutine hh limit scraper r)) .stranded
      fun outcome => ?_
    cases outcome with
    | ok iterations => exact yields_finishRoutine hk hs hh _ _ _
    | error e =>
      refine yields_putRoutine hk (yields_of_leaves (leaves_throw e) ?_)
      rw [Catalog.putRoutine_putRoutine (show r.id = (r.withStatus .executing).id from rfl)]
      exact .failed

end

end Gleaner
