import Gleaner.Proofs.Catalog.Polling

namespace Gleaner

open Catalog

variable {σ τ α β : Type}

-- Work that changes what is seen only if it succeeds.
def Undone (view : σ → τ) (work : Effect σ α) : Prop :=
  ∀ s e t, work s = (.error e, t) → view t = view s

section

variable {view : σ → τ}

theorem undone_of_leaves {work : Effect σ α} (h : Leaves view work) : Undone view work :=
  fun _ _ _ hw => h.view_eq hw

theorem undone_bind {work : Effect σ α} {next : α → Effect σ β} (hw : Leaves view work)
    (hn : ∀ a, Undone view (next a)) : Undone view (work >>= next) := by
  intro s e t h
  rcases Effect.bind_eq_error h with hwork | ⟨a, u, hwork, hnext⟩
  · exact hw.view_eq hwork
  · exact (hn a u e t hnext).trans (hw.view_eq hwork)

end

theorem undone_change {view : σ → Catalog} {keeper : Keeper σ} (hk : keeper.Shows view)
    (f : Catalog → Except Failure (Catalog × α)) : Undone view (keeper.change f) := by
  refine undone_bind (leaves_lift hk.looking) fun c => ?_
  intro s e t h
  cases hf : f c with
  | error e =>
    rw [hf] at h
    cases h
    rfl
  | ok changed =>
    rw [hf] at h
    cases h

section

variable (host : Host σ) (keeper : Keeper σ) (limit : Option Int) (r : RoutineRecord)
  (now : Option Int)

-- What comes before a run: the routine counts as executing from then on.
def takeUp : Effect σ (ScraperRecord × Int) := do
  match (← keeper.catalog).scraper? r.scraperId with
  | none => throw (.noScraper r.id)
  | some scraper => do
    let startedAt := now.getD (← host.unbound.now)
    keeper.putRoutine (r.withStatus .executing)
    return (scraper, startedAt)

-- A run with what comes before it.
def runTakenUp : Effect σ (Int × List IterationRecord) := do
  let (scraper, startedAt) ← takeUp host keeper r now
  return (startedAt, ← runRoutine host limit scraper r)

end

section

variable {host : Host σ} {keeper : Keeper σ} {limit now : Option Int} {r : RoutineRecord}

theorem executeRoutine_eq_takeUp : executeRoutine host keeper limit r now = (do
    let (scraper, startedAt) ← takeUp host keeper r now
    match ← (runRoutine host limit scraper r).attempt with
    | .error e => do
      keeper.putRoutine r
      throw e
    | .ok iterations => finishRoutine host keeper r iterations startedAt now) := by
  unfold executeRoutine takeUp
  simp only [bind_assoc]
  congr 1
  funext c
  cases c.scraper? r.scraperId with
  | none => rfl
  | some scraper =>
    simp only [bind_assoc, pure_bind]
    rfl

variable {s u : σ} {scraper : ScraperRecord} {startedAt : Int}
  (h : takeUp host keeper r now s = (.ok (scraper, startedAt), u))
include h

theorem runTakenUp_of_takeUp : runTakenUp host keeper limit r now s =
    ((runRoutine host limit scraper r u).1.map (startedAt, ·),
      (runRoutine host limit scraper r u).2) := by
  have htaken : runTakenUp host keeper limit r now s =
      (runRoutine host limit scraper r >>= fun runs => pure (startedAt, runs)) u :=
    Effect.bind_ok h _
  rw [htaken, Effect.bind_apply]
  rcases runRoutine host limit scraper r u with ⟨e | runs, v⟩ <;> rfl

theorem executeRoutine_of_takeUp : executeRoutine host keeper limit r now s =
    match runRoutine host limit scraper r u with
    | (.error e, v) => (.error e, (keeper.putRoutine r v).2)
    | (.ok runs, v) => finishRoutine host keeper r runs startedAt now v := by
  rw [executeRoutine_eq_takeUp, Effect.bind_ok h]
  refine (Effect.bind_ok (Effect.attempt_apply _ u) _).trans ?_
  rcases runRoutine host limit scraper r u with ⟨e | runs, v⟩ <;> rfl

end

-- A routine that is stored is not changed by being stored again.
theorem Catalog.Distinct.putRoutine_self {c : Catalog} {r : RoutineRecord} (hc : c.Distinct)
    (hr : r ∈ c.routines) : c.putRoutine r = c := by
  have hsame : ∀ s ∈ c.routines, (if s.id = r.id then r else s) = s := by
    intro s hs
    by_cases hid : s.id = r.id
    · rw [if_pos hid, hc.eq hr hs hid.symm]
    · rw [if_neg hid]
  rw [Catalog.putRoutine, List.map_congr_left hsame, List.map_id']

section

variable {view : σ → Catalog} {host : Host σ} {keeper : Keeper σ} (hk : keeper.Shows view)
  (hh : host.Leaves view) {limit now : Option Int} {r : RoutineRecord} {s t : σ}
include hk hh

theorem takeUp_ok {scraper : ScraperRecord} {startedAt : Int}
    (h : takeUp host keeper r now s = (.ok (scraper, startedAt), t)) :
    view t = (view s).putRoutine (r.withStatus .executing) := by
  obtain ⟨c, s₁, hlook, h⟩ := Effect.bind_eq_ok h
  have hs₁ := (leaves_lift hk.looking).view_eq hlook
  cases hscraper : c.scraper? r.scraperId with
  | none =>
    rw [hscraper] at h
    cases h
  | some found =>
    rw [hscraper] at h
    obtain ⟨present, s₂, hclock, h⟩ := Effect.bind_eq_ok h
    obtain ⟨_, s₃, hput, h⟩ := Effect.bind_eq_ok h
    have hs₂ := (leaves_lift (hh.environment none).now).view_eq hclock
    cases h
    rw [putRoutine_ok hk hput, hs₂, hs₁]

omit hh in
theorem takeUp_error {e : Failure} (h : takeUp host keeper r now s = (.error e, t)) :
    view t = view s := by
  rcases Effect.bind_eq_error h with hlook | ⟨c, s₁, hlook, h⟩
  · exact (leaves_lift hk.looking).view_eq hlook
  have hs₁ := (leaves_lift hk.looking).view_eq hlook
  cases hscraper : c.scraper? r.scraperId with
  | none =>
    rw [hscraper] at h
    cases h
    exact hs₁
  | some found =>
    -- neither the clock nor the keeper fails
    rw [hscraper] at h
    cases h

theorem undone_finishRoutine (runs : List IterationRecord) (startedAt : Int) :
    Undone view (finishRoutine host keeper r runs startedAt now) := by
  have henv := hh.environment none
  unfold finishRoutine
  refine undone_bind (leaves_ofExcept _ _) fun stored => ?_
  cases r.pauseWarning? (runs.any (·.failed))
  case' some => refine undone_bind (leaves_lift (henv.warn _)) fun _ => ?_
  all_goals
    refine undone_bind (leaves_lift henv.now) fun present => ?_
    cases DateTime.ofEpochMillis? present with
    | none => exact undone_of_leaves (leaves_throw _)
    | some createdAt => exact undone_change hk _

-- An execution that fails leaves no execution behind. If it is the run that fails, or what comes
-- before it, then that failure is handed on and the catalog is what it was. Otherwise the run cannot
-- be kept: that is handed on, and the routine still counts as executing, while all else is as it was.
theorem executeRoutine_restores {e : Failure} (hs : (view s).Distinct) (hr : r ∈ (view s).routines)
    (h : executeRoutine host keeper limit r now s = (.error e, t)) :
    (view t).executions = (view s).executions ∧
    (∀ e', (runTakenUp host keeper limit r now s).1 = .error e' → e' = e ∧ view t = view s) ∧
    ∀ startedAt runs, (runTakenUp host keeper limit r now s).1 = .ok (startedAt, runs) →
      finishRoutine host keeper r runs startedAt now (runTakenUp host keeper limit r now s).2 =
        (.error e, t) ∧
      view t = (view s).putRoutine (r.withStatus .executing) := by
  rcases htake : takeUp host keeper r now s with ⟨e' | ⟨scraper, startedAt⟩, u⟩
  · have hview := takeUp_error hk htake
    rw [executeRoutine_eq_takeUp, Effect.bind_error htake] at h
    rw [runTakenUp, Effect.bind_error htake]
    cases h
    rw [hview]
    exact ⟨rfl, fun _ he => ⟨(Except.error.inj he).symm, rfl⟩, nofun⟩
  · have hu := takeUp_ok hk hh htake
    rw [executeRoutine_of_takeUp htake] at h
    rw [runTakenUp_of_takeUp htake]
    rcases hrun : runRoutine host limit scraper r u with ⟨e' | runs, v⟩
    · have hv := ((leaves_runRoutine hh limit scraper r).view_eq hrun).trans hu
      have htwice := putRoutine_putRoutine (c := view s)
        (show r.id = (r.withStatus .executing).id from rfl)
      have hput : view (keeper.putRoutine r v).2 = (view v).putRoutine r :=
        putRoutine_ok hk (a := ()) rfl
      have hview : view (keeper.putRoutine r v).2 = view s := by
        rw [hput, hv, htwice, hs.putRoutine_self hr]
      rw [hrun] at h
      cases h
      rw [hview]
      exact ⟨rfl, fun _ he => ⟨(Except.error.inj he).symm, rfl⟩, nofun⟩
    · have hv := ((leaves_runRoutine hh limit scraper r).view_eq hrun).trans hu
      rw [hrun] at h
      have hview := (undone_finishRoutine hk hh runs startedAt v e t h).trans hv
      rw [hview]
      refine ⟨rfl, nofun, fun _ _ hran => ?_⟩
      cases hran
      exact ⟨h, rfl⟩

end

open Rehearsal

-- The iterator of this routine cannot be read, so no run of it begins.
def brokenRecord : RoutineRecord :=
  { id := 1, scraperId := 1, iterator := .text "everything", createdAt := 500 }

theorem executeRoutine_restores_brokenRecord :
    let w : World := { catalog := (briefCatalog.addRoutine brokenRecord).1 }
    keeper.Shows World.catalog ∧ (briefHost brokenRecord).Leaves World.catalog ∧
    w.catalog.Distinct ∧ brokenRecord ∈ w.catalog.routines ∧
    ∃ e t, executeRoutine (briefHost brokenRecord) keeper none brokenRecord none w =
      (.error e, t) ∧ t.catalog.executions = [] ∧ t.catalog = w.catalog := by
  intro w
  have hlawful := resources_lawful {}
  have hhost : (briefHost brokenRecord).Leaves World.catalog := Service.hostOf_leaves hlawful [] 0
  have hdistinct : w.catalog.Distinct := List.nodup_singleton _
  have hstored : brokenRecord ∈ w.catalog.routines := List.mem_singleton.mpr rfl
  refine ⟨hlawful.keeper, hhost, hdistinct, hstored, ?_⟩
  have hfacts :
      (executeRoutine (briefHost brokenRecord) keeper none brokenRecord none w).1.toOption.isNone =
        true ∧
      (runTakenUp (briefHost brokenRecord) keeper none brokenRecord none w).1.toOption.isNone =
        true := by
    decide +kernel
  rcases hended : executeRoutine (briefHost brokenRecord) keeper none brokenRecord none w with
    ⟨e | kept, t⟩
  · have hrestored := executeRoutine_restores hlawful.keeper hhost hdistinct hstored hended
    refine ⟨e, t, rfl, hrestored.1, ?_⟩
    cases hrun : (runTakenUp (briefHost brokenRecord) keeper none brokenRecord none w).1 with
    | error e' => exact (hrestored.2.1 e' hrun).2
    | ok ran =>
      rw [hrun] at hfacts
      cases hfacts.2
  · rw [hended] at hfacts
    cases hfacts.1

-- The run of this routine ends well, but the time of the next one is more than can be stored.
def farRecord : RoutineRecord where
  id := 1
  scraperId := 1
  schedule := .object [("type", .text "interval"), ("interval", .int 9223372036854775807),
    ("startAt", .int 3000), ("endAt", .null)]
  nextRunAt := some 3000
  createdAt := 500
  updatedAt := 500

theorem not_restored_farRecord :
    let w : World := { catalog := (briefCatalog.addRoutine farRecord).1 }
    ¬(∀ e t, executeRoutine (briefHost farRecord) keeper none farRecord (some 3000) w =
      (.error e, t) → t.catalog.routines.map (·.status) = w.catalog.routines.map (·.status)) ∧
    (executeRoutine (briefHost farRecord) keeper none farRecord (some 3000)
      w).2.catalog.routines.map (·.status) = [Status.executing.name] := by
  intro w
  have hfacts :
      (executeRoutine (briefHost farRecord) keeper none farRecord (some 3000)
        w).1.toOption.isNone = true ∧
      (executeRoutine (briefHost farRecord) keeper none farRecord (some 3000)
        w).2.catalog.routines.map (·.status) = [Status.executing.name] ∧
      w.catalog.routines.map (·.status) = [Status.active.name] := by
    decide +kernel
  obtain ⟨hfails, hleft, hbefore⟩ := hfacts
  refine ⟨fun hall => ?_, hleft⟩
  rcases hended : executeRoutine (briefHost farRecord) keeper none farRecord (some 3000) w with
    ⟨e | kept, t⟩
  · have hsame := hall e t hended
    rw [hended] at hleft
    rw [hbefore, hleft] at hsame
    exact absurd hsame (by decide)
  · rw [hended] at hfails
    cases hfails

end Gleaner
