import Gleaner.Proofs.Catalog.Moves
import Gleaner.Proofs.Catalog.Records
import Gleaner.Proofs.Rehearsal.Tables
import Gleaner.Proofs.Service.Moves

namespace Gleaner

namespace Service

open Catalog

variable {σ : Type} (res : Resources σ) (view : σ → Catalog) (s : σ)

-- The state after some requests, one after the other. A request that fails leaves what it has done
-- until then.
def after (requests : List Request) : σ := requests.foldl (fun s q => (respond res q s).2) s

def history (requests : List Request) : History where
  executed k := requests[k]?.bind Request.executed?
  catalog k := view (after res s (requests.take k))

variable {res view s}

theorem after_take_succ {requests : List Request} {k : Nat} (hk : k < requests.length) :
    after res s (requests.take (k + 1)) =
      (respond res requests[k] (after res s (requests.take k))).2 := by
  unfold after
  rw [List.take_succ_eq_append_getElem hk, List.foldl_append]
  rfl

variable (h : res.Lawful view)
include h

-- Each request changes the catalog in the way of its route, or leaves it.
theorem history_changes (requests : List Request) (k : Nat) (hk : k < requests.length) :
    (history res view s requests).catalog (k + 1) = (history res view s requests).catalog k ∨
      ∃ route, Route.find requests[k].method requests[k].path = .ok route ∧
        Change requests[k] ((history res view s requests).catalog k) route
          ((history res view s requests).catalog (k + 1)) := by
  simp only [history, after_take_succ hk]
  exact respond_change h requests[k] _

theorem history_moves (requests : List Request) (k : Nat) (hk : k < requests.length) :
    ((history res view s requests).catalog k).Move ((history res view s requests).executed k)
      ((history res view s requests).catalog (k + 1)) := by
  have hexecuted : (history res view s requests).executed k = requests[k].executed? := by
    simp only [history, List.getElem?_eq_getElem hk]
    rfl
  rw [hexecuted]
  obtain hsame | ⟨route, hroute, hchange⟩ := history_changes h requests k hk
  · rw [hsame]
    exact .stay
  · exact hchange.move hroute

-- The executions of a scraper are answered from those that have its number. They come from its own
-- runs, and all executions name the routine that ran them, in all states of a history, exactly when
-- no request deletes a routine that has executions, with its scraper or alone, and none creates a
-- scraper under a number that executions have already.
theorem executions_attributed_iff (hs : (view s).executions = []) (requests : List Request) :
    (∀ n (q : Request) segment answer,
      Route.find q.method q.path = .ok (.executions segment) →
      (respond res q (after res s (requests.take n))).1 = .ok answer → ¬answer.IsRefusal →
      ∃ scraper skip limit shown, answer = .ok (.list shown) ∧
        ListsExecutions q segment ((history res view s requests).catalog n) scraper skip limit
          shown) ∧
    ((∀ n ≤ requests.length, (history res view s requests).Attributed n) ↔
      ∀ k < requests.length, ¬Severs ((history res view s requests).catalog k)
        ((history res view s requests).catalog (k + 1))) := by
  constructor
  · intro n q segment answer hroute hanswer hstatus
    exact respond_executions h hroute hanswer hstatus
  · exact History.attributed_iff (history_moves h requests) hs

omit h

def posted (path : String) (body : Value) : Request :=
  { method := "POST", path, body := Json.write none body }

def scraperNamed (name : String) : Value :=
  .object [("name", .text name),
    ("instructions", .list [.object [("type", .text "marker"), ("name", .text "start")]])]

def routineOf (scraper : Nat) : Value :=
  .object [("scraperId", .int scraper), ("scheduler", .object [("type", .text "interval"),
    ("interval", .int 60000), ("startAt", .int 0)])]

-- A scraper is deleted after a run of its routine, and the next one gets its number.
def reusedNumber : List Request :=
  [posted "/scrapers" (scraperNamed "old"), posted "/routines" (routineOf 1),
    { method := "POST", path := "/routines/1/execute" },
    { method := "DELETE", path := "/scrapers/1" }, posted "/scrapers" (scraperNamed "new")]

def rehearsed (requests : List Request) : History :=
  history (Rehearsal.resources {}) Rehearsal.World.catalog {} requests

theorem rehearsed_catalog {requests : List Request} {n : Nat} (hn : requests.length ≤ n) :
    (rehearsed requests).catalog n =
      Rehearsal.World.catalog (after (Rehearsal.resources {}) {} requests) := by
  simp only [rehearsed, history, List.take_of_length_le hn]

-- Up to the run there is nothing to sever.
theorem executions_attributed_iff_firstRun :
    (Rehearsal.resources {}).Lawful Rehearsal.World.catalog ∧
    (Rehearsal.World.catalog {}).executions = [] ∧
    ((rehearsed (reusedNumber.take 3)).catalog 3).executions.map (·.routineId) = [1] ∧
    ∀ n ≤ 3, (rehearsed (reusedNumber.take 3)).Attributed n := by
  have hfacts :
      (∀ k < 3, ((rehearsed (reusedNumber.take 3)).catalog k).executions.map (·.id) = []) ∧
      ((rehearsed (reusedNumber.take 3)).catalog 3).executions.map (·.routineId) = [1] := by
    decide +kernel
  obtain ⟨hnone, hrun⟩ := hfacts
  refine ⟨Rehearsal.resources_lawful {}, rfl, hrun, ?_⟩
  have hiff := (executions_attributed_iff (s := {}) (Rehearsal.resources_lawful {}) rfl
    (reusedNumber.take 3)).2
  refine hiff.mpr ?_
  rintro k hk ⟨e, he, -⟩
  have hk : k < 3 := hk
  have hempty := List.map_eq_nil_iff.mp (hnone k hk)
  change e ∈ ((rehearsed (reusedNumber.take 3)).catalog k).executions at he
  rw [hempty] at he
  cases he

theorem exists_answer {outcome : Except Failure Response} {status : Nat}
    (h : outcome.toOption.map (·.status) = some status) :
    ∃ answer, outcome = .ok answer ∧ answer.status = status := by
  cases outcome with
  | error e => cases h
  | ok answer => exact ⟨answer, rfl, Option.some.inj h⟩

def askExecutions : Request := { method := "GET", path := "/scrapers/1/executions" }

-- The next scraper is answered the execution that the one before has left.
theorem not_attributed_reusedNumber :
    ¬(rehearsed reusedNumber).Attributed 5 ∧
    ∃ e ∈ ((rehearsed reusedNumber).catalog 3).executions, ∃ shown, Shows e shown ∧
      (respond (Rehearsal.resources {}) askExecutions
        (after (Rehearsal.resources {}) {} reusedNumber)).1 = .ok (.ok (.list [shown])) := by
  have hfacts : ((rehearsed reusedNumber).catalog 5).scrapers.map (·.id) = [1] ∧
      (((rehearsed reusedNumber).catalog 5).executionsOf 1).map (·.id) = [1] ∧
      ((rehearsed reusedNumber).catalog 4).scrapers.map (·.id) = [] ∧
      ((rehearsed reusedNumber).catalog 3).executions.map (·.scraperId) = [1] ∧
      (respond (Rehearsal.resources {}) askExecutions
        (after (Rehearsal.resources {}) {} reusedNumber)).1.toOption.map (·.status) =
          some 200 := by
    decide +kernel
  obtain ⟨hscrapers, hlisted, hdeleted, hrun, hstatus⟩ := hfacts
  obtain ⟨listed, hlist, -⟩ := List.map_eq_singleton_iff.mp hlisted
  constructor
  · intro h
    obtain ⟨s, hs, hid⟩ := List.mem_map.mp (hscrapers ▸ List.mem_singleton.mpr rfl)
    have hmem : listed ∈ ((rehearsed reusedNumber).catalog 5).executionsOf s.id := by
      rw [hid, hlist]
      exact List.mem_singleton.mpr rfl
    obtain ⟨k, hk, r, -, -, hstored⟩ := h.scraper s hs listed hmem
    obtain ⟨old, hold, -⟩ := hstored 4 (by omega) (by omega)
    rw [List.map_eq_nil_iff.mp hdeleted] at hold
    cases hold
  · have hlawful := Rehearsal.resources_lawful {}
    obtain ⟨e, hkept, hscraper⟩ := List.map_eq_singleton_iff.mp hrun
    have he : e ∈ ((rehearsed reusedNumber).catalog 3).executions := by
      rw [hkept]
      exact List.mem_singleton.mpr rfl
    have hlater : e ∈ ((rehearsed reusedNumber).catalog 5).executions :=
      (History.executions_extended (n := 5) (history_moves hlawful reusedNumber) (by omega)).subset
        he
    have hsame : e = listed := by
      have hmem := mem_executionsOf.mpr ⟨hlater, hscraper⟩
      rw [hlist] at hmem
      exact List.mem_singleton.mp hmem
    have hroute : Route.find askExecutions.method askExecutions.path = .ok (.executions "1") := by
      rfl
    obtain ⟨answer, hanswer, hok⟩ := exists_answer hstatus
    have hgiven : ¬answer.IsRefusal := by
      rw [Response.IsRefusal, hok]
      omega
    obtain ⟨scraper, skip, limit, shown, rfl, hasked⟩ :=
      respond_executions hlawful hroute hanswer hgiven
    have hid : Request.checkNumber "scraper_id" "1" = .valid 1 := by rfl
    have hone : (scraper.id : Int) = 1 :=
      (Validation.Checked.valid.inj (hid.symm.trans hasked.askedId)).symm
    have hpage := hasked.page_default rfl
    rw [rehearsed_catalog (Nat.le_refl 5)] at hlist
    rw [Int.ofNat.inj hone, hlist] at hpage
    cases hpage with
    | cons hshown hrest =>
      cases hrest
      exact ⟨e, he, _, hsame ▸ hshown, hanswer⟩

end Service

namespace Catalog

-- A routine that was idle is left to count as executing.
def Strands (c c' : Catalog) : Prop :=
  ∃ r, c.routine? r.id = some r ∧ r.isExecuting = false ∧
    c' = c.putRoutine (r.withStatus .executing)

-- Every routine that is idle has the next run that follows from what is stored of it.
def Scheduled (c : Catalog) : Prop :=
  ∀ r ∈ c.routines, r.isExecuting = false → r.Scheduled

def Idle (c : Catalog) : Prop := ∀ r ∈ c.routines, r.isExecuting = false

theorem Scheduled.put {c : Catalog} {r : RoutineRecord} (hc : c.Scheduled)
    (hr : r.isExecuting = false → r.Scheduled) : (c.putRoutine r).Scheduled := by
  intro r' hmem hidle
  rcases mem_putRoutine hmem with rfl | ⟨hold, -⟩
  · exact hr hidle
  · exact hc r' hold hidle

theorem Idle.put {c : Catalog} {r : RoutineRecord} (hc : c.Idle) (hr : r.isExecuting = false) :
    (c.putRoutine r).Idle := by
  intro r' hmem
  rcases mem_putRoutine hmem with rfl | ⟨hold, -⟩
  · exact hr
  · exact hc r' hold

theorem Strands.not_idle {c c' : Catalog} (h : Strands c c') : ¬c'.Idle := by
  obtain ⟨r, hr, -, rfl⟩ := h
  intro hidle
  have hmem := mem_putRoutine_self (r := r.withStatus .executing) (hasRoutine_of_routine? hr)
  exact nomatch r.isExecuting_executing.symm.trans (hidle _ hmem)

end Catalog

namespace Service

open Catalog

variable {q : Request} {c c' : Catalog} {route : Route}

-- Whatever a request does, the routines that are idle after it are scheduled.
theorem Change.scheduled (h : Change q c route c') (hc : c.Scheduled) : c'.Scheduled := by
  cases h with
  | stay => exact hc
  | createScraper hs h =>
    rw [(addScraper_eq_ok h).2]
    exact hc
  | updateScraper => exact hc
  | deleteScraper => exact fun r hr => hc r (List.mem_of_mem_filter hr)
  | createRoutine hs h =>
    intro r hr hidle
    rcases List.mem_append.mp hr with hold | hnew
    · exact hc r hold hidle
    · have hscheduled := RoutineRecord.scheduled_of_assign h
      cases List.mem_singleton.mp hnew
      exact hscheduled
  | updateRoutine hold hs h => exact hc.put fun _ => RoutineRecord.scheduled_of_assign h
  | deleteRoutine => exact fun r hr => hc r (List.mem_of_mem_filter hr)
  | pause hold h => exact hc.put fun _ => RoutineRecord.scheduled_of_reschedule rfl h
  | resume hold h => exact hc.put fun _ => RoutineRecord.scheduled_of_reschedule rfl h
  | @execute _ r _ hr h =>
    cases h with
    | missed => exact hc
    | failed => exact hc.put fun _ => hc _ (routine?_eq_some hr.stored).1 hr.idle
    | stranded => exact hc.put fun hidle => nomatch r.isExecuting_executing.symm.trans hidle
    | kept hs h => exact hc.put fun _ => RoutineRecord.scheduled_of_finish h

-- A request leaves all routines idle unless it strands one.
theorem Change.idle (h : Change q c route c') (hc : c.Idle) (hkept : ¬Strands c c') : c'.Idle := by
  cases h with
  | stay => exact hc
  | createScraper hs h =>
    rw [(addScraper_eq_ok h).2]
    exact hc
  | updateScraper => exact hc
  | deleteScraper => exact fun r hr => hc r (List.mem_of_mem_filter hr)
  | createRoutine hs h =>
    intro r hr
    rcases List.mem_append.mp hr with hold | hnew
    · exact hc r hold
    · obtain ⟨iterator, next, -, rfl⟩ := RoutineRecord.assign_eq_ok h
      cases List.mem_singleton.mp hnew
      rfl
  | updateRoutine hold hs h =>
    obtain ⟨iterator, next, -, rfl⟩ := RoutineRecord.assign_eq_ok h
    have hidle := hc _ (routine?_eq_some hold).1
    exact hc.put hidle
  | deleteRoutine => exact fun r hr => hc r (List.mem_of_mem_filter hr)
  | pause hold h =>
    obtain ⟨next, -, rfl⟩ := RoutineRecord.reschedule_eq_ok h
    exact hc.put rfl
  | resume hold h =>
    obtain ⟨next, -, rfl⟩ := RoutineRecord.reschedule_eq_ok h
    exact hc.put rfl
  | execute hr h =>
    cases h with
    | missed => exact hc
    | failed => exact hc.put hr.idle
    | stranded => exact absurd ⟨_, hr.stored, hr.idle, rfl⟩ hkept
    | kept hs h => exact hc.put (RoutineRecord.isExecuting_finish hr.idle h)

variable {σ : Type} {res : Resources σ} {view : σ → Catalog} {s : σ} (h : res.Lawful view)
include h

theorem history_scheduled (hs : (view s).Scheduled) (requests : List Request) (n : Nat)
    (hn : n ≤ requests.length) : ((history res view s requests).catalog n).Scheduled := by
  induction n with
  | zero => exact hs
  | succ n ih =>
    obtain hsame | ⟨route, -, hchange⟩ := history_changes h requests n hn
    · rw [hsame]
      exact ih (by omega)
    · exact hchange.scheduled (ih (by omega))

theorem history_idle (hs : (view s).Idle) (requests : List Request)
    (hkept : ∀ k < requests.length, ¬Strands ((history res view s requests).catalog k)
      ((history res view s requests).catalog (k + 1))) (n : Nat)
    (hn : n ≤ requests.length) : ((history res view s requests).catalog n).Idle := by
  induction n with
  | zero => exact hs
  | succ n ih =>
    obtain hsame | ⟨route, -, hchange⟩ := history_changes h requests n hn
    · rw [hsame]
      exact ih (by omega)
    · exact hchange.idle (ih (by omega)) (hkept n hn)

-- Whatever is asked of a service that starts without routines, each routine that is idle has the
-- next run that follows from its own status, schedule and last update; if there is one, the routine
-- is active and the run comes after the update. All routines are idle between requests exactly as
-- long as no request strands one.
theorem routines_scheduled (hs : (view s).routines = []) (requests : List Request) :
    let past := history res view s requests
    (∀ n ≤ requests.length, ∀ r ∈ (past.catalog n).routines, r.isExecuting = false →
      nextRunOf (.text r.status) r.schedule r.updatedAt = .ok r.nextRunAt ∧
      ∀ next, r.nextRunAt = some next → r.status = Status.active.name ∧ r.updatedAt < next) ∧
    ((∀ n ≤ requests.length, ∀ r ∈ (past.catalog n).routines, r.isExecuting = false) ↔
      ∀ k < requests.length, ¬Strands (past.catalog k) (past.catalog (k + 1))) := by
  have hscheduled : (view s).Scheduled := by simp [Catalog.Scheduled, hs]
  have hidle : (view s).Idle := by simp [Catalog.Idle, hs]
  refine ⟨fun n hn r hr hrest => ?_, fun hall k hk hstrands => ?_, ?_⟩
  · have hr := history_scheduled h hscheduled requests n hn r hr hrest
    refine ⟨hr, fun next hnext => ?_⟩
    obtain ⟨hstatus, hlater⟩ := nextRunOf_eq_some (hr.trans (congrArg _ hnext))
    exact ⟨by simpa using hstatus, hlater⟩
  · exact hstrands.not_idle (hall (k + 1) hk)
  · exact fun hkept => history_idle h hidle requests hkept

omit h

-- A routine that has been run has its next run after the time of that.
theorem routines_scheduled_firstRun :
    (Rehearsal.resources {}).Lawful Rehearsal.World.catalog ∧
    (Rehearsal.World.catalog {}).routines = [] ∧
    ((rehearsed (reusedNumber.take 3)).catalog 3).routines.map (·.nextRunAt) = [some 60000] ∧
    ∀ r ∈ ((rehearsed (reusedNumber.take 3)).catalog 3).routines,
      nextRunOf (.text r.status) r.schedule r.updatedAt = .ok r.nextRunAt := by
  have hfacts :
      ((rehearsed (reusedNumber.take 3)).catalog 3).routines.map (·.nextRunAt) = [some 60000] ∧
      ∀ r ∈ ((rehearsed (reusedNumber.take 3)).catalog 3).routines, r.isExecuting = false := by
    decide +kernel
  obtain ⟨hnext, hidle⟩ := hfacts
  refine ⟨Rehearsal.resources_lawful {}, rfl, hnext, fun r hr => ?_⟩
  have hpast := (routines_scheduled (s := {}) (Rehearsal.resources_lawful {}) rfl
    (reusedNumber.take 3)).1
  exact (hpast 3 (Nat.le_refl 3) r hr (hidle r hr)).1

-- A routine that runs once only: the next time is more than can be stored.
def rareRoutine : Value :=
  .object [("scraperId", .int 1), ("scheduler", .object [("type", .text "interval"),
    ("interval", .int 9223372036854775807), ("startAt", .int 3000)])]

def rareRun : List Request :=
  [posted "/scrapers" (scraperNamed "new"), posted "/routines" rareRoutine,
    { method := "POST", path := "/routines/1/execute" }]

-- It was to run at some time, and having run it is taken for executing.
theorem not_scheduled_rareRun :
    ¬(∀ n ≤ 3, ∀ r ∈ ((rehearsed rareRun).catalog n).routines, r.isExecuting = false ∧
      nextRunOf (.text r.status) r.schedule r.updatedAt = .ok r.nextRunAt) ∧
    ((rehearsed rareRun).catalog 2).routines.map (fun r => (r.status, r.nextRunAt)) =
      [(Status.active.name, some 3000)] ∧
    ((rehearsed rareRun).catalog 3).routines.map (fun r => (r.status, r.nextRunAt)) =
      [(Status.executing.name, some 3000)] := by
  have hfacts :
      ((rehearsed rareRun).catalog 2).routines.map (fun r => (r.status, r.nextRunAt)) =
        [(Status.active.name, some 3000)] ∧
      ((rehearsed rareRun).catalog 3).routines.map (fun r => (r.status, r.nextRunAt)) =
        [(Status.executing.name, some 3000)] := by
    decide +kernel
  refine ⟨fun hall => ?_, hfacts⟩
  obtain ⟨r, hr, hlast⟩ := List.map_eq_singleton_iff.mp hfacts.2
  have hidle := (hall 3 (Nat.le_refl 3) r (by rw [hr]; exact List.mem_singleton.mpr rfl)).1
  rw [RoutineRecord.isExecuting, (Prod.mk.inj hlast).1] at hidle
  exact absurd hidle (by decide)

end Service

end Gleaner
