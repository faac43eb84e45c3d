import Gleaner.Proofs.Routine.Stored

namespace Gleaner

open Validation

namespace RoutineRecord

-- What a request has handed in, as it is kept: it passes its checks when it is read again.
structure IsLegible (r : RoutineRecord) : Prop where
  scraperId : 1 ≤ r.scraperId
  iterator : ∃ iterator, restoreIterator r.iterator = .ok iterator ∧
    ∀ it ∈ iterator, ExecutionIterator.check (it.document.toValue .stored) = .valid it
  schedule : ∃ schedule, Schedule.check r.schedule = .valid schedule
  failureLimit : ∃ limit : Option Nat,
    r.failureLimit = limit.map (fun n : Nat => (n : Int)) ∧ ∀ n ∈ limit, 1 ≤ n

-- What is reckoned for a routine.
structure IsReckoned (r : RoutineRecord) : Prop where
  status : ∃ status, Status.check (.text r.status) = .valid status
  nextRunAt : ∀ next ∈ r.nextRunAt, r.updatedAt < next
  runs : 0 ≤ r.runs
  failures : 0 ≤ r.failures

-- No time of the routine comes before 1970.
structure IsTimed (r : RoutineRecord) : Prop where
  createdAt : 0 ≤ r.createdAt
  updatedAt : 0 ≤ r.updatedAt
  lastRunAt : ∀ t ∈ r.lastRunAt, 0 ≤ t

-- What of a routine a request has handed in and is checked again.
def given (r : RoutineRecord) : Nat × Value × Value × Option Int :=
  (r.scraperId, r.iterator, r.schedule, r.failureLimit)

variable {r r' : RoutineRecord}

theorem IsLegible.same (h : r.IsLegible) (hsame : r'.given = r.given) : r'.IsLegible := by
  obtain ⟨hscraper, hsame⟩ := Prod.mk.inj hsame
  obtain ⟨hiterator, hsame⟩ := Prod.mk.inj hsame
  obtain ⟨hschedule, hlimit⟩ := Prod.mk.inj hsame
  exact ⟨hscraper ▸ h.scraperId, hiterator ▸ h.iterator, hschedule ▸ h.schedule,
    hlimit ▸ h.failureLimit⟩

theorem exists_view (hid : 1 ≤ r.id) (hl : r.IsLegible) (hr : r.IsReckoned) (ht : r.IsTimed)
    (scraperName : String) : ∃ shown, r.view scraperName = .ok shown := by
  obtain ⟨iterator, hkept, hiterator⟩ := hl.iterator
  obtain ⟨schedule, hschedule⟩ := hl.schedule
  obtain ⟨limit, hlimit, hpositive⟩ := hl.failureLimit
  obtain ⟨status, hstatus⟩ := hr.status
  have hnext : ∀ next ∈ r.nextRunAt, 0 ≤ next := fun next hnext => by
    have := hr.nextRunAt next hnext
    have := ht.updatedAt
    omega
  exact ⟨_, view_eq hid hl.scraperId hkept hiterator hschedule hlimit hpositive hstatus hnext
    ht.lastRunAt hr.runs hr.failures ht.createdAt ht.updatedAt scraperName⟩

theorem Scheduled.reckoned (h : r.Scheduled) (hruns : 0 ≤ r.runs) (hfailures : 0 ≤ r.failures) :
    r.IsReckoned where
  status := exists_status_of_nextRunOf h
  nextRunAt _ hnext := (nextRunOf_eq_some (h.trans (congrArg _ hnext))).2
  runs := hruns
  failures := hfailures

theorem IsReckoned.executing (h : r.IsReckoned) : (r.withStatus .executing).IsReckoned where
  status := ⟨.executing, rfl⟩
  nextRunAt := h.nextRunAt
  runs := h.runs
  failures := h.failures

theorem IsReckoned.renumbered (h : r.IsReckoned) (id : Nat) :
    ({ r with id } : RoutineRecord).IsReckoned :=
  ⟨h.status, h.nextRunAt, h.runs, h.failures⟩

theorem legible_of_assign {v : Value} {draft : RoutineDraft}
    (hcheck : RoutineDraft.check v = .valid draft) {now : Int} (h : r.assign draft now = .ok r') :
    r'.IsLegible := by
  have hrestored := restoreIterator_assign hcheck h
  obtain ⟨hscraper, hinterval, hlimit, hiterator⟩ := RoutineDraft.parts_of_check hcheck
  obtain ⟨iterator, next, -, rfl⟩ := assign_eq_ok h
  refine ⟨hscraper, ⟨_, hrestored, ?_⟩, ⟨_, Schedule.check_document hinterval⟩, ⟨_, rfl, hlimit⟩⟩
  intro it hit
  obtain ⟨given, hgiven, rfl⟩ := Option.map_eq_some_iff.mp hit
  obtain ⟨u, hu⟩ := hiterator given hgiven
  exact ExecutionIterator.check_utc hu

theorem reckoned_of_assign {draft : RoutineDraft} {now : Int} (hruns : 0 ≤ r.runs)
    (hfailures : 0 ≤ r.failures) (h : r.assign draft now = .ok r') : r'.IsReckoned := by
  have hscheduled := scheduled_of_assign h
  obtain ⟨iterator, next, -, rfl⟩ := assign_eq_ok h
  exact hscheduled.reckoned hruns hfailures

theorem reckoned_of_reschedule {now : Int} (h : r.reschedule now = .ok r')
    (hnow : r.updatedAt = now) (hruns : 0 ≤ r.runs) (hfailures : 0 ≤ r.failures) :
    r'.IsReckoned := by
  have hscheduled := scheduled_of_reschedule hnow h
  obtain ⟨next, -, rfl⟩ := reschedule_eq_ok h
  exact hscheduled.reckoned hruns hfailures

theorem reschedule_given {now : Int} (h : r.reschedule now = .ok r') :
    r'.id = r.id ∧ r'.given = r.given := by
  obtain ⟨next, -, rfl⟩ := reschedule_eq_ok h
  exact ⟨rfl, rfl⟩

-- A run is counted; what has been handed in stays.
theorem countRun_spec (r : RoutineRecord) (failed : Bool) :
    ∃ status failures, (failures = 0 ∨ failures = r.failures + 1) ∧
      r.countRun failed = { r with runs := r.runs + 1, status, failures } := by
  unfold countRun
  cases failed with
  | false => exact ⟨_, _, .inl rfl, rfl⟩
  | true =>
    dsimp only
    split
    · split <;> exact ⟨_, _, .inr rfl, rfl⟩
    · next hfailed => exact absurd rfl hfailed

theorem finish_given {failed : Bool} {startedAt finishedAt : Int}
    (h : r.finish failed startedAt finishedAt = .ok r') : r'.id = r.id ∧ r'.given = r.given := by
  obtain ⟨next, -, rfl⟩ := finish_eq_ok h
  obtain ⟨status, failures, -, hcounted⟩ := r.countRun_spec failed
  rw [hcounted]
  exact ⟨rfl, rfl⟩

theorem reckoned_of_finish {failed : Bool} {startedAt finishedAt : Int} (hr : r.IsReckoned)
    (h : r.finish failed startedAt finishedAt = .ok r') : r'.IsReckoned := by
  have hruns := hr.runs
  have hbefore := hr.failures
  obtain ⟨status, failures, hfailures, hcounted⟩ := r.countRun_spec failed
  refine reckoned_of_reschedule h rfl ?_ ?_ <;> rw [hcounted] <;> dsimp only <;> omega

end RoutineRecord

end Gleaner
