import Gleaner.Proofs.Catalog.Records
import Gleaner.Proofs.Rehearsal.Tables
import Gleaner.Proofs.Service.Turns
import Mathlib.Data.List.Nodup
import Mathlib.Logic.Relation

namespace Gleaner.Catalog

-- No two routines have one number.
def Distinct (c : Catalog) : Prop := (c.routines.map (·.id)).Nodup

variable {c c' : Catalog} {r : RoutineRecord}

@[simp] theorem putRoutine_ids (c : Catalog) (r : RoutineRecord) :
    (c.putRoutine r).routines.map (·.id) = c.routines.map (·.id) := by
  simp only [putRoutine, List.map_map]
  apply List.map_congr_left
  intro s _
  by_cases hs : s.id = r.id <;> simp [hs]

theorem Distinct.putRoutine (h : c.Distinct) (r : RoutineRecord) : (c.putRoutine r).Distinct := by
  rw [Distinct, putRoutine_ids]
  exact h

theorem Distinct.addRoutine (h : c.Distinct) (r : RoutineRecord) :
    (c.addRoutine r).1.Distinct := by
  have hnew : ∀ id ∈ c.routines.map (·.id), id ≠ nextId (c.routines.map (·.id)) := by
    intro id hid
    have := lt_nextId hid
    omega
  simp only [Distinct, Catalog.addRoutine, List.map_append]
  apply List.nodup_append.mpr
  refine ⟨h, List.nodup_singleton _, ?_⟩
  intro id hid other hother
  rw [List.mem_singleton.mp hother]
  exact hnew id hid

theorem Distinct.filter (h : c.Distinct) (keeps : RoutineRecord → Bool) :
    ((c.routines.filter keeps).map (·.id)).Nodup :=
  h.sublist (List.filter_sublist.map _)

-- Whatever a request does, the numbers stay apart.
theorem Move.distinct {executed : Option Int} (h : Move executed c c') (hc : c.Distinct) :
    c'.Distinct := by
  cases h with
  | addScraper h =>
    rw [(addScraper_eq_ok h).2]
    exact hc
  | removeScraper => exact hc.filter _
  | addRoutine => exact hc.addRoutine _
  | putRoutine => exact hc.putRoutine _
  | removeRoutine => exact hc.filter _
  | keepRun => exact hc.putRoutine _
  | _ => exact hc

theorem Distinct.eq (h : c.Distinct) {s : RoutineRecord} (hr : r ∈ c.routines)
    (hs : s ∈ c.routines) (hid : r.id = s.id) : r = s :=
  List.inj_on_of_nodup_map h hr hs hid

theorem routine?_putRoutine_of_ne {id : Nat} (h : r.id ≠ id) :
    (c.putRoutine r).routine? id = c.routine? id := by
  have hsame : ∀ s : RoutineRecord, (((if s.id = r.id then r else s).id : Int) == (id : Int)) =
      ((s.id : Int) == (id : Int)) := by
    intro s
    by_cases hs : s.id = r.id
    · simp [hs]
    · simp [hs]
  have hother : ∀ s ∈ c.routine? id, s.id ≠ r.id := by
    intro s hs hid
    have := (routine?_eq_some hs).2
    omega
  unfold routine? at hother ⊢
  rw [putRoutine, List.find?_map]
  simp only [Function.comp_def, hsame]
  cases hfound : c.routines.find? fun s => (s.id : Int) == (id : Int) with
  | none => rfl
  | some s => simp [hother s hfound]

-- The routines that are due are the active ones whose next run has come.
theorem mem_dueRoutines {t : Int} : r ∈ c.dueRoutines t ↔
    r ∈ c.routines ∧ r.status = Status.active.name ∧ ∃ next, r.nextRunAt = some next ∧ next ≤ t := by
  have hdue : (r.status == Status.active.name && r.nextRunAt.any (· ≤ t)) = true ↔
      r.status = Status.active.name ∧ ∃ next, r.nextRunAt = some next ∧ next ≤ t := by
    simp [Option.any_eq_true]
  rw [dueRoutines, List.mem_mergeSort, List.mem_filter]
  exact and_congr_right fun _ => hdue

theorem Distinct.dueRoutines (h : c.Distinct) (t : Int) :
    ((c.dueRoutines t).map (·.id)).Nodup := by
  unfold Catalog.dueRoutines
  exact ((List.mergeSort_perm _ _).map _).nodup_iff.mpr (h.filter _)

def IsDue (c : Catalog) (id : Nat) (t : Int) : Bool := (c.dueRoutines t).any (·.id == id)

theorem isDue_iff {t : Int} (hc : c.Distinct) (hr : c.routine? r.id = some r) :
    c.IsDue r.id t = true ↔ r ∈ c.dueRoutines t := by
  simp only [IsDue, List.any_eq_true, beq_iff_eq]
  constructor
  · rintro ⟨s, hs, hid⟩
    have hmem := (mem_dueRoutines.mp hs).1
    exact hc.eq hmem (routine?_eq_some hr).1 hid ▸ hs
  · exact fun hdue => ⟨r, hdue, rfl⟩

end Gleaner.Catalog

namespace Gleaner

variable {σ : Type}

-- Executes some routines, one after the other. One time stands for the start and the end of all.
def executeAll (host : RoutineRecord → Host σ) (keeper : Keeper σ) (limit : Option Int) (t : Int) :
    List RoutineRecord → Effect σ Unit
  | [] => pure ()
  | r :: rest => do
    discard (executeRoutine (host r) keeper limit r (some t))
    executeAll host keeper limit t rest

-- Executes the routines that are due.
def poll (host : RoutineRecord → Host σ) (keeper : Keeper σ) (limit : Option Int) (t : Int) :
    Effect σ Unit := do
  executeAll host keeper limit t ((← keeper.catalog).dueRoutines t)

namespace Catalog

-- A run that starts and ends at some time and is kept, together with the routine as it is after it.
inductive RunAt (t : Int) (c : Catalog) (r : RoutineRecord) : Catalog → Prop
  | kept {failed : Bool} {finished : RoutineRecord} {e : ExecutionRecord}
      (h : r.finish failed t t = .ok finished) (he : e.routineId = r.id) :
      RunAt t c r { c.putRoutine finished with executions := c.executions ++ [e] }

-- Neither a routine nor its executions have changed.
structure LeavesAlone (id : Nat) (c c' : Catalog) : Prop where
  routine : c'.routine? id = c.routine? id
  runs : c'.runsOf id = c.runsOf id

-- A routine has been run once, at some time.
structure RunsOnce (t : Int) (r : RoutineRecord) (c c' : Catalog) : Prop where
  finished : ∃ failed finished, r.finish failed t t = .ok finished ∧
    c'.routine? r.id = some finished
  runs : ∃ e, c'.runsOf r.id = c.runsOf r.id ++ [e]

variable {c c' c'' : Catalog} {r : RoutineRecord} {t : Int} {id : Nat}

theorem LeavesAlone.trans (h : LeavesAlone id c c') (h' : LeavesAlone id c' c'') :
    LeavesAlone id c c'' :=
  ⟨h'.routine.trans h.routine, h'.runs.trans h.runs⟩

theorem RunsOnce.trans (h : RunsOnce t r c c') (h' : LeavesAlone r.id c' c'') :
    RunsOnce t r c c'' := by
  obtain ⟨⟨failed, finished, hfinish, hstored⟩, e, hruns⟩ := h
  exact ⟨⟨failed, finished, hfinish, h'.routine.trans hstored⟩, e, h'.runs.trans hruns⟩

theorem RunsOnce.after (h : RunsOnce t r c' c'') (h' : LeavesAlone r.id c c') :
    RunsOnce t r c c'' := by
  obtain ⟨hfinished, e, hruns⟩ := h
  exact ⟨hfinished, e, hruns.trans (by rw [h'.runs])⟩

theorem RunAt.distinct (h : c.RunAt t r c') (hc : c.Distinct) : c'.Distinct := by
  cases h with
  | kept => exact hc.putRoutine _

theorem RunAt.runsOnce (h : c.RunAt t r c') (hr : c.routine? r.id = some r) :
    RunsOnce t r c c' := by
  cases h with
  | @kept failed finished e h he =>
    have hid := (RoutineRecord.finish_id h).1
    refine ⟨⟨failed, finished, h, routine?_putRoutine hr hid⟩, e, ?_⟩
    rw [runsOf_append rfl, if_pos he]

-- A run leaves all other routines as they are.
theorem RunAt.leavesAlone (h : c.RunAt t r c') (hne : r.id ≠ id) : LeavesAlone id c c' := by
  cases h with
  | @kept failed finished e h he =>
    have hid := (RoutineRecord.finish_id h).1
    constructor
    · exact routine?_putRoutine_of_ne (hid ▸ hne)
    · rw [runsOf_append rfl, if_neg (he ▸ hne), List.append_nil]

-- Runs of some routines, one after the other.
inductive RunAll (t : Int) : Catalog → List RoutineRecord → Catalog → Prop
  | nil (c : Catalog) : RunAll t c [] c
  | cons {c c' c'' : Catalog} {r : RoutineRecord} {rest : List RoutineRecord}
      (first : c.RunAt t r c') (more : RunAll t c' rest c'') : RunAll t c (r :: rest) c''

variable {due : List RoutineRecord}

theorem RunAll.distinct (h : RunAll t c due c') (hc : c.Distinct) : c'.Distinct := by
  induction h with
  | nil c => exact hc
  | cons first more ih => exact ih (first.distinct hc)

-- What is not among the routines that are run is left alone.
theorem RunAll.leavesAlone (h : RunAll t c due c') (hid : id ∉ due.map (·.id)) :
    LeavesAlone id c c' := by
  induction h with
  | nil c => exact ⟨rfl, rfl⟩
  | cons first more ih =>
    rw [List.map_cons, List.mem_cons, not_or] at hid
    exact (first.leavesAlone (Ne.symm hid.1)).trans (ih hid.2)

-- What is among them is run once, if it is still the same when its turn comes.
theorem RunAll.runsOnce (h : RunAll t c due c') (hr : r ∈ due) (hdue : (due.map (·.id)).Nodup)
    (hstored : c.routine? r.id = some r) : RunsOnce t r c c' := by
  induction h with
  | nil c => cases hr
  | @cons c c' c'' other rest first more ih =>
    rw [List.map_cons, List.nodup_cons] at hdue
    rcases List.mem_cons.mp hr with rfl | hmem
    · exact (first.runsOnce hstored).trans (more.leavesAlone hdue.1)
    · have hne : other.id ≠ r.id := by
        intro hid
        exact hdue.1 (hid ▸ List.mem_map_of_mem hmem)
      have hfirst := first.leavesAlone hne
      exact (ih hmem hdue.2 (hfirst.routine.trans hstored)).after hfirst

end Catalog

open Catalog

section

variable {view : σ → Catalog} {keeper : Keeper σ} (hk : keeper.Shows view)
include hk

theorem change_ok {α : Type} {f : Catalog → Except Failure (Catalog × α)} {a : α} {s s' : σ}
    (h : keeper.change f s = (.ok a, s')) : f (view s) = .ok (view s', a) := by
  obtain ⟨c, u, hlook, h⟩ := Effect.bind_eq_ok h
  cases hlook
  rw [hk.catalog] at h
  cases hf : f (view s) with
  | error e =>
    rw [hf] at h
    cases h
  | ok changed =>
    obtain ⟨c, b⟩ := changed
    rw [hf] at h
    obtain ⟨_, v, hkeep, h⟩ := Effect.bind_eq_ok h
    cases hkeep
    cases h
    rw [hk.keep]

theorem putRoutine_ok {r : RoutineRecord} {a : Unit} {s s' : σ}
    (h : keeper.putRoutine r s = (.ok a, s')) : view s' = (view s).putRoutine r := by
  obtain ⟨c, u, hlook, h⟩ := Effect.bind_eq_ok h
  cases hlook
  cases h
  rw [hk.keep, hk.catalog]

variable {host : Host σ} {limit : Option Int} {r : RoutineRecord} {t : Int} {c : Catalog}

theorem keepRun_runAt {failed : Bool} {stored : List Value} {createdAt : DateTime}
    {e : ExecutionRecord} {s s' : σ} (hs : view s = c.putRoutine (r.withStatus .executing))
    (h : keeper.change (fun c => do
      let finished ← r.finish failed t t
      .ok ((c.putRoutine finished).addExecution
        ⟨0, r.scraperId, r.id, r.iterator, stored, createdAt⟩)) s = (.ok e, s')) :
    c.RunAt t r (view s') := by
  have hchange := change_ok hk h
  rw [hs] at hchange
  cases hfinish : r.finish failed t t with
  | error e =>
    rw [hfinish] at hchange
    cases hchange
  | ok finished =>
    have hid := (RoutineRecord.finish_id hfinish).1
    have hput := putRoutine_putRoutine (c := c) (r := r.withStatus .executing) hid
    rw [hfinish] at hchange
    obtain rfl : _ = e := congrArg Prod.snd (Except.ok.inj hchange)
    have hview : _ = view s' := congrArg Prod.fst (Except.ok.inj hchange)
    rw [← hview, hput]
    exact .kept hfinish rfl

variable (hh : host.Leaves view)
include hh

-- A run is kept if its end can be dated.
theorem datedRun_runAt {failed : Bool} {stored : List Value} {e : ExecutionRecord} {s s' : σ}
    (hs : view s = c.putRoutine (r.withStatus .executing))
    (h : (do
      let present ← host.unbound.now
      match DateTime.ofEpochMillis? present with
      | none => throw .beyondCalendar
      | some createdAt =>
        keeper.change fun c => do
          let finished ← r.finish failed t t
          let createdAt := { createdAt with offset := none }
          .ok ((c.putRoutine finished).addExecution
            ⟨0, r.scraperId, r.id, r.iterator, stored, createdAt⟩) : Effect σ ExecutionRecord) s =
      (.ok e, s')) : c.RunAt t r (view s') := by
  obtain ⟨present, u, hclock, h⟩ := Effect.bind_eq_ok h
  have hu := (leaves_lift (hh.environment none).now).view_eq hclock
  cases hdate : DateTime.ofEpochMillis? present with
  | none =>
    rw [hdate] at h
    cases h
  | some createdAt =>
    rw [hdate] at h
    exact keepRun_runAt hk (hu.trans hs) h

theorem finishRoutine_runAt {runs : List IterationRecord} {e : ExecutionRecord} {s s' : σ}
    (hs : view s = c.putRoutine (r.withStatus .executing))
    (h : finishRoutine host keeper r runs t (some t) s = (.ok e, s')) : c.RunAt t r (view s') := by
  unfold finishRoutine at h
  obtain ⟨stored, u, hstored, h⟩ := Effect.bind_eq_ok h
  have hu : view u = view s := (leaves_ofExcept id (runsJson runs)).view_eq hstored
  cases hwarning : r.pauseWarning? (runs.any (·.failed)) with
  | none =>
    rw [hwarning] at h
    exact datedRun_runAt hk hh (hu.trans hs) h
  | some message =>
    rw [hwarning] at h
    obtain ⟨_, v, hwarn, h⟩ := Effect.bind_eq_ok h
    have hv := (leaves_lift ((hh.environment none).warn message)).view_eq hwarn
    exact datedRun_runAt hk hh (hv.trans (hu.trans hs)) h

-- A routine that is executed and comes back has run.
theorem executeRoutine_runAt {e : ExecutionRecord} {s s' : σ}
    (h : executeRoutine host keeper limit r (some t) s = (.ok e, s')) :
    (view s).RunAt t r (view s') := by
  obtain ⟨c, s₁, hlook, h⟩ := Effect.bind_eq_ok h
  cases hlook
  rw [hk.catalog] at h
  cases hscraper : (view s).scraper? r.scraperId with
  | none =>
    rw [hscraper] at h
    cases h
  | some scraper =>
    rw [hscraper] at h
    obtain ⟨_, s₂, hclock, h⟩ := Effect.bind_eq_ok h
    obtain ⟨_, s₃, hput, h⟩ := Effect.bind_eq_ok h
    obtain ⟨outcome, s₄, hrun, h⟩ := Effect.bind_eq_ok h
    have hs₂ := (leaves_lift (hh.environment none).now).view_eq hclock
    have hs₃ := putRoutine_ok hk hput
    have hs₄ := (leaves_attempt (leaves_runRoutine hh limit scraper r)).view_eq hrun
    cases outcome with
    | error e =>
      obtain ⟨_, _, -, h⟩ := Effect.bind_eq_ok h
      cases h
    | ok runs =>
      refine finishRoutine_runAt hk hh ?_ h
      rw [hs₄, hs₃, hs₂, hk.looking]

end

section

variable {view : σ → Catalog} {keeper : Keeper σ} (hk : keeper.Shows view)
  {host : RoutineRecord → Host σ} (hh : ∀ r, (host r).Leaves view) {limit : Option Int} {t : Int}
include hk hh

theorem executeAll_runAll {due : List RoutineRecord} {s s' : σ} {a : Unit}
    (h : executeAll host keeper limit t due s = (.ok a, s')) :
    RunAll t (view s) due (view s') := by
  induction due generalizing s with
  | nil =>
    cases h
    exact .nil _
  | cons r rest ih =>
    obtain ⟨_, u, hrun, h⟩ := Effect.bind_eq_ok h
    obtain ⟨e, u, hrun, hdiscard⟩ := Effect.bind_eq_ok hrun
    cases hdiscard
    exact .cons (executeRoutine_runAt hk (hh r) hrun) (ih h)

-- What a poll makes of a routine: it is run once if it is due, and left alone if it is not.
theorem poll_routine {r : RoutineRecord} {s s' : σ} {a : Unit}
    (h : poll host keeper limit t s = (.ok a, s')) (hs : (view s).Distinct)
    (hr : (view s).routine? r.id = some r) :
    (view s').Distinct ∧
    (r ∈ (view s).dueRoutines t → RunsOnce t r (view s) (view s')) ∧
    (r ∉ (view s).dueRoutines t → LeavesAlone r.id (view s) (view s')) := by
  obtain ⟨c, u, hlook, h⟩ := Effect.bind_eq_ok h
  have hview : view u = view s := (leaves_lift hk.looking).view_eq hlook
  have hc : c = view s := by
    cases hlook
    exact hk.catalog s
  subst hc
  rw [← hview] at h hr hs ⊢
  have hall := executeAll_runAll hk hh h
  refine ⟨hall.distinct hs, fun hdue => hall.runsOnce hdue (hs.dueRoutines t) hr, fun hidle => ?_⟩
  apply hall.leavesAlone
  intro hid
  obtain ⟨other, hother, hsame⟩ := List.mem_map.mp hid
  have hmem := (mem_dueRoutines.mp hother).1
  exact hidle (hs.eq hmem (routine?_eq_some hr).1 hsame ▸ hother)

end

end Gleaner

namespace Gleaner

open Catalog

variable {σ : Type}

-- The time a routine was last taken up before some poll: that of an earlier poll in which it was
-- run, or else that of its creation.
def lastRun (created : Int) (runs : Nat → Bool) (time : Nat → Int) : Nat → Int
  | 0 => created
  | k + 1 => if runs k then time k else lastRun created runs time k

theorem lastRun_succ (created : Int) (runs : Nat → Bool) (time : Nat → Int) (k : Nat) :
    lastRun created runs time (k + 1) =
      if runs k then time k else lastRun created runs time k := rfl

section

variable {created : Int} {runs : Nat → Bool} {time : Nat → Int} {n : Nat}
  (hcreated : 0 < n → created ≤ time 0) (htime : ∀ k, k + 1 < n → time k ≤ time (k + 1))

include hcreated htime in
theorem lastRun_le {k : Nat} (hk : k < n) : lastRun created runs time k ≤ time k := by
  induction k with
  | zero => exact hcreated hk
  | succ k ih =>
    have hnext := htime k hk
    have hbefore := ih (by omega)
    rw [lastRun_succ]
    split
    · exact hnext
    · omega

include hcreated htime in
theorem lastRun_mono {j k : Nat} (hjk : j ≤ k) (hk : k ≤ n) :
    lastRun created runs time j ≤ lastRun created runs time k := by
  induction k with
  | zero =>
    obtain rfl := Nat.le_zero.mp hjk
    exact Int.le_refl _
  | succ k ih =>
    by_cases hlast : j = k + 1
    · subst hlast
      exact Int.le_refl _
    · have hbefore := ih (by omega) (by omega)
      have hle : lastRun created runs time k ≤ time k := lastRun_le hcreated htime hk
      rw [lastRun_succ]
      split
      · omega
      · exact hbefore

-- What has come since the creation and before the last run is within the time of one of the runs.
theorem exists_run {p : Int} (hp : created < p) {k : Nat} (h : p ≤ lastRun created runs time k) :
    ∃ j < k, runs j = true ∧ lastRun created runs time j < p ∧ p ≤ time j := by
  induction k with
  | zero =>
    have : p ≤ created := h
    omega
  | succ k ih =>
    by_cases hearlier : p ≤ lastRun created runs time k
    · obtain ⟨j, hj, hrun⟩ := ih hearlier
      exact ⟨j, by omega, hrun⟩
    · rw [lastRun_succ] at h
      split at h
      · next hrun => exact ⟨k, by omega, hrun, by omega, h⟩
      · exact absurd h hearlier

include hcreated htime in
-- Nothing is within the times of two runs.
theorem run_unique {p : Int} {i j : Nat} (hi : i < n) (hj : j < n) (hri : runs i = true)
    (hrj : runs j = true) (hpi : lastRun created runs time i < p ∧ p ≤ time i)
    (hpj : lastRun created runs time j < p ∧ p ≤ time j) : i = j := by
  have hless : ∀ i j, i < j → j < n → runs i = true → p ≤ time i →
      p ≤ lastRun created runs time j := by
    intro i j hij hj hrun hp
    have hmono : lastRun created runs time (i + 1) ≤ lastRun created runs time j :=
      lastRun_mono hcreated htime hij (by omega)
    rw [lastRun_succ, if_pos hrun] at hmono
    omega
  rcases Nat.lt_trichotomy i j with hij | heq | hji
  · have := hless i j hij hj hri hpi.2
    omega
  · exact heq
  · have := hless j i hji hi hrj hpj.2
    omega

end

namespace RoutineRecord

-- A routine as it is kept between its runs: by its schedule, from the time of its last update on.
structure OnSchedule (s : Schedule) (since : Int) (r : RoutineRecord) : Prop where
  schedule : r.schedule = s.document.toValue .full
  updated : r.updatedAt = since
  scheduled : r.Scheduled

variable {s : Schedule} {since t : Int} {r r' : RoutineRecord}

theorem onSchedule_of_assign {draft : RoutineDraft} (h : r.assign draft t = .ok r') :
    OnSchedule draft.schedule t r' := by
  have hscheduled := scheduled_of_assign h
  obtain ⟨iterator, next, -, rfl⟩ := assign_eq_ok h
  exact ⟨rfl, rfl, hscheduled⟩

theorem OnSchedule.finish {failed : Bool} (h : OnSchedule s since r) (hidle : r.isExecuting = false)
    (hr : r.finish failed t t = .ok r') : OnSchedule s t r' := by
  have hscheduled := scheduled_of_finish hr
  obtain ⟨next, -, rfl⟩ := finish_eq_ok hr
  refine ⟨?_, rfl, hscheduled⟩
  rw [countRun_idle hidle]
  exact h.schedule

-- An active routine is due when a point of its schedule has come since it was last taken up.
theorem OnSchedule.due_iff (h : OnSchedule s since r) (hactive : r.status = Status.active.name)
    (t : Int) : (∃ next, r.nextRunAt = some next ∧ next ≤ t) ↔
      ∃ p, s.IsPoint p ∧ since < p ∧ p ≤ t := by
  have hnext := h.scheduled
  rw [Scheduled, hactive, h.schedule, h.updated] at hnext
  obtain ⟨hpos, hnext⟩ := nextRunOf_document hnext
  rw [hnext]
  exact Schedule.next?_le_iff hpos since t

end RoutineRecord

-- What other requests make of a catalog while a routine is let be.
structure Catalog.Meanwhile (id : Nat) (c c' : Catalog) : Prop extends LeavesAlone id c c' where
  moves : Relation.ReflTransGen (fun c c' => ∃ executed, Move executed c c') c c'

theorem Catalog.Meanwhile.distinct {id : Nat} {c c' : Catalog} (h : Meanwhile id c c')
    (hc : c.Distinct) : c'.Distinct := by
  obtain ⟨-, hmoves⟩ := h
  induction hmoves with
  | refl => exact hc
  | tail _ hmove ih =>
    obtain ⟨executed, hmove⟩ := hmove
    exact hmove.distinct ih

-- Some polls, each from the state it finds. Between them the routine is let be.
structure Polled (host : RoutineRecord → Host σ) (keeper : Keeper σ) (limit : Option Int)
    (view : σ → Catalog) (id n : Nat) (time : Nat → Int) (state : Nat → σ) : Prop where
  poll : ∀ k < n, ∃ s, Gleaner.poll host keeper limit (time k) (state k) = (.ok (), s) ∧
    Meanwhile id (view s) (view (state (k + 1)))
  ordered : ∀ k, k + 1 < n → time k ≤ time (k + 1)

section

variable {view : σ → Catalog} {keeper : Keeper σ} (hk : keeper.Shows view)
  {host : RoutineRecord → Host σ} (hh : ∀ r, (host r).Leaves view) {limit : Option Int}
  {id n : Nat} {time : Nat → Int} {state : Nat → σ}
  (h : Polled host keeper limit view id n time state) {s : Schedule} {created : Int}

-- A routine as there is one before each poll.
structure Awaiting (c : Catalog) (id : Nat) (s : Schedule) (since : Int) (r : RoutineRecord) :
    Prop where
  distinct : c.Distinct
  stored : c.routine? id = some r
  onSchedule : r.OnSchedule s since

theorem Awaiting.id_eq {c : Catalog} {since : Int} {r : RoutineRecord}
    (h : Awaiting c id s since r) : r.id = id := Int.ofNat.inj (routine?_eq_some h.stored).2

theorem Awaiting.isDue_iff {c : Catalog} {since : Int} {r : RoutineRecord}
    (h : Awaiting c id s since r) (hactive : r.status = Status.active.name) (t : Int) :
    c.IsDue id t = true ↔ ∃ p, s.IsPoint p ∧ since < p ∧ p ≤ t := by
  obtain rfl := h.id_eq
  rw [isDue_iff h.distinct h.stored, mem_dueRoutines, ← h.onSchedule.due_iff hactive]
  have hmem := (routine?_eq_some h.stored).1
  exact ⟨fun hdue => hdue.2.2, fun hdue => ⟨hmem, hactive, hdue⟩⟩

include hk hh h

-- One poll: the routine runs if it is due, and from then on its runs are reckoned from that.
theorem Polled.awaiting_succ {k : Nat} (hn : k < n) {since : Int} {r : RoutineRecord}
    (hr : Awaiting (view (state k)) id s since r) :
    let due := (view (state k)).IsDue id (time k)
    (∃ r', Awaiting (view (state (k + 1))) id s (if due then time k else since) r') ∧
    ∃ kept, (view (state (k + 1))).runsOf id = (view (state k)).runsOf id ++ kept ∧
      kept.length = if due then 1 else 0 := by
  obtain ⟨w, hpoll, hmeanwhile⟩ := h.poll k hn
  obtain rfl := hr.id_eq
  obtain ⟨hdistinct, hruns, hleaves⟩ := poll_routine hk hh hpoll hr.distinct hr.stored
  have hnext := hmeanwhile.distinct hdistinct
  intro due
  by_cases hdue : r ∈ (view (state k)).dueRoutines (time k)
  · have hcount : due = true := (isDue_iff hr.distinct hr.stored).mpr hdue
    obtain ⟨⟨failed, finished, hfinish, hstored⟩, e, hkept⟩ := hruns hdue
    have hactive := (mem_dueRoutines.mp hdue).2.1
    have hidle : r.isExecuting = false := by
      rw [RoutineRecord.isExecuting, hactive]
      decide
    refine ⟨⟨finished, hnext, hmeanwhile.routine.trans hstored, ?_⟩, [e], ?_, ?_⟩
    · rw [hcount]
      exact hr.onSchedule.finish hidle hfinish
    · rw [hmeanwhile.runs, hkept]
    · rw [hcount]
      rfl
  · have hcount : due = false :=
      Bool.eq_false_iff.mpr fun hcount => hdue ((isDue_iff hr.distinct hr.stored).mp hcount)
    have halone := (hleaves hdue).trans hmeanwhile.toLeavesAlone
    refine ⟨⟨r, hnext, halone.routine.trans hr.stored, ?_⟩, [], ?_, ?_⟩
    · rw [hcount]
      exact hr.onSchedule
    · rw [halone.runs, List.append_nil]
    · rw [hcount]
      rfl

-- When the routine is run.
def runsAt (view : σ → Catalog) (id : Nat) (time : Nat → Int) (state : Nat → σ) (k : Nat) : Bool :=
  (view (state k)).IsDue id (time k)

theorem Polled.awaiting {r : RoutineRecord} (hr : Awaiting (view (state 0)) id s created r) {k : Nat}
    (hn : k ≤ n) :
    ∃ r, Awaiting (view (state k)) id s (lastRun created (runsAt view id time state) time k) r := by
  induction k with
  | zero => exact ⟨r, hr⟩
  | succ k ih =>
    obtain ⟨r, hr⟩ := ih (by omega)
    exact (h.awaiting_succ hk hh hn hr).1

end

namespace Catalog

theorem routine?_addRoutine (c : Catalog) (r : RoutineRecord) :
    (c.addRoutine r).1.routine? (c.addRoutine r).2.id = some (c.addRoutine r).2 := by
  have hold : c.routine? (c.addRoutine r).2.id = none := by
    refine List.find?_eq_none.mpr fun old hold => ?_
    have hlt := lt_nextId (List.mem_map_of_mem (f := (·.id)) hold)
    simp only [Catalog.addRoutine, beq_iff_eq]
    omega
  unfold routine? at hold ⊢
  change (c.routines ++ [(c.addRoutine r).2]).find? _ = _
  rw [List.find?_append, hold]
  simp

def IsActive (c : Catalog) (id : Nat) : Prop :=
  ∃ r, c.routine? id = some r ∧ r.status = Status.active.name

end Catalog

-- A poll in which a routine is active comes out as its schedule says: the routine is run if a point
-- has come since it was last taken up; and of the points there have been since it was created, each
-- has been in the time of one run and no more.
structure OnTime (s : Schedule) (created : Int) (runs : Nat → Bool) (time : Nat → Int) (k : Nat) :
    Prop where
  runs_iff : runs k = true ↔ ∃ p, s.IsPoint p ∧ lastRun created runs time k < p ∧ p ≤ time k
  once : ∀ p, s.IsPoint p → created < p → p ≤ time k →
    ∃! j, j ≤ k ∧ runs j = true ∧ lastRun created runs time j < p ∧ p ≤ time j

section

variable {view : σ → Catalog} {keeper : Keeper σ} {host : RoutineRecord → Host σ}
  {limit : Option Int} {n : Nat} {time : Nat → Int} {state : Nat → σ}

-- A routine that is polled from its creation on runs when its schedule says so, once for each poll
-- at which it does.
theorem polls_onTime (hk : keeper.Shows view) (hh : ∀ r, (host r).Leaves view) {c : Catalog}
    (hc : c.Distinct) {draft : RoutineDraft} {created : Int} {r : RoutineRecord}
    (hr : RoutineRecord.assign { createdAt := created } draft created = .ok r)
    (hstart : Meanwhile (c.addRoutine r).2.id (c.addRoutine r).1 (view (state 0)))
    (hpolls : Polled host keeper limit view (c.addRoutine r).2.id n time state)
    (hcreated : 0 < n → created ≤ time 0) :
    let id := (c.addRoutine r).2.id
    let runs := runsAt view id time state
    ∀ k < n,
      (∃ kept, (view (state (k + 1))).runsOf id = (view (state k)).runsOf id ++ kept ∧
        kept.length = if runs k then 1 else 0) ∧
      ((view (state k)).IsActive id → OnTime draft.schedule created runs time k) := by
  intro id runs k hn
  have hfirst : Awaiting (view (state 0)) id draft.schedule created (c.addRoutine r).2 := by
    have hassigned := RoutineRecord.onSchedule_of_assign hr
    constructor
    · exact hstart.distinct (hc.addRoutine r)
    · exact hstart.routine.trans (routine?_addRoutine c r)
    · exact ⟨hassigned.schedule, hassigned.updated, hassigned.scheduled⟩
  obtain ⟨r', hr'⟩ := hpolls.awaiting hk hh hfirst (Nat.le_of_lt hn)
  refine ⟨(hpolls.awaiting_succ hk hh hn hr').2, fun hactive => ?_⟩
  have hruns : runs k = true ↔ ∃ p, draft.schedule.IsPoint p ∧
      lastRun created runs time k < p ∧ p ≤ time k := by
    obtain ⟨active, hstored, hstatus⟩ := hactive
    obtain rfl : r' = active := Option.some.inj (hr'.stored.symm.trans hstored)
    exact hr'.isDue_iff hstatus (time k)
  refine ⟨hruns, fun p hp hnew hcome => ?_⟩
  have hrun : ∃ j ≤ k, runs j = true ∧ lastRun created runs time j < p ∧ p ≤ time j := by
    by_cases hlater : lastRun created runs time k < p
    · exact ⟨k, Nat.le_refl k, hruns.mpr ⟨p, hp, hlater, hcome⟩, hlater, hcome⟩
    · obtain ⟨j, hj, hrun⟩ := exists_run hnew (Int.not_lt.mp hlater)
      exact ⟨j, Nat.le_of_lt hj, hrun⟩
  obtain ⟨j, hj, hrun, hbounds⟩ := hrun
  refine ⟨j, ⟨hj, hrun, hbounds⟩, fun i hi => ?_⟩
  exact run_unique hcreated hpolls.ordered (by omega) (by omega) hi.2.1 hrun hi.2.2 hbounds

end

-- The states of polls of which each comes right after the one before.
def polled (host : RoutineRecord → Host σ) (keeper : Keeper σ) (limit : Option Int)
    (time : Nat → Int) (s : σ) : Nat → σ
  | 0 => s
  | k + 1 => (poll host keeper limit (time k) (polled host keeper limit time s k)).2

theorem polled_polled {host : RoutineRecord → Host σ} {keeper : Keeper σ} {limit : Option Int}
    {view : σ → Catalog} {time : Nat → Int} {s : σ} {n : Nat} (id : Nat)
    (hok : ∀ k < n,
      (poll host keeper limit (time k) (polled host keeper limit time s k)).1.toOption = some ())
    (htime : ∀ k, k + 1 < n → time k ≤ time (k + 1)) :
    Polled host keeper limit view id n time (polled host keeper limit time s) where
  poll k hk := by
    refine ⟨polled host keeper limit time s (k + 1), Prod.ext ?_ rfl, ⟨rfl, rfl⟩, .refl⟩
    have hok := hok k hk
    cases hpoll : (poll host keeper limit (time k) (polled host keeper limit time s k)).1 with
    | ok _ => rfl
    | error e =>
      rw [hpoll] at hok
      cases hok
  ordered := htime

-- A scraper that does nothing, to be run from the third second to the sixth.
def briefRoutine : RoutineDraft :=
  { scraperId := 1, iterator := none, description := none, failureLimit := none,
    schedule := ⟨1000, 2000, some 5000⟩ }

def briefCatalog : Catalog where
  scrapers := [{
    id := 1
    name := "idle"
    instructions := .list [.object [("type", .text "marker"), ("name", .text "start")]]
    dataSources := .list [] }]

def briefRecord : RoutineRecord :=
  (RoutineRecord.assign { createdAt := 500 } briefRoutine 500).toOption.getD { createdAt := 500 }

-- Polled too early, twice at one point, after two points, and after the end.
def briefPolls (k : Nat) : Int := [1500, 2000, 2000, 4500, 6000, 9000].getD k 9000

def briefHost (_ : RoutineRecord) : Host Rehearsal.World :=
  Service.hostOf (Rehearsal.resources {}) [] 0

def briefStates : Nat → Rehearsal.World :=
  polled briefHost Rehearsal.keeper none briefPolls
    { catalog := (briefCatalog.addRoutine briefRecord).1 }

theorem polls_onTime_briefRoutine :
    let keeper := Rehearsal.keeper
    let view := Rehearsal.World.catalog
    let created := briefCatalog.addRoutine briefRecord
    keeper.Shows view ∧ (∀ r, (briefHost r).Leaves view) ∧ briefCatalog.Distinct ∧
    RoutineRecord.assign { createdAt := 500 } briefRoutine 500 = .ok briefRecord ∧
    Meanwhile created.2.id created.1 (view (briefStates 0)) ∧
    Polled briefHost keeper none view created.2.id 6 briefPolls briefStates ∧
    (0 < 6 → 500 ≤ briefPolls 0) ∧
    (List.range 6).map (runsAt view created.2.id briefPolls briefStates) =
      [false, true, false, true, true, false] ∧
    ∀ k < 6, OnTime briefRoutine.schedule 500 (runsAt view created.2.id briefPolls briefStates)
      briefPolls k := by
  intro keeper view created
  have hlawful := Rehearsal.resources_lawful {}
  have hhost : ∀ r, (briefHost r).Leaves view := fun _ => Service.hostOf_leaves hlawful [] 0
  have hdistinct : briefCatalog.Distinct := List.nodup_nil
  have hassigned :
      RoutineRecord.assign { createdAt := 500 } briefRoutine 500 = .ok briefRecord := by rfl
  have hmeanwhile : Meanwhile created.2.id created.1 (view (briefStates 0)) := ⟨⟨rfl, rfl⟩, .refl⟩
  have hfacts : (∀ k < 6, (poll briefHost keeper none (briefPolls k) (briefStates k)).1.toOption =
      some ()) ∧
      (∀ k < 6, ((view (briefStates k)).routine? created.2.id).map (·.status) =
        some Status.active.name) ∧
      (List.range 6).map (runsAt view created.2.id briefPolls briefStates) =
        [false, true, false, true, true, false] := by
    decide +kernel
  obtain ⟨hok, hstatus, hruns⟩ := hfacts
  have hpolled : Polled briefHost keeper none view created.2.id 6 briefPolls briefStates := by
    apply polled_polled _ hok
    intro k hk
    have hordered : ∀ k < 5, briefPolls k ≤ briefPolls (k + 1) := by decide
    exact hordered k (by omega)
  have hbegun : 0 < 6 → 500 ≤ briefPolls 0 := by decide
  refine ⟨hlawful.keeper, hhost, hdistinct, hassigned, hmeanwhile, hpolled, hbegun, hruns, ?_⟩
  intro k hk
  obtain ⟨r, hr, hactive⟩ := Option.map_eq_some_iff.mp (hstatus k hk)
  exact (polls_onTime hlawful.keeper hhost hdistinct hassigned hmeanwhile hpolled hbegun k hk).2
    ⟨r, hr, hactive⟩

end Gleaner
