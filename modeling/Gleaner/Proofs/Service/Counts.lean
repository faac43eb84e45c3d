import Gleaner.Proofs.Catalog.Records
import Gleaner.Proofs.Service.Schedules

namespace Gleaner

namespace Catalog

-- Those among them that have failed and were not kept yet in an earlier catalog.
def failuresSince (before c : Catalog) (id : Nat) : List ExecutionRecord :=
  (c.executions.drop before.executions.length).filter fun e => e.routineId == id && e.failed

-- All executions are of routines that are there.
def Tied (c : Catalog) : Prop := ∀ e ∈ c.executions, c.HasRoutine e.routineId

variable {before c c' : Catalog} {id : Nat} {e : ExecutionRecord}

theorem failuresSince_self (c : Catalog) (id : Nat) : c.failuresSince c id = [] := by
  simp [failuresSince]

theorem failuresSince_append (hlength : before.executions.length ≤ c.executions.length)
    (he : c'.executions = c.executions ++ [e]) :
    before.failuresSince c' id = before.failuresSince c id ++
      if e.routineId = id ∧ e.failed = true then [e] else [] := by
  rw [failuresSince, he, List.drop_append_of_le_length hlength, List.filter_append]
  by_cases hid : e.routineId = id <;> cases hfailed : e.failed <;>
    simp [failuresSince, hid, hfailed]

theorem runsOf_eq_nil (h : c.Tied) (hid : ¬c.HasRoutine id) : c.runsOf id = [] := by
  refine List.filter_eq_nil_iff.mpr fun e he hroutine => hid ?_
  exact (beq_iff_eq.mp hroutine) ▸ h e he

-- No more executions can have failed than there are.
theorem failuresSince_length_le (before c : Catalog) (id : Nat) :
    (before.failuresSince c id).length ≤ (c.runsOf id).length := by
  have hsub : (before.failuresSince c id).Sublist (c.runsOf id) := by
    have hdrop := (List.drop_sublist before.executions.length c.executions).filter
      (·.routineId == id)
    refine List.Sublist.trans ?_ hdrop
    have hboth : before.failuresSince c id = ((c.executions.drop before.executions.length).filter
        (·.routineId == id)).filter (·.failed) := by
      rw [List.filter_filter, failuresSince]
      refine List.filter_congr fun e _ => ?_
      rw [Bool.and_comm]
    rw [hboth]
    exact List.filter_sublist
  exact hsub.length_le

end Catalog

namespace Service

open Catalog

-- When the failures of a routine are counted anew: it has just been created, it has been resumed,
-- or a run of it has succeeded throughout.
inductive Resets (q : Request) (c c' : Catalog) (id : Nat) : Prop
  | created (h : ¬c.HasRoutine id) (h' : c'.HasRoutine id)
  | resumed {segment : String} (hq : Route.find q.method q.path = .ok (.resume segment))
      (hid : Request.checkNumber "routine_id" segment = .valid id) (h : c' ≠ c)
  | succeeded {e : ExecutionRecord} (h : c'.executions = c.executions ++ [e])
      (hid : e.routineId = id) (he : e.failed = false)

-- How a request counts for a routine that is there after it.
inductive Counting (q : Request) (c c' : Catalog) (r : RoutineRecord) : Prop
  | created (h : ¬c.HasRoutine r.id) (hruns : r.runs = 0) (hfailures : r.failures = 0)
      (he : c'.executions = c.executions)
  | kept {old : RoutineRecord} (hold : old ∈ c.routines) (hid : r.id = old.id)
      (hruns : r.runs = old.runs) (hfailures : r.failures = old.failures)
      (hreset : ¬Resets q c c' r.id)
      (he : c'.executions = c.executions ∨
        ∃ e, c'.executions = c.executions ++ [e] ∧ e.routineId ≠ r.id)
  | resumed {old : RoutineRecord} (hold : old ∈ c.routines) (hid : r.id = old.id)
      (hruns : r.runs = old.runs) (hfailures : r.failures = 0) (hreset : Resets q c c' r.id)
      (he : c'.executions = c.executions)
  | ran {old : RoutineRecord} {e : ExecutionRecord} (hold : old ∈ c.routines)
      (hid : r.id = old.id) (hruns : r.runs = old.runs + 1)
      (hfailures : r.failures = if e.failed then old.failures + 1 else 0)
      (hreset : Resets q c c' r.id ↔ e.failed = false)
      (he : c'.executions = c.executions ++ [e]) (her : e.routineId = r.id)

variable {q : Request} {c c' : Catalog} {r : RoutineRecord}

-- What counts for a routine that was there: nothing but a resumption and a success.
theorem not_resets {id : Nat} (hid : c.HasRoutine id)
    (hq : ∀ segment, Route.find q.method q.path = .ok (.resume segment) →
      Request.checkNumber "routine_id" segment = .valid (id : Int) → c' = c)
    (he : ∀ e, c'.executions = c.executions ++ [e] → e.routineId = id → e.failed = true) :
    ¬Resets q c c' id := by
  intro hreset
  cases hreset with
  | created h => exact h hid
  | resumed hroute hasked hne => exact hne (hq _ hroute hasked)
  | succeeded h hroutine hok => exact Bool.false_ne_true (hok.symm.trans (he _ h hroutine))

theorem counting_kept {old : RoutineRecord} (hold : old ∈ c.routines) (hid : r.id = old.id)
    (hruns : r.runs = old.runs) (hfailures : r.failures = old.failures)
    (hq : ∀ segment, Route.find q.method q.path = .ok (.resume segment) →
      Request.checkNumber "routine_id" segment = .valid (r.id : Int) → c' = c)
    (he : c'.executions = c.executions) : Counting q c c' r := by
  refine .kept hold hid hruns hfailures (not_resets ⟨old, hold, hid.symm⟩ hq ?_) (.inl he)
  intro e happended
  rw [he] at happended
  exact absurd (congrArg List.length happended) (by simp)

-- A routine that is left as it was keeps its counts.
theorem counting_left (hr : r ∈ c.routines)
    (hq : ∀ segment, Route.find q.method q.path ≠ .ok (.resume segment))
    (he : c'.executions = c.executions) : Counting q c c' r :=
  counting_kept hr rfl rfl rfl (fun segment hresume => absurd hresume (hq segment)) he

-- A request that leaves all counts of a routine leaves those of the others too.
theorem counting_put {old changed : RoutineRecord} (hold : c.routine? old.id = some old)
    (hid : changed.id = old.id) (hruns : changed.runs = old.runs)
    (hfailures : changed.failures = old.failures)
    (hq : ∀ segment, Route.find q.method q.path ≠ .ok (.resume segment))
    (hr : r ∈ (c.putRoutine changed).routines) : Counting q c (c.putRoutine changed) r := by
  rcases mem_putRoutine hr with rfl | ⟨hmem, -⟩
  · exact counting_kept (routine?_eq_some hold).1 hid hruns hfailures
      (fun segment hroute => absurd hroute (hq segment)) rfl
  · exact counting_left hmem hq rfl

theorem counting_resume {segment : String} {old changed : RoutineRecord}
    (hroute : Route.find q.method q.path = .ok (.resume segment)) (hold : Idle c segment old)
    (hid : changed.id = old.id) (hruns : changed.runs = old.runs) (hfailures : changed.failures = 0)
    (hr : r ∈ (c.putRoutine changed).routines) : Counting q c (c.putRoutine changed) r := by
  by_cases hsame : c.putRoutine changed = c
  · exact counting_kept (hsame ▸ hr) rfl rfl rfl (fun _ _ _ => hsame) rfl
  · rcases mem_putRoutine hr with rfl | ⟨hmem, hne⟩
    · exact .resumed (routine?_eq_some hold.stored).1 hid hruns hfailures
        (.resumed hroute (hid ▸ hold.asked) hsame) rfl
    · refine counting_kept hmem rfl rfl rfl (fun other hother hasked => ?_) rfl
      cases hroute.symm.trans hother
      have hsame : (old.id : Int) = r.id :=
        Validation.Checked.valid.inj (hold.asked.symm.trans hasked)
      omega

theorem counting_ran {segment : String} {old finished : RoutineRecord} {e : ExecutionRecord}
    {failed : Bool} {startedAt finishedAt : Int}
    (hroute : Route.find q.method q.path = .ok (.execute segment)) (hold : Idle c segment old)
    (h : old.finish failed startedAt finishedAt = .ok finished)
    (hroutines : c'.routines = (c.putRoutine finished).routines)
    (he : c'.executions = c.executions ++ [e]) (hfailed : e.failed = failed)
    (her : e.routineId = old.id) (hr : r ∈ c'.routines) : Counting q c c' r := by
  obtain ⟨hid, hruns, hfailures, -⟩ := RoutineRecord.finish_idle hold.idle h
  have hq : ∀ segment, Route.find q.method q.path = .ok (.resume segment) →
      Request.checkNumber "routine_id" segment = .valid (r.id : Int) → c' = c :=
    fun segment hresume => nomatch hroute.symm.trans hresume
  have hlast : ∀ e', c'.executions = c.executions ++ [e'] → e' = e := fun e' he' =>
    List.singleton_inj.mp (List.append_cancel_left (he'.symm.trans he))
  rw [hroutines] at hr
  rcases mem_putRoutine hr with rfl | ⟨hmem, hne⟩
  · have hmem := (routine?_eq_some hold.stored).1
    refine .ran hmem hid hruns (hfailed ▸ hfailures) ?_ he (her.trans hid.symm)
    refine ⟨fun hreset => ?_, .succeeded he (her.trans hid.symm)⟩
    refine Bool.eq_false_iff.mpr fun hbad => ?_
    refine not_resets ⟨old, hmem, hid.symm⟩ hq (fun e' he' _ => ?_) hreset
    rw [hlast e' he', hbad]
  · have hdiffers : e.routineId ≠ r.id := fun hsame =>
      hne (hsame.symm.trans (her.trans hid.symm))
    refine .kept hmem rfl rfl rfl (not_resets ⟨r, hmem, rfl⟩ hq fun e' he' hroutine => ?_)
      (.inr ⟨e, he, hdiffers⟩)
    rw [hlast e' he'] at hroutine
    exact absurd hroutine hdiffers

-- Without deletions each request counts for each routine in one of these ways.
theorem Change.counting {route : Route} (h : Change q c route c')
    (hroute : Route.find q.method q.path = .ok route) (hq : q.method ≠ "DELETE")
    (hr : r ∈ c'.routines) : Counting q c c' r := by
  have hother : (∀ segment, route ≠ .resume segment) →
      ∀ segment, Route.find q.method q.path ≠ .ok (.resume segment) :=
    fun hne segment hresume => hne segment (Except.ok.inj (hroute.symm.trans hresume))
  cases h with
  | stay => exact counting_kept hr rfl rfl rfl (fun _ _ _ => rfl) rfl
  | createScraper hs h =>
    have hsame := (addScraper_eq_ok h).2
    subst hsame
    exact counting_left hr (hother nofun) rfl
  | updateScraper =>
    exact counting_left hr (hother nofun) rfl
  | deleteScraper hdelete => exact absurd hdelete hq
  | createRoutine hs h =>
    obtain ⟨iterator, next, -, rfl⟩ := RoutineRecord.assign_eq_ok h
    rcases List.mem_append.mp hr with hold | hnew
    · exact counting_left hold (hother nofun) rfl
    · cases List.mem_singleton.mp hnew
      refine .created ?_ rfl rfl rfl
      rintro ⟨old, hold, hid⟩
      have hlt := lt_nextId (List.mem_map_of_mem (f := (·.id)) hold)
      exact absurd hid (Nat.ne_of_lt hlt)
  | updateRoutine hold hs h =>
    obtain ⟨iterator, next, -, rfl⟩ := RoutineRecord.assign_eq_ok h
    exact counting_put hold rfl rfl rfl (hother nofun) hr
  | deleteRoutine hdelete => exact absurd hdelete hq
  | pause hold h =>
    obtain ⟨next, -, rfl⟩ := RoutineRecord.reschedule_eq_ok h
    exact counting_put hold.stored rfl rfl rfl (hother nofun) hr
  | resume hold h =>
    obtain ⟨next, -, rfl⟩ := RoutineRecord.reschedule_eq_ok h
    exact counting_resume hroute hold rfl rfl rfl hr
  | execute hold h =>
    cases h with
    | missed => exact counting_left hr (hother nofun) rfl
    | failed => exact counting_put hold.stored rfl rfl rfl (hother nofun) hr
    | stranded => exact counting_put hold.stored rfl rfl rfl (hother nofun) hr
    | kept hs h hruns he her =>
      exact counting_ran hroute hold h rfl rfl (runsJson_any hruns) her hr

-- Without deletions executions keep their routines.
theorem Change.tied {route : Route} (h : Change q c route c') (hq : q.method ≠ "DELETE")
    (hc : c.Tied) : c'.Tied := by
  cases h with
  | createScraper hs h =>
    rw [(addScraper_eq_ok h).2]
    exact hc
  | deleteScraper hdelete | deleteRoutine hdelete => exact absurd hdelete hq
  | createRoutine =>
    intro e he
    obtain ⟨r, hr, hid⟩ := hc e he
    exact ⟨r, List.mem_append_left _ hr, hid⟩
  | stay | updateScraper => exact hc
  | updateRoutine | pause | resume =>
    exact fun e he => (hasRoutine_putRoutine _ _).mpr (hc e he)
  | execute hold h =>
    cases h with
    | missed => exact hc
    | failed | stranded => exact fun e he => (hasRoutine_putRoutine _ _).mpr (hc e he)
    | kept hs h hruns he her =>
      intro e' he'
      refine (hasRoutine_putRoutine _ _).mpr ?_
      rcases List.mem_append.mp he' with hkept | hnew
      · exact hc e' hkept
      · cases List.mem_singleton.mp hnew
        exact her ▸ hasRoutine_of_routine? hold.stored

variable {σ : Type} {res : Resources σ} {view : σ → Catalog} {s : σ}

-- The request at some time of a history resets the failures of a routine.
def ResetsAt (past : Catalog.History) (requests : List Request) (k id : Nat) : Prop :=
  ∃ q, requests[k]? = some q ∧ Resets q (past.catalog k) (past.catalog (k + 1)) id

-- The counts of a routine tell how many runs have been kept and how many of them have failed since
-- the last reset.
structure Counted (past : Catalog.History) (requests : List Request) (n : Nat)
    (r : RoutineRecord) : Prop where
  runs : r.runs = ((past.catalog n).runsOf r.id).length
  failures : ∃ k < n, ResetsAt past requests k r.id ∧
    (∀ j, k < j → j < n → ¬ResetsAt past requests j r.id) ∧
    r.failures = ((past.catalog (k + 1)).failuresSince (past.catalog n) r.id).length

section

variable {past : Catalog.History} {requests : List Request} {n : Nat} {old : RoutineRecord}

-- At a reset nothing has failed since.
theorem Counted.reset (hruns : r.runs = ((past.catalog (n + 1)).runsOf r.id).length)
    (hreset : ResetsAt past requests n r.id) (hfailures : r.failures = 0) :
    Counted past requests (n + 1) r := by
  refine ⟨hruns, n, by omega, hreset, by omega, ?_⟩
  rw [failuresSince_self, hfailures]
  rfl

-- Without one, what has failed is added to what had before.
theorem Counted.next (hold : Counted past requests n old) (hid : r.id = old.id)
    (hruns : r.runs = ((past.catalog (n + 1)).runsOf r.id).length)
    (hreset : ¬ResetsAt past requests n r.id) {d : Nat}
    (hmore : ∀ k < n, ((past.catalog (k + 1)).failuresSince (past.catalog (n + 1)) r.id).length =
      ((past.catalog (k + 1)).failuresSince (past.catalog n) r.id).length + d)
    (hfailures : r.failures = old.failures + d) : Counted past requests (n + 1) r := by
  obtain ⟨k, hk, hbefore, hnone, hcount⟩ := hold.failures
  rw [← hid] at hbefore hnone hcount
  refine ⟨hruns, k, by omega, hbefore, fun j hj hjn => ?_, ?_⟩
  · rcases Nat.lt_or_ge j n with hlt | hge
    · exact hnone j hj hlt
    · rwa [show j = n by omega]
  · rw [hmore k hk, hfailures, hcount]
    push_cast
    rfl

end

section

variable (h : res.Lawful view) {requests : List Request}
  (hdelete : ∀ q ∈ requests, q.method ≠ "DELETE")
include h hdelete

theorem history_tied (hs : (view s).executions = []) (n : Nat) (hn : n ≤ requests.length) :
    ((history res view s requests).catalog n).Tied := by
  induction n with
  | zero =>
    intro e he
    rw [show ((history res view s requests).catalog 0).executions = [] from hs] at he
    cases he
  | succ n ih =>
    obtain hsame | ⟨route, -, hchange⟩ := history_changes h requests n hn
    · rw [hsame]
      exact ih (by omega)
    · exact hchange.tied (hdelete _ (List.getElem_mem hn)) (ih (by omega))

theorem history_counting (n : Nat) (hn : n < requests.length) {r : RoutineRecord}
    (hr : r ∈ ((history res view s requests).catalog (n + 1)).routines) :
    Counting requests[n] ((history res view s requests).catalog n)
      ((history res view s requests).catalog (n + 1)) r := by
  obtain hsame | ⟨route, hroute, hchange⟩ := history_changes h requests n hn
  · rw [hsame] at hr ⊢
    exact counting_kept hr rfl rfl rfl (fun _ _ _ => rfl) rfl
  · exact hchange.counting hroute (hdelete _ (List.getElem_mem hn)) hr

theorem history_counted (hs : (view s).routines = []) (he : (view s).executions = []) (n : Nat)
    (hn : n ≤ requests.length) :
    ∀ r ∈ ((history res view s requests).catalog n).routines,
      Counted (history res view s requests) requests n r := by
  induction n with
  | zero =>
    intro r hr
    rw [show ((history res view s requests).catalog 0).routines = [] from hs] at hr
    cases hr
  | succ n ih =>
    intro r hr
    have hlast : ∀ id, ResetsAt (history res view s requests) requests n id ↔
        Resets requests[n] ((history res view s requests).catalog n)
          ((history res view s requests).catalog (n + 1)) id := by
      intro id
      simp [ResetsAt, List.getElem?_eq_getElem hn]
    have htied := history_tied h hdelete he n (by omega)
    have hlength : ∀ k < n, ((history res view s requests).catalog (k + 1)).executions.length ≤
        ((history res view s requests).catalog n).executions.length := by
      intro k hk
      refine (History.executions_extended (n := n) (fun j hj => ?_) (by omega)).length_le
      exact history_moves h requests j (by omega)
    cases history_counting h hdelete n hn hr with
    | created habsent hruns hfailures hsame =>
      refine .reset ?_ ((hlast _).mpr (.created habsent ⟨r, hr, rfl⟩)) hfailures
      rw [hruns, runsOf, hsame, ← runsOf, runsOf_eq_nil htied habsent]
      rfl
    | @kept old hold hid hruns hfailures hreset hothers =>
      have hnone := mt (hlast _).mp hreset
      have hcounted := ih (by omega) old hold
      have hbefore : r.runs =
          (((history res view s requests).catalog n).runsOf r.id).length := by
        rw [hruns, hcounted.runs, hid]
      rcases hothers with hsame | ⟨e, hadded, hother⟩
      · refine hcounted.next (d := 0) hid ?_ hnone (fun k hk => ?_) (by omega)
        · rw [hbefore, runsOf, runsOf, hsame]
        · rw [failuresSince, failuresSince, hsame]
          rfl
      · refine hcounted.next (d := 0) hid ?_ hnone (fun k hk => ?_) (by omega)
        · rw [hbefore, runsOf_append hadded, if_neg hother, List.append_nil]
        · rw [failuresSince_append (hlength k hk) hadded, if_neg (fun hboth => hother hboth.1),
            List.append_nil]
          rfl
    | @resumed old hold hid hruns hfailures hreset hsame =>
      have hcounted := ih (by omega) old hold
      refine .reset ?_ ((hlast _).mpr hreset) hfailures
      rw [hruns, hcounted.runs, runsOf, runsOf, hsame, hid]
    | @ran old e hold hid hruns hfailures hreset hadded hroutine =>
      have hcounted := ih (by omega) old hold
      have hnow : r.runs =
          (((history res view s requests).catalog (n + 1)).runsOf r.id).length := by
        rw [hruns, hcounted.runs, runsOf_append hadded, if_pos hroutine, hid]
        simp
      cases hfailed : e.failed with
      | false =>
        rw [hfailed] at hfailures
        exact .reset hnow ((hlast _).mpr (hreset.mpr hfailed)) hfailures
      | true =>
        rw [hfailed] at hfailures
        have hnone : ¬ResetsAt (history res view s requests) requests n r.id := by
          rw [hlast, hreset, hfailed]
          exact Bool.noConfusion
        refine hcounted.next (d := 1) hid hnow hnone (fun k hk => ?_) hfailures
        rw [failuresSince_append (hlength k hk) hadded, if_pos ⟨hroutine, hfailed⟩]
        simp

end

-- What comes of the execution of a routine. If it is kept the routine has its status as before,
-- unless too many runs have failed then. Otherwise nothing has changed, if the routine is not
-- stranded.
inductive Executed (c c' : Catalog) (r : RoutineRecord) : Prop
  | kept {e : ExecutionRecord} {r' : RoutineRecord} (he : c'.executions = c.executions ++ [e])
      (her : e.routineId = r.id) (hr : c'.routine? r.id = some r') (hruns : r'.runs = r.runs + 1)
      (hfailures : r'.failures = if e.failed then r.failures + 1 else 0)
      (hstatus : r'.status = if e.failed && r.failureLimit.any (· ≤ r'.failures) then
        Status.pausedByFailures.name else r.status)
  | nothing (he : c'.executions = c.executions) (hr : c'.routine? r.id = some r)
  | stranded (h : Strands c c')

theorem Change.executed {segment : String} (h : Change q c (.execute segment) c')
    (hasked : Request.checkNumber "routine_id" segment = .valid (r.id : Int))
    (hr : c.routine? r.id = some r) : Executed c c' r := by
  cases h with
  | stay => exact .nothing rfl hr
  | @execute _ old _ hold h =>
    have hid : (old.id : Int) = r.id :=
      Validation.Checked.valid.inj (hold.asked.symm.trans hasked)
    obtain rfl : old = r := Option.some.inj (hold.stored.symm.trans (hid ▸ hr))
    cases h with
    | missed => exact .nothing rfl hr
    | failed => exact .nothing rfl (routine?_putRoutine hr rfl)
    | stranded => exact .stranded ⟨old, hr, hold.idle, rfl⟩
    | @kept finished e runs _ _ hs h hruns he her =>
      obtain ⟨hsame, hcount, hfailures, hstatus⟩ := RoutineRecord.finish_idle hold.idle h
      have hfailed : ∀ id, ({ e with id } : ExecutionRecord).failed = runs.any (·.failed) :=
        fun _ => runsJson_any hruns
      refine .kept rfl her (routine?_putRoutine hr hsame) hcount ?_ ?_
      · rw [hfailed, hfailures]
      · rw [hfailed, hstatus, hfailures]
        cases runs.any (·.failed) <;> rfl

section

variable (h : res.Lawful view) {requests : List Request}
include h

theorem history_executed {k : Nat} (hk : k < requests.length)
    (hq : (history res view s requests).executed k = some (r.id : Int))
    (hr : ((history res view s requests).catalog k).routine? r.id = some r) :
    Executed ((history res view s requests).catalog k)
      ((history res view s requests).catalog (k + 1)) r := by
  have hq : requests[k].executed? = some (r.id : Int) := by
    simpa [history, List.getElem?_eq_getElem hk] using hq
  obtain ⟨segment, hexecute, hasked⟩ := Request.executed?_eq_some hq
  obtain hsame | ⟨route, hroute, hchange⟩ := history_changes h requests k hk
  · rw [hsame]
    exact .nothing rfl hr
  · cases hexecute.symm.trans hroute
    exact hchange.executed hasked hr

-- In a history without deletions that starts with nothing the counts of each routine are right at
-- all times, and an execution changes its status and its counts in the way they are meant to.
theorem routines_counted (hs : (view s).routines = []) (he : (view s).executions = [])
    (hdelete : ∀ q ∈ requests, q.method ≠ "DELETE") :
    let past := history res view s requests
    (∀ n ≤ requests.length, ∀ r ∈ (past.catalog n).routines,
      Counted past requests n r ∧ 0 ≤ r.failures ∧ r.failures ≤ r.runs) ∧
    ∀ k < requests.length, ∀ r : RoutineRecord, past.executed k = some (r.id : Int) →
      (past.catalog k).routine? r.id = some r →
      Executed (past.catalog k) (past.catalog (k + 1)) r := by
  refine ⟨fun n hn r hr => ?_, fun k hk r hq hr => history_executed h hk hq hr⟩
  have hcounted := history_counted h hdelete hs he n hn r hr
  obtain ⟨k, -, -, -, hfailures⟩ := hcounted.failures
  have hmost := failuresSince_length_le ((history res view s requests).catalog (k + 1))
    ((history res view s requests).catalog n) r.id
  refine ⟨hcounted, ?_, ?_⟩
  · omega
  · rw [hfailures, hcounted.runs]
    exact Int.ofNat_le.mpr hmost

end

-- Up to the first run.
theorem routines_counted_firstRun :
    (Rehearsal.resources {}).Lawful Rehearsal.World.catalog ∧
    (Rehearsal.World.catalog {}).routines = [] ∧ (Rehearsal.World.catalog {}).executions = [] ∧
    (∀ q ∈ reusedNumber.take 3, q.method ≠ "DELETE") ∧
    ((rehearsed (reusedNumber.take 3)).catalog 3).routines.map (·.runs) = [1] ∧
    ∀ r ∈ ((rehearsed (reusedNumber.take 3)).catalog 3).routines,
      Counted (rehearsed (reusedNumber.take 3)) (reusedNumber.take 3) 3 r := by
  have hdelete : ∀ q ∈ reusedNumber.take 3, q.method ≠ "DELETE" := by
    decide
  have hruns : ((rehearsed (reusedNumber.take 3)).catalog 3).routines.map (·.runs) = [1] := by
    decide +kernel
  refine ⟨Rehearsal.resources_lawful {}, rfl, rfl, hdelete, hruns, fun r hr => ?_⟩
  have hpast := (routines_counted (s := {}) (Rehearsal.resources_lawful {}) rfl rfl hdelete).1
  exact (hpast 3 (Nat.le_refl 3) r hr).1

-- An execution that raises leaves another status behind than the routine had.
theorem not_counted_rareRun :
    (respond (Rehearsal.resources {}) { method := "POST", path := "/routines/1/execute" }
      (after (Rehearsal.resources {}) {} (rareRun.take 2))).1.toOption = none ∧
    ((rehearsed rareRun).catalog 3).executions.map (·.id) = [] ∧
    ((rehearsed rareRun).catalog 2).routines.map (·.status) = [Status.active.name] ∧
    ((rehearsed rareRun).catalog 3).routines.map (·.status) = [Status.executing.name] := by
  decide +kernel

end Service

end Gleaner
