import Gleaner.Proofs.Service.Handling

namespace Gleaner.Service

open Catalog

variable {σ α : Type}

-- What the service works with is in order: the keeper keeps the catalog, and nothing else touches
-- it. In particular the data of scrapers are kept elsewhere.
structure Resources.Lawful (res : Resources σ) (view : σ → Catalog) : Prop where
  keeper : res.keeper.Shows view
  launcher : res.launcher.Leaves view
  pages : ∀ browser, (res.pages browser).Leaves view
  warehouse : ∀ sources, (res.warehouse sources).Leaves view
  environment : ∀ {pages store}, pages.Leaves view → store.Leaves view →
    (res.environment pages store).Leaves view
  now : Passes view res.now

variable {res : Resources σ} {view : σ → Catalog} (h : res.Lawful view) {c : Catalog}
include h

theorem reads_catalog : Reads view c (catalog res) fun found => found = c where
  leaves s hs := (h.keeper.looking s).trans hs
  result := by
    rintro s hs _ ⟨⟩
    exact (h.keeper.catalog s).trans hs
  refusal := by rintro s - _ ⟨⟩

omit h in
theorem answers_catalog : Answers view c (catalog res) := fun _ _ => ⟨_, rfl⟩

theorem reads_now : Reads view c (now res) fun _ => True := reads_lift (leaves_lift h.now)

theorem leads_change {P : Catalog → Prop} {f : Catalog → Except Failure (Catalog × α)} (hP : P c)
    (hf : ∀ c' a, f c = .ok (c', a) → P c') : Leads view c (change res f) P :=
  leads_lift (yields_change h.keeper hP hf)

theorem leads_change_of_ok {P : Catalog → Prop} {f : Catalog → Except Failure (Catalog × α)}
    {c' : Catalog} {a : α} (hf : f c = .ok (c', a)) (hP : P c') : Leads view c (change res f) P :=
  leads_lift (yields_change_of_ok h.keeper hf hP)

theorem reads_findScraper (id : Int) :
    Reads view c (findScraper res id) fun s => c.scraper? id = some s := by
  refine reads_bind (reads_storable id) fun _ _ => ?_
  refine reads_bind (reads_catalog h) fun found hfound => ?_
  subst hfound
  cases hs : found.scraper? id with
  | none => exact reads_throw (.of_status rfl)
  | some s => exact reads_pure rfl

theorem answers_findScraper {id : Int} (hid : Sql.fitsInteger id = true) :
    Answers view c (findScraper res id) := by
  have hstorable : Answers view c (storable (σ := σ) id) := by
    rw [storable, if_pos hid]
    exact answers_pure ()
  refine answers_bind (reads_storable id) hstorable fun _ _ => ?_
  refine answers_bind (reads_catalog h) answers_catalog fun found _ => ?_
  cases found.scraper? id with
  | none => exact answers_throw _
  | some s => exact answers_pure s

theorem reads_findRoutine (id : Int) :
    Reads view c (findRoutine res id) fun r => id = r.id ∧ c.routine? r.id = some r := by
  refine reads_bind (reads_storable id) fun _ _ => ?_
  refine reads_bind (reads_catalog h) fun found hfound => ?_
  subst hfound
  cases hr : found.routine? id with
  | none => exact reads_throw (.of_status rfl)
  | some r =>
    have hid := (routine?_eq_some hr).2
    exact reads_pure ⟨hid.symm, hid ▸ hr⟩

omit h in
theorem reads_scraperBody (r : ScraperRecord) :
    Reads view c (scraperBody (σ := σ) r) fun _ => True :=
  reads_bind (reads_orFailure _) fun _ _ => reads_pure trivial

theorem reads_routineBody (r : RoutineRecord) : Reads view c (routineBody res r) fun _ => True :=
  reads_bind (reads_catalog h) fun _ _ =>
    reads_bind (reads_orFailure _) fun _ _ => reads_pure trivial

-- How an execution is shown.
def Shows (e : ExecutionRecord) (v : Value) : Prop :=
  ∃ shown, e.view = .ok shown ∧ v = shown.document.toValue .full

omit h in
theorem reads_executionBody (e : ExecutionRecord) :
    Reads view c (executionBody (σ := σ) e) (Shows e) :=
  reads_bind (reads_orFailure _) fun shown hshown => reads_pure ⟨shown, hshown, rfl⟩

-- It comes to an end only if the scraper can be taken for the number.
theorem reads_checkScraper (s : Scraper) (id : Nat) :
    Reads view c (checkScraper res s id) fun _ => Fits c s id := by
  have hname (haliases : (s.dataSources.map (·.name)).Nodup) : Reads view c (do
      if (← catalog res).isNameTaken s.name id then throw (.conflict "Scraper name already in use")
      ) fun _ => Fits c s id := by
    refine reads_bind (reads_catalog h) fun found hfound => ?_
    subst hfound
    split
    · exact reads_throw (.of_status rfl)
    · next hfree => exact reads_pure ⟨haliases, Bool.eq_false_iff.mpr hfree⟩
  unfold checkScraper
  split
  · exact reads_bind (reads_throw (.of_status rfl) (Q := fun _ => False)) nofun
  · next haliases => exact hname (by simpa using haliases)

theorem answers_checkScraper (s : Scraper) (id : Nat) :
    Answers view c (checkScraper res s id) := by
  have hname : Answers view c (do
      if (← catalog res).isNameTaken s.name id then throw (.conflict "Scraper name already in use")
      ) := by
    refine answers_bind (reads_catalog h) answers_catalog fun found _ => ?_
    split
    · exact answers_throw _
    · exact answers_pure ()
  unfold checkScraper
  split
  · exact answers_bind (reads_throw (.of_status rfl) (Q := fun _ => True)) (answers_throw _)
      fun _ _ => hname
  · exact hname

theorem leads_createScraper (q : Request) :
    Leads view c (createScraper res q) (Change q c .scrapers) := by
  refine leads_bind (reads_checkedBody _ _) .stay fun s hs => ?_
  refine leads_bind (reads_checkScraper h s 0) .stay fun _ hfits => ?_
  refine leads_bind_last (leads_change h .stay fun c' r hr => .createScraper hs hr hfits)
    fun r _ => ?_
  exact reads_bind (reads_scraperBody r) fun _ _ => reads_pure trivial

theorem leads_updateScraper (q : Request) (segment : String) :
    Leads view c (updateScraper res q segment) (Change q c (.scraper segment)) := by
  refine leads_bind (reads_checkedNumberAndBody _ _ _ _) .stay fun asked hasked => ?_
  refine leads_bind (reads_findScraper h _) .stay fun found hfound => ?_
  refine leads_bind (reads_checkScraper h _ _) .stay fun _ hfits => ?_
  refine leads_bind (reads_orFailure _) .stay fun record hrecord => ?_
  refine leads_bind_last (leads_change h .stay ?_) fun _ _ => ?_
  · intro c' _ hreplaced
    obtain ⟨-, rfl⟩ := replaceScraper_eq_ok.mp hreplaced
    obtain ⟨-, hnumber⟩ := scraper?_eq_some hfound
    exact .updateScraper hasked.2 (hnumber ▸ hasked.1) (hnumber ▸ hfound) hrecord hfits
  · exact reads_bind (reads_scraperBody record) fun _ _ => reads_pure trivial

theorem leads_deleteScraper (q : Request) (hq : q.method = "DELETE") (segment : String) :
    Leads view c (deleteScraper res segment) (Change q c (.scraper segment)) := by
  refine leads_bind (reads_orUnprocessable _) .stay fun id _ => ?_
  refine leads_bind (reads_findScraper h id) .stay fun found hfound => ?_
  refine leads_bind_last (leads_change h .stay ?_) fun _ _ => reads_pure trivial
  rintro c' _ ⟨⟩
  exact .deleteScraper hq ⟨found, (scraper?_eq_some hfound).1, rfl⟩

theorem leads_createRoutine (q : Request) :
    Leads view c (createRoutine res q) (Change q c .routines) := by
  refine leads_bind (reads_checkedBody _ _) .stay fun draft hdraft => ?_
  refine leads_bind (reads_discard (reads_findScraper h _)) .stay fun _ hscraper => ?_
  refine leads_bind (reads_now h) .stay fun now _ => ?_
  refine leads_bind_last (leads_change h .stay ?_) fun _ _ => ?_
  · intro c' kept hf
    cases hassign : RoutineRecord.assign { createdAt := now } draft now with
    | error e =>
      rw [hassign] at hf
      cases hf
    | ok r =>
      rw [hassign] at hf
      cases hf
      obtain ⟨found, hfound⟩ := hscraper
      exact .createRoutine (hasScraper_of_scraper? hfound) hassign hdraft
  · exact reads_bind (reads_routineBody h _) fun _ _ => reads_pure trivial

theorem leads_putRoutine {f : RoutineRecord → Except Failure RoutineRecord}
    {r : RoutineRecord} {P : Catalog → Prop} (hP : P c)
    (hf : ∀ r' : RoutineRecord, f r = .ok r' → P (c.putRoutine r')) :
    Leads view c (putRoutine res f r) P := by
  refine leads_bind_last (leads_change h hP ?_) fun _ _ => ?_
  · intro c' kept hchange
    cases hfr : f r with
    | error e =>
      rw [hfr] at hchange
      cases hchange
    | ok r' =>
      rw [hfr] at hchange
      cases hchange
      exact hf kept hfr
  · exact reads_bind (reads_routineBody h _) fun _ _ => reads_pure trivial

theorem leads_updateRoutine (q : Request) (segment : String) :
    Leads view c (updateRoutine res q segment) (Change q c (.routine segment)) := by
  refine leads_bind (reads_checkedNumberAndBody _ _ _ _) .stay fun asked hasked => ?_
  refine leads_bind (reads_findRoutine h _) .stay fun record hrecord => ?_
  refine leads_bind (reads_discard (reads_findScraper h _)) .stay fun _ hscraper => ?_
  refine leads_bind (reads_now h) .stay fun now _ => ?_
  obtain ⟨found, hfound⟩ := hscraper
  exact leads_putRoutine h .stay fun r' hassign =>
    .updateRoutine hrecord.2 (hasScraper_of_scraper? hfound) hassign hasked.2

theorem leads_deleteRoutine (q : Request) (hq : q.method = "DELETE") (segment : String) :
    Leads view c (deleteRoutine res segment) (Change q c (.routine segment)) := by
  refine leads_bind (reads_orUnprocessable _) .stay fun id _ => ?_
  refine leads_bind (reads_findRoutine h id) .stay fun r hr => ?_
  refine leads_bind_last (leads_change h .stay ?_) fun _ _ => reads_pure trivial
  rintro c' _ ⟨⟩
  exact .deleteRoutine hq (hasRoutine_of_routine? hr.2)

theorem reads_idleRoutine (segment : String) :
    Reads view c (idleRoutine res segment) (Idle c segment) := by
  refine reads_bind (reads_orUnprocessable _) fun id hid => ?_
  refine reads_bind (reads_findRoutine h id) fun r hr => ?_
  cases hidle : r.isExecuting with
  | true => exact reads_bind (reads_throw (.of_status rfl) (Q := fun _ => False)) nofun
  | false => exact reads_pure ⟨hr.1 ▸ hid, hr.2, hidle⟩

theorem leads_pauseRoutine (q : Request) (segment : String) :
    Leads view c (pauseRoutine res segment) (Change q c (.pause segment)) := by
  refine leads_bind (reads_idleRoutine h segment) .stay fun r hr => ?_
  refine leads_bind (reads_now h) .stay fun now _ => ?_
  exact leads_putRoutine h .stay fun r' hf => .pause hr hf

theorem leads_resumeRoutine (q : Request) (segment : String) :
    Leads view c (resumeRoutine res segment) (Change q c (.resume segment)) := by
  refine leads_bind (reads_idleRoutine h segment) .stay fun r hr => ?_
  refine leads_bind (reads_now h) .stay fun now _ => ?_
  exact leads_putRoutine h .stay fun r' hf => .resume hr hf

omit h in
theorem leads_orBadRequest {P : Catalog → Prop} {work : Effect σ α} (hw : Yields view c work P) :
    Leads view c (orBadRequest work) P := by
  have hattempt : Yields view c work.attempt P := hw
  refine leads_bind_last (leads_lift hattempt) fun outcome _ => ?_
  cases outcome with
  | ok a => exact reads_pure trivial
  | error e =>
    dsimp only
    split
    · exact reads_throw (.of_status rfl)
    · exact (reads_orFailure _).mono fun _ _ => trivial

theorem leads_executeNow (q : Request) (segment : String) :
    Leads view c (executeNow res segment) (Change q c (.execute segment)) := by
  refine leads_bind (reads_idleRoutine h segment) .stay fun r hr => ?_
  refine leads_bind (reads_catalog h) .stay fun found _ => ?_
  have hhost : ∀ sources browser, Host.Leaves
      ⟨res.warehouse sources, res.environment (res.pages browser)⟩ view := fun sources browser =>
    ⟨h.warehouse sources, fun context =>
      h.environment (h.pages browser) ((h.warehouse sources).boundTo context)⟩
  refine leads_bind_last (leads_orBadRequest ?_) fun execution _ => ?_
  · refine Browser.yields_within h.launcher .stay fun browser => ?_
    exact fun s hs => .execute hr (yields_executeRoutine h.keeper (hhost _ browser) _ none s hs)
  · exact reads_bind (reads_executionBody execution) fun _ _ => reads_pure trivial

theorem reads_listScrapers (q : Request) : Reads view c (listScrapers res q) fun _ => True := by
  refine reads_bind (reads_orUnprocessable _) fun asked _ => ?_
  refine reads_bind (reads_storable _) fun _ _ => ?_
  refine reads_bind (reads_catalog h) fun found _ => ?_
  exact reads_bind (reads_bodies reads_scraperBody _) fun _ _ => reads_pure trivial

-- An answer that lists executions: those of the scraper with the number in the path, the latest
-- first, from some place on and up to some number.
structure ListsExecutions (q : Request) (segment : String) (c : Catalog) (s : ScraperRecord)
    (skip limit : Int) (shown : List Value) : Prop where
  askedId : Request.checkNumber "scraper_id" segment = .valid s.id
  stored : s ∈ c.scrapers
  askedSkip : q.checkParameter "skip" 0 (Validation.atLeast 0) = .valid skip
  askedLimit : q.checkParameter "limit" 20 (Validation.between 1 100) = .valid limit
  page : List.Forall₂ Shows (((c.executionsOf s.id).drop skip.toNat).take limit.toNat) shown

omit h in
-- Without parameters the last twenty are shown.
theorem ListsExecutions.page_default {q : Request} {segment : String} {s : ScraperRecord}
    {skip limit : Int} {shown : List Value}
    (hl : ListsExecutions q segment c s skip limit shown) (hq : q.parameters = []) :
    List.Forall₂ Shows ((c.executionsOf s.id).take 20) shown := by
  have hskip := hl.askedSkip
  have hlimit := hl.askedLimit
  have hpage := hl.page
  rw [Request.checkParameter, hq] at hskip hlimit
  cases hskip
  cases hlimit
  exact hpage

theorem reads_listExecutions (q : Request) (segment : String) :
    Reads view c (listExecutions res q segment) fun answer =>
      ∃ s skip limit shown, answer = .ok (.list shown) ∧
        ListsExecutions q segment c s skip limit shown := by
  refine reads_bind (reads_orUnprocessable _) fun asked hasked => ?_
  obtain ⟨_, limit, hpair, hlimit, rfl⟩ := Validation.Checked.ap_eq_valid hasked
  obtain ⟨_, skip, hfirst, hskip, rfl⟩ := Validation.Checked.ap_eq_valid hpair
  obtain ⟨id, hid, rfl⟩ := Validation.Checked.map_eq_valid hfirst
  refine reads_bind (reads_findScraper h _) fun record hrecord => ?_
  refine reads_bind (reads_storable _) fun _ _ => ?_
  refine reads_bind (reads_catalog h) fun found hfound => ?_
  subst hfound
  obtain ⟨hmem, hnumber⟩ := scraper?_eq_some hrecord
  refine reads_bind (reads_bodies reads_executionBody _) fun shown hshown => ?_
  exact reads_pure ⟨record, skip, limit, shown, rfl, hnumber ▸ hid, hmem, hskip, hlimit, hshown⟩

theorem reads_listRoutines (q : Request) : Reads view c (listRoutines res q) fun _ => True := by
  refine reads_bind (reads_orUnprocessable _) fun asked _ => ?_
  refine reads_bind (reads_storable _) fun _ _ => ?_
  refine reads_bind (reads_catalog h) fun found _ => ?_
  exact reads_bind (reads_bodies (reads_routineBody h) _) fun _ _ => reads_pure trivial

theorem leads_previewPlan {P : Catalog → Prop} (hP : P c) (q : Request) :
    Leads view c (previewPlan res q) P := by
  refine leads_bind (reads_checkedBody _ _) hP fun request _ => ?_
  refine leads_bind_last (leads_orBadRequest (yields_of_leaves ?_ hP)) fun _ _ => reads_pure trivial
  refine leaves_bind (leaves_ofExcept _ _) fun sql => ?_
  exact leaves_bind (leaves_preview (h.warehouse _) _ _) fun _ => leaves_pure _

theorem reads_showScraper (segment : String) :
    Reads view c (showScraper res segment) fun _ => True := by
  refine reads_bind (reads_orUnprocessable _) fun id _ => ?_
  refine reads_bind (reads_findScraper h id) fun record _ => ?_
  exact reads_bind (reads_scraperBody record) fun _ _ => reads_pure trivial

theorem reads_showRoutine (segment : String) :
    Reads view c (showRoutine res segment) fun _ => True := by
  refine reads_bind (reads_orUnprocessable _) fun id _ => ?_
  refine reads_bind (reads_findRoutine h id) fun record _ => ?_
  exact reads_bind (reads_routineBody h record) fun _ _ => reads_pure trivial

omit h in
theorem leads_ite {P : Catalog → Prop} {asked : Prop} [Decidable asked] {work other : Handling σ α}
    (hw : asked → Leads view c work P) (ho : Leads view c other P) :
    Leads view c (if asked then work else other) P := by
  split
  · next h => exact hw h
  · exact ho

theorem leads_dispatch (q : Request) (route : Route) :
    Leads view c (dispatch res q route) (Change q c route) := by
  cases route with
  | health => exact leads_of_reads (reads_pure (Q := fun _ => True) trivial) .stay
  | scrapers =>
    exact leads_ite (fun _ => leads_createScraper h q)
      (leads_of_reads (reads_listScrapers h q) .stay)
  | scraper id =>
    exact leads_ite (fun _ => leads_updateScraper h q id)
      (leads_ite (fun hq => leads_deleteScraper h q hq id)
        (leads_of_reads (reads_showScraper h id) .stay))
  | executions id => exact leads_of_reads (reads_listExecutions h q id) .stay
  | routines =>
    exact leads_ite (fun _ => leads_createRoutine h q)
      (leads_of_reads (reads_listRoutines h q) .stay)
  | preview => exact leads_previewPlan h .stay q
  | routine id =>
    exact leads_ite (fun _ => leads_updateRoutine h q id)
      (leads_ite (fun hq => leads_deleteRoutine h q hq id)
        (leads_of_reads (reads_showRoutine h id) .stay))
  | pause id => exact leads_pauseRoutine h q id
  | resume id => exact leads_resumeRoutine h q id
  | execute id => exact leads_executeNow h q id

-- What a request comes to before it is known whether it is answered.
def handled (res : Resources σ) (q : Request) : Handling σ Response := do
  dispatch res q (← answered (Route.find q.method q.path))

omit h in
theorem handled_of_route {q : Request} {route : Route}
    (hroute : Route.find q.method q.path = .ok route) : handled res q = dispatch res q route := by
  rw [handled, hroute]
  exact pure_bind _ _

-- A request changes the catalog in the way of its route, however it is answered.
theorem respond_change (q : Request) (s : σ) :
    view (respond res q s).2 = view s ∨
      ∃ route, Route.find q.method q.path = .ok route ∧
        Change q (view s) route (view (respond res q s).2) := by
  have hhandled : Leads view (view s) (handled res q) fun c => c = view s ∨
      ∃ route, Route.find q.method q.path = .ok route ∧ Change q (view s) route c := by
    refine leads_bind (reads_answered fun _ => Route.find_isRefusal) (.inl rfl) fun route hroute => ?_
    exact fun t ht => .inr ⟨route, hroute, leads_dispatch h q route t ht⟩
  have hrun : Yields view (view s) (ExceptT.run (handled res q)) fun c => c = view s ∨
      ∃ route, Route.find q.method q.path = .ok route ∧ Change q (view s) route c := hhandled
  refine yields_bind_last hrun (fun outcome => ?_) s rfl
  cases outcome with
  | ok response => exact leaves_pure response
  | error response => exact leaves_pure response

omit h in
-- What cuts some work short is an answer like any other.
theorem respond_apply (q : Request) (s : σ) :
    respond res q s =
      ((handled res q s).1.map fun | .ok answer | .error answer => answer,
        (handled res q s).2) := by
  have hrun : (do dispatch res q (← answered (Route.find q.method q.path))).run s =
      handled res q s := rfl
  unfold respond
  rw [Effect.bind_apply, hrun]
  rcases handled res q s with ⟨e | ⟨r | a⟩, t⟩ <;> rfl

omit h in
theorem respond_eq_ok {q : Request} {s : σ} {answer : Response}
    (hanswer : (respond res q s).1 = .ok answer) :
    (handled res q s).1 = .ok (.ok answer) ∨ (handled res q s).1 = .ok (.error answer) := by
  rw [respond_apply] at hanswer
  rcases hhandled : (handled res q s).1 with e | ⟨r | a⟩ <;> rw [hhandled] at hanswer <;>
    cases hanswer
  · exact .inr rfl
  · exact .inl rfl

-- A request that is answered with a refusal.
def Refused (res : Resources σ) (q : Request) (s : σ) : Prop :=
  ∃ answer, (respond res q s).1 = .ok answer ∧ answer.IsRefusal

omit h in
theorem respond_settles {q : Request} {route : Route}
    (hroute : Route.find q.method q.path = .ok route) {s : σ} {P : Catalog → Prop}
    (hwork : Settles view (view s) (dispatch res q route) P) :
    Refused res q s ∨ P (view (respond res q s).2) := by
  rw [Refused, respond_apply, handled_of_route hroute]
  rcases hwork s rfl with ⟨answer, hanswer, hrefusal⟩ | hP
  · refine .inl ⟨answer, ?_, hrefusal⟩
    rw [hanswer]
    rfl
  · exact .inr hP

-- What the executions of a scraper are answered with, unless that is refused.
theorem respond_executions {q : Request} {segment : String}
    (hroute : Route.find q.method q.path = .ok (.executions segment)) {s : σ} {answer : Response}
    (hanswer : (respond res q s).1 = .ok answer) (hstatus : ¬answer.IsRefusal) :
    ∃ scraper skip limit shown, answer = .ok (.list shown) ∧
      ListsExecutions q segment (view s) scraper skip limit shown := by
  have hhandled : Reads view (view s) (handled res q) fun answer =>
      ∃ scraper skip limit shown, answer = .ok (.list shown) ∧
        ListsExecutions q segment (view s) scraper skip limit shown := by
    refine reads_bind (reads_answered fun _ => Route.find_isRefusal) fun route hfound => ?_
    cases hroute.symm.trans hfound
    exact reads_listExecutions h q segment
  rcases respond_eq_ok hanswer with hdone | hrefused
  · exact hhandled.result s rfl answer hdone
  · exact absurd (hhandled.refusal s rfl answer hrefused) hstatus

end Gleaner.Service
