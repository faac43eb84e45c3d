import Gleaner.Proofs.Catalog.Records
import Gleaner.Proofs.Service.Moves
import Mathlib.Logic.Function.Iterate

namespace Gleaner.Service

-- The request to execute a routine, cut where the service may turn to other requests: when a
-- browser is waited for and while the scraper runs. What has been read of a routine stays what it
-- was, until the routine is first written.

-- How far the request has come. A routine that has been loaded is remembered as it was then; from
-- the first time it is written on it is the one that was stored, but for its status.
inductive Progress (σ : Type)
  | asked
  | loaded (r : RoutineRecord) (sources : List (String × String))
  | ready (r : RoutineRecord) (host : Host σ)
  | begun (r : RoutineRecord) (host : Host σ) (scraper : ScraperRecord) (startedAt : Int)
  | ran (r : RoutineRecord) (host : Host σ) (startedAt : Int)
      (outcome : Except Failure (List IterationRecord))
  | ended (answer : Except Failure Response)

def Progress.isOver {σ : Type} : Progress σ → Bool
  | ended _ => true
  | _ => false

section

variable {σ : Type} (res : Resources σ)

def loadRoutine (segment : String) : Handling σ (RoutineRecord × List (String × String)) := do
  let r ← idleRoutine res segment
  let sources := match (← catalog res).scraper? r.scraperId with
    | some s => s.tables
    | none => []
  return (r, sources)

def sessionKey (r : RoutineRecord) : String := "routine-" ++ toString r.id

def hostOf (sources : List (String × String)) (browser : Nat) : Host σ :=
  ⟨res.warehouse sources, res.environment (res.pages browser)⟩

def openHost (r : RoutineRecord) (sources : List (String × String)) : Effect σ (Host σ) := do
  let browser ← Browser.enter res.launcher (sessionKey r) res.settings.headless
  return hostOf res sources browser

-- Only the status is written, so the rest of the routine is as it is stored by now.
def beginRun (host : Host σ) (r : RoutineRecord) :
    Effect σ (RoutineRecord × ScraperRecord × Int) := do
  let c ← res.keeper.catalog
  match c.scraper? r.scraperId with
  | none => throw (.noScraper r.id)
  | some scraper => do
    let startedAt ← host.unbound.now
    let r := { (c.routine? r.id).getD r with status := r.status }
    res.keeper.putRoutine (r.withStatus .executing)
    return (r, scraper, startedAt)

def endRun (host : Host σ) (r : RoutineRecord) (startedAt : Int)
    (outcome : Except Failure (List IterationRecord)) : Effect σ ExecutionRecord := do
  match outcome with
  | .error e => do
    res.keeper.putRoutine r
    throw e
  | .ok iterations => finishRoutine host res.keeper r iterations startedAt none

-- The browser is closed however the run has ended.
def leaveWith {α : Type} (r : RoutineRecord) (outcome : Except Failure α) : Effect σ α := do
  Browser.leave res.launcher (sessionKey r)
  Effect.ofExcept id outcome

def replyTo (work : Effect σ ExecutionRecord) : Handling σ Response := do
  let execution ← orBadRequest work
  return .ok (← executionBody execution)

-- What cuts some work short is an answer like any other.
def settled : Except Failure (Except Response Response) → Except Failure Response :=
  Except.map fun | .ok answer | .error answer => answer

def concluded (work : Handling σ Response) (w : σ) : Progress σ × σ :=
  (.ended (settled (work w).1), (work w).2)

-- One part of the work leads to the next, or it fails, and then that is answered.
def goOn {α : Type} (next : α → Progress σ) (failing : Failure → Handling σ Response) :
    Except Failure α × σ → Progress σ × σ
  | (.ok a, w) => (next a, w)
  | (.error e, w) => concluded (failing e) w

-- The next part of the work on the request, up to where another request may come in.
def advance (segment : String) : Progress σ × σ → Progress σ × σ
  | (.asked, w) =>
    goOn (fun
        | .ok (r, sources) => .loaded r sources
        | .error refusal => .ended (.ok refusal))
      (fun e => liftM (throw e : Effect σ Response)) (loadRoutine res segment w)
  | (.loaded r sources, w) =>
    goOn (.ready r) (fun e => replyTo (throw e)) (openHost res r sources w)
  | (.ready r host, w) =>
    goOn (fun (r, scraper, startedAt) => .begun r host scraper startedAt)
      (fun e => replyTo (leaveWith res r (.error e))) (beginRun res host r w)
  | (.begun r host scraper startedAt, w) =>
    let (outcome, w) := runRoutine host res.settings.stepLimit scraper r w
    (.ran r host startedAt outcome, w)
  | (.ran r host startedAt outcome, w) =>
    let (outcome, w) := endRun res host r startedAt outcome w
    concluded (replyTo (leaveWith res r outcome)) w
  | (.ended answer, w) => (.ended answer, w)

end

section

variable {σ : Type} {res : Resources σ} {view : σ → Catalog}

theorem concluded_congr {work : Effect σ ExecutionRecord} (other : Effect σ ExecutionRecord)
    {w v : σ}
    (h : work w = other v) : concluded (replyTo work) w = concluded (replyTo other) v := by
  have hattempt : work.attempt w = other.attempt v := by
    rw [Effect.attempt_apply, Effect.attempt_apply, h]
  have hreply : replyTo work w = replyTo other v := by
    unfold replyTo orBadRequest
    simp only [bind_assoc]
    rw [Handling.bind_apply, Handling.bind_apply, Handling.lift_apply, Handling.lift_apply,
      hattempt]
  rw [concluded, concluded, hreply]

theorem reads_loadRoutine (h : res.Lawful view) {c : Catalog} (segment : String) :
    Reads view c (loadRoutine res segment) fun loaded => Idle c segment loaded.1 := by
  refine reads_bind (reads_idleRoutine h segment) fun r hr => ?_
  exact reads_bind (reads_catalog h) fun _ _ => reads_pure hr

theorem catalog_bind_apply (h : res.Lawful view) {α : Type} (next : Catalog → Effect σ α) (w : σ) :
    ((monadLift res.keeper.catalog : Effect σ Catalog) >>= next) w =
      next (view w) (res.keeper.catalog w).2 := by
  rw [Effect.bind_apply, Effect.lift_apply, h.keeper.catalog w]

theorem executeRoutine_eq_segments (h : res.Lawful view) {r : RoutineRecord} {w : σ}
    (hr : (view w).routine? r.id = some r) (host : Host σ) :
    executeRoutine host res.keeper res.settings.stepLimit r none w = (do
      let (r, scraper, startedAt) ← beginRun res host r
      let outcome ← (runRoutine host res.settings.stepLimit scraper r).attempt
      endRun res host r startedAt outcome) w := by
  unfold executeRoutine beginRun
  simp only [bind_assoc]
  refine (catalog_bind_apply h _ w).trans (Eq.trans ?_ (catalog_bind_apply h _ w).symm)
  cases (view w).scraper? r.scraperId with
  | none => rfl
  | some scraper =>
    rw [hr]
    simp only [bind_assoc, pure_bind]
    rfl

theorem hostOf_leaves (h : res.Lawful view) (sources : List (String × String)) (browser : Nat) :
    (hostOf res sources browser).Leaves view :=
  ⟨h.warehouse sources, fun context =>
    h.environment (h.pages browser) ((h.warehouse sources).boundTo context)⟩

theorem view_putRoutine (h : res.Lawful view) (r : RoutineRecord) (w : σ) :
    view (res.keeper.putRoutine r w).2 = (view w).putRoutine r := by
  change view (res.keeper.keep ((res.keeper.catalog w).1.putRoutine r)
    (res.keeper.catalog w).2).2 = _
  rw [h.keeper.keep, h.keeper.catalog]

-- A host that has been opened leaves the catalog alone, and so did opening it.
theorem openHost_leaves (h : res.Lawful view) (r : RoutineRecord)
    (sources : List (String × String)) (w : σ) :
    view (openHost res r sources w).2 = view w ∧
      ∀ host, (openHost res r sources w).1 = .ok host → host.Leaves view := by
  unfold openHost
  have hw := Browser.leaves_enter h.launcher (sessionKey r) res.settings.headless w
  rw [Effect.bind_apply]
  rcases henter : Browser.enter res.launcher (sessionKey r) res.settings.headless w with
    ⟨e | browser, u⟩ <;> rw [henter] at hw
  · exact ⟨hw, nofun⟩
  · refine ⟨hw, ?_⟩
    rintro _ ⟨⟩
    exact hostOf_leaves h sources browser

theorem beginRun_eq_ok (h : res.Lawful view) {host : Host σ} (hh : host.Leaves view)
    {r r' : RoutineRecord} {scraper : ScraperRecord} {startedAt : Int} {w u : σ}
    (hb : beginRun res host r w = (.ok (r', scraper, startedAt), u)) :
    r' = { ((view w).routine? r.id).getD r with status := r.status } ∧
      (view w).scraper? r.scraperId = some scraper ∧
      view u = (view w).putRoutine (r'.withStatus .executing) := by
  unfold beginRun at hb
  rw [catalog_bind_apply h] at hb
  cases hscraper : (view w).scraper? r.scraperId with
  | none =>
    rw [hscraper] at hb
    cases hb
  | some found =>
    rw [hscraper] at hb
    obtain ⟨present, v, hnow, hb⟩ := Effect.bind_eq_ok hb
    obtain ⟨_, x, hput, hb⟩ := Effect.bind_eq_ok hb
    cases hb
    have hv : view v = view w := by
      have hlooked := (leaves_lift (hh.environment none).now) (res.keeper.catalog w).2
      rw [h.keeper.looking w] at hlooked
      rw [← hlooked]
      exact congrArg (fun ended => view ended.2) hnow.symm
    refine ⟨rfl, rfl, ?_⟩
    have hx := view_putRoutine h ({ ((view w).routine? r.id).getD r with
      status := r.status }.withStatus .executing) v
    rwa [hput, hv] at hx

theorem beginRun_eq_error (h : res.Lawful view) {host : Host σ} {r : RoutineRecord} {e : Failure}
    {w u : σ} (hb : beginRun res host r w = (.error e, u)) : view u = view w := by
  unfold beginRun at hb
  rw [catalog_bind_apply h] at hb
  cases hscraper : (view w).scraper? r.scraperId with
  | none =>
    rw [hscraper] at hb
    cases hb
    exact h.keeper.looking w
  | some found =>
    rw [hscraper] at hb
    rcases Effect.bind_eq_error hb with hb | ⟨_, _, -, hb⟩
    · cases hb
    · rcases Effect.bind_eq_error hb with hb | ⟨_, _, -, hb⟩ <;> cases hb

theorem yields_endRun (h : res.Lawful view) {host : Host σ} (hh : host.Leaves view) {c : Catalog}
    {r : RoutineRecord} (hs : c.HasScraper r.scraperId) (startedAt : Int)
    (outcome : Except Failure (List IterationRecord)) :
    Yields view (c.putRoutine (r.withStatus .executing))
      (endRun res host r startedAt outcome) (c.Ran r) := by
  cases outcome with
  | error e =>
    refine yields_putRoutine h.keeper (yields_of_leaves (leaves_throw e) ?_)
    rw [Catalog.putRoutine_putRoutine (show r.id = (r.withStatus .executing).id from rfl)]
    exact .failed
  | ok iterations => exact yields_finishRoutine h.keeper hs hh _ _ _

theorem leaves_leaveWith (h : res.Lawful view) {α : Type} (r : RoutineRecord)
    (outcome : Except Failure α) : Leaves view (leaveWith res r outcome) :=
  leaves_bind (Browser.leaves_leave h.launcher _) fun _ => leaves_ofExcept _ _

-- To answer the request leaves the catalog alone.
theorem view_concluded {work : Effect σ ExecutionRecord} (hw : Leaves view work) (w : σ) :
    view (concluded (replyTo work) w).2 = view w := by
  have hleads : Leads view (view w) (replyTo work) (· = view w) :=
    leads_bind_last (leads_orBadRequest (yields_of_leaves hw rfl)) fun execution _ =>
      reads_bind (reads_executionBody execution) fun _ _ => reads_pure trivial
  exact hleads w rfl

theorem within_eq (r : RoutineRecord) (sources : List (String × String)) :
    Browser.within res.launcher (sessionKey r) res.settings.headless (fun browser =>
      executeRoutine (hostOf res sources browser) res.keeper res.settings.stepLimit r none) = (do
      let host ← openHost res r sources
      leaveWith res r
        (← (executeRoutine host res.keeper res.settings.stepLimit r none).attempt)) := by
  unfold Browser.within openHost leaveWith
  simp only [bind_assoc, pure_bind]
  congr 1
  funext browser
  congr 1
  funext outcome
  congr 1
  funext _
  cases outcome <;> rfl

theorem executeNow_eq (segment : String) :
    executeNow res segment = (do
      let (r, sources) ← loadRoutine res segment
      replyTo (Browser.within res.launcher (sessionKey r) res.settings.headless fun browser =>
        executeRoutine (hostOf res sources browser) res.keeper res.settings.stepLimit r none)) := by
  unfold executeNow loadRoutine replyTo
  simp only [bind_assoc, pure_bind]
  rfl

theorem advance_over (segment : String) (n : Nat) (answer : Except Failure Response) (w : σ) :
    (advance res segment)^[n] (.ended answer, w) = (.ended answer, w) :=
  Function.iterate_fixed rfl n

theorem iterate_advance_executeNow (h : res.Lawful view) (segment : String) (w : σ) :
    (advance res segment)^[5] (.asked, w) = concluded (executeNow res segment) w := by
  rw [executeNow_eq, Function.iterate_succ_apply, advance, concluded, Handling.bind_apply]
  have hloads := reads_loadRoutine h (c := view w) segment
  rcases hload : loadRoutine res segment w with ⟨e | refusal | ⟨r, sources⟩, u⟩
  · exact advance_over segment 4 _ _
  · exact advance_over segment 4 _ _
  · have hr := (hloads.result w rfl (r, sources) (by rw [hload])).stored
    change (advance res segment)^[4] (.loaded r sources, u) =
      concluded (replyTo (Browser.within _ _ _ _)) u
    have hu : view u = view w := by
      have := hloads.leaves w rfl
      rwa [hload] at this
    rw [within_eq, Function.iterate_succ_apply, advance]
    have hopens := openHost_leaves h r sources u
    rcases hopen : openHost res r sources u with ⟨e | host, v⟩ <;> rw [hopen] at hopens
    · rw [concluded_congr (throw e) (v := v) (Effect.bind_error hopen _), concluded]
      exact advance_over segment 3 _ _
    · have hv : (view v).routine? r.id = some r := by rw [hopens.1, hu, hr]
      rw [concluded_congr _ (Effect.bind_ok hopen _), goOn, Function.iterate_succ_apply, advance]
      have hwork := executeRoutine_eq_segments h hv host
      rw [concluded_congr (leaveWith res r _) (Effect.bind_ok
        (Effect.attempt_apply (executeRoutine host res.keeper res.settings.stepLimit r none) v) _),
        hwork]
      rcases hbegin : beginRun res host r v with ⟨e | ⟨r', scraper, startedAt⟩, x⟩
      · rw [Effect.bind_error hbegin, concluded]
        exact advance_over segment 2 _ _
      · obtain ⟨hr', -, -⟩ := beginRun_eq_ok h (hopens.2 host rfl) hbegin
        rw [hv] at hr'
        obtain rfl : r' = r := hr'
        rw [Effect.bind_ok hbegin]
        dsimp only
        rw [Effect.bind_ok (Effect.attempt_apply _ _)]
        rfl

-- Without another request in between, the parts make up the whole.
theorem iterate_advance (h : res.Lawful view) {q : Request} {segment : String}
    (hroute : Route.find q.method q.path = .ok (.execute segment)) (w : σ) :
    (advance res segment)^[5] (.asked, w) =
      (.ended (respond res q w).1, (respond res q w).2) := by
  rw [iterate_advance_executeNow h, respond_apply, handled_of_route hroute, dispatch, concluded]
  rfl

end

end Gleaner.Service

namespace Gleaner

-- A routine that does not run by itself.
def RoutineRecord.Stopped (r : RoutineRecord) : Prop :=
  r.status ≠ Status.active.name ∧ r.nextRunAt = none

instance (r : RoutineRecord) : Decidable r.Stopped := inferInstanceAs (Decidable (_ ∧ _))

theorem RoutineRecord.Scheduled.stopped {r : RoutineRecord} (h : r.Scheduled)
    (hs : r.status ≠ Status.active.name) : r.Stopped := by
  refine ⟨hs, ?_⟩
  cases hnext : r.nextRunAt with
  | none => rfl
  | some next =>
    have hstatus := (nextRunOf_eq_some (h.trans (congrArg _ hnext))).1
    exact absurd (by simpa using hstatus) hs

namespace Service

open Catalog

variable {σ α β : Type}

-- Whether the number of a routine stands in a path.
def asksFor (segment : String) (id : Nat) : Bool :=
  match Request.checkNumber "routine_id" segment with
  | .valid n => n == id
  | .invalid _ => false

theorem asksFor_iff {segment : String} {id : Nat} :
    asksFor segment id = true ↔ Request.checkNumber "routine_id" segment = .valid (id : Int) := by
  unfold asksFor
  cases Request.checkNumber "routine_id" segment with
  | valid n => rw [beq_iff_eq, Validation.Checked.valid.injEq]
  | invalid issues => exact ⟨nofun, nofun⟩

-- What a request turns the status of a routine to.
def Request.turned? (q : Request) (id : Nat) : Option Status :=
  match Route.find q.method q.path with
  | .ok (.pause segment) => if asksFor segment id then some .paused else none
  | .ok (.resume segment) => if asksFor segment id then some .active else none
  | _ => none

-- A request to pause or to resume a routine.
inductive Request.Turns (q : Request) (id : Nat) : Status → Prop
  | pause {segment : String} (hroute : Route.find q.method q.path = .ok (.pause segment))
      (hasked : Request.checkNumber "routine_id" segment = .valid id) : Turns q id .paused
  | resume {segment : String} (hroute : Route.find q.method q.path = .ok (.resume segment))
      (hasked : Request.checkNumber "routine_id" segment = .valid id) : Turns q id .active

theorem Request.turned?_eq_some {q : Request} {id : Nat} {status : Status}
    (h : q.turned? id = some status) : q.Turns id status := by
  unfold Request.turned? at h
  split at h
  · next segment hroute =>
    split at h
    · next hasked =>
      cases h
      exact .pause hroute (asksFor_iff.mp hasked)
    · cases h
  · next segment hroute =>
    split at h
    · next hasked =>
      cases h
      exact .resume hroute (asksFor_iff.mp hasked)
    · cases h
  · cases h

section

variable {view : σ → Catalog} {c : Catalog} {P : Catalog → Prop} {Q : α → Prop} {R : β → Prop}

-- Work that comes to an end and then has changed the catalog, or is refused and has not. When it
-- fails it may have done so or not.
def Serves (view : σ → Catalog) (c : Catalog) (work : Handling σ α) (Q : α → Prop)
    (P : Catalog → Prop) : Prop :=
  ∀ s, view s = c →
    (∃ a, (work s).1 = .ok (.ok a) ∧ Q a ∧ P (view (work s).2)) ∨
    (∃ r, (work s).1 = .ok (.error r) ∧ r.IsRefusal ∧ view (work s).2 = c) ∨
    ∃ e, (work s).1 = .error e ∧ (view (work s).2 = c ∨ P (view (work s).2))

theorem serves_bind {work : Handling σ β} {next : β → Handling σ α} (hw : Reads view c work R)
    (hn : ∀ b, R b → Serves view c (next b) Q P) : Serves view c (work >>= next) Q P := by
  intro s hs
  have hleaves := hw.leaves s hs
  have hresult := hw.result s hs
  have hrefusal := hw.refusal s hs
  rw [Handling.bind_apply]
  generalize work s = ended at hleaves hresult hrefusal ⊢
  rcases ended with ⟨e | ⟨r | b⟩, t⟩
  · exact .inr (.inr ⟨e, rfl, .inl hleaves⟩)
  · exact .inr (.inl ⟨r, rfl, hrefusal r rfl, hleaves⟩)
  · exact hn b (hresult b rfl) t hleaves

-- What comes after the change is not refused any more.
theorem serves_bind_last {work : Handling σ β} {next : β → Handling σ α}
    (hw : Serves view c work R P)
    (hn : ∀ b s, view (next b s).2 = view s ∧
      ((∃ a, (next b s).1 = .ok (.ok a) ∧ Q a) ∨ ∃ e, (next b s).1 = .error e)) :
    Serves view c (work >>= next) Q P := by
  intro s hs
  have hended := hw s hs
  rw [Handling.bind_apply]
  rcases hwork : work s with ⟨e | ⟨r | b⟩, t⟩ <;> rw [hwork] at hended
  · obtain ⟨_, ⟨⟩, -⟩ | ⟨_, ⟨⟩, -⟩ | ⟨_, -, hP⟩ := hended
    exact .inr (.inr ⟨e, rfl, hP⟩)
  · obtain ⟨_, ⟨⟩, -⟩ | ⟨_, hr, hrefusal⟩ | ⟨_, ⟨⟩, -⟩ := hended
    cases hr
    exact .inr (.inl ⟨_, rfl, hrefusal⟩)
  · obtain ⟨_, -, -, hP⟩ | ⟨_, ⟨⟩, -⟩ | ⟨_, ⟨⟩, -⟩ := hended
    obtain ⟨hview, ⟨a, ha⟩ | ⟨e, he⟩⟩ := hn b t
    · exact .inl ⟨a, ha.1, ha.2, hview ▸ hP⟩
    · exact .inr (.inr ⟨e, he, .inr (hview ▸ hP)⟩)

variable {res : Resources σ} (h : res.Lawful view)
include h

theorem serves_change {f : Catalog → Except Failure (Catalog × α)}
    (hf : ∀ c' a, f c = .ok (c', a) → P c') :
    Serves view c (change res f) (fun _ => True) P := by
  intro s hs
  unfold change
  rw [Handling.lift_apply, Keeper.change, catalog_bind_apply h, hs]
  rcases hfc : f c with e | ⟨c', a⟩
  · exact .inr (.inr ⟨e, rfl, .inl ((h.keeper.looking s).trans hs)⟩)
  · refine .inl ⟨a, rfl, trivial, ?_⟩
    change P (view (res.keeper.keep c' (res.keeper.catalog s).2).2)
    rw [h.keeper.keep]
    exact hf c' a hfc

theorem routineBody_apply (r : RoutineRecord) (s : σ) :
    routineBody res r s = (((view s).view r).map fun shown => .ok (shown.document.toValue .full),
      (res.keeper.catalog s).2) := by
  have hcatalog : catalog res s = (.ok (.ok (view s)), (res.keeper.catalog s).2) := by
    rw [← h.keeper.catalog s]
    rfl
  unfold routineBody
  rw [Handling.bind_apply, hcatalog]
  dsimp only
  rw [Handling.bind_apply]
  cases (view s).view r <;> rfl

theorem serves_putRoutine {f : RoutineRecord → Except Failure RoutineRecord} {r : RoutineRecord}
    (hf : ∀ r' : RoutineRecord, f r = .ok r' → P (c.putRoutine r')) :
    Serves view c (putRoutine res f r) (fun answer => answer.status = 200) P := by
  refine serves_bind_last (serves_change h ?_) fun kept s => ?_
  · intro c' kept hchange
    cases hfr : f r with
    | error e =>
      rw [hfr] at hchange
      cases hchange
    | ok r' =>
      rw [hfr] at hchange
      cases hchange
      exact hf kept hfr
  · rw [Handling.bind_apply, routineBody_apply h]
    cases (view s).view kept with
    | error e => exact ⟨h.keeper.looking s, .inr ⟨e, rfl⟩⟩
    | ok shown => exact ⟨h.keeper.looking s, .inl ⟨_, rfl, rfl⟩⟩

-- The catalog once a routine that was idle has been paused or resumed.
def Turned (id : Nat) (status : Status) (c c' : Catalog) : Prop :=
  ∃ old r, c.routine? id = some old ∧ old.isExecuting = false ∧ r.id = id ∧
    r.scraperId = old.scraperId ∧ r.status = status.name ∧ r.isExecuting = false ∧ r.Scheduled ∧
    c' = c.putRoutine r

omit h in
theorem turned_of_reschedule {id : Nat} {status : Status} {segment : String}
    (hnumber : Request.checkNumber "routine_id" segment = .valid (id : Int))
    {old r r' : RoutineRecord} {now : Int} (hidle : Idle c segment old)
    (hr : r.reschedule now = .ok r') (hid : r.id = old.id)
    (hscraper : r.scraperId = old.scraperId) (hstatus : r.status = status.name)
    (hnot : r.isExecuting = false) (hnow : r.updatedAt = now) :
    Turned id status c (c.putRoutine r') := by
  have hold : old.id = id := Int.ofNat.inj <|
    (Validation.Checked.valid.injEq _ _).mp (hidle.asked.symm.trans hnumber)
  have hscheduled := RoutineRecord.scheduled_of_reschedule hnow hr
  obtain ⟨next, -, rfl⟩ := RoutineRecord.reschedule_eq_ok hr
  exact ⟨old, { r with nextRunAt := next }, hold ▸ hidle.stored, hidle.idle, hid.trans hold,
    hscraper, hstatus, hnot, hscheduled, rfl⟩

theorem serves_turn {q : Request} {id : Nat} {status : Status} (hq : q.Turns id status) :
    Serves view c (handled res q) (fun answer => answer.status = 200) (Turned id status c) := by
  cases hq with
  | @pause segment hroute hnumber =>
    rw [handled_of_route hroute, dispatch]
    refine serves_bind (reads_idleRoutine h segment) fun r hr => ?_
    refine serves_bind (reads_now h) fun now _ => serves_putRoutine h fun r' hr' => ?_
    exact turned_of_reschedule hnumber hr hr' rfl rfl rfl rfl rfl
  | @resume segment hroute hnumber =>
    rw [handled_of_route hroute, dispatch]
    refine serves_bind (reads_idleRoutine h segment) fun r hr => ?_
    refine serves_bind (reads_now h) fun now _ => serves_putRoutine h fun r' hr' => ?_
    exact turned_of_reschedule hnumber hr hr' rfl rfl rfl rfl rfl

-- A request to pause or to resume a routine is answered if that has been done, or it is refused
-- and nothing has changed.
theorem respond_turn {q : Request} {id : Nat} {status : Status} (hq : q.Turns id status) (s : σ) :
    (∃ answer, (respond res q s).1 = .ok answer ∧ answer.status = 200 ∧
      Turned id status (view s) (view (respond res q s).2)) ∨
    (∃ answer, (respond res q s).1 = .ok answer ∧ answer.status ≠ 200 ∧
      view (respond res q s).2 = view s) ∨
    ∃ e, (respond res q s).1 = .error e ∧ (view (respond res q s).2 = view s ∨
      Turned id status (view s) (view (respond res q s).2)) := by
  rw [respond_apply]
  rcases serves_turn h hq s rfl with
    ⟨answer, hanswer, hstatus, hturned⟩ | ⟨answer, hanswer, hrefusal, hsame⟩ | ⟨e, he, hview⟩
  · exact .inl ⟨answer, by rw [hanswer]; rfl, hstatus, hturned⟩
  · refine .inr (.inl ⟨answer, by rw [hanswer]; rfl, ?_, hsame⟩)
    intro hok
    rw [Response.IsRefusal, hok] at hrefusal
    omega
  · exact .inr (.inr ⟨e, by rw [he]; rfl, hview⟩)

end

end Service

end Gleaner
