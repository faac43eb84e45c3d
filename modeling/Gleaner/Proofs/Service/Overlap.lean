import Gleaner.Proofs.Service.Schedules
import Gleaner.Proofs.Service.Turns
import Mathlib.Data.List.Induction

namespace Gleaner

-- What the end of a run leaves of a routine with its status put back: all as it was if the run has
-- failed altogether, and otherwise a run more, unless too many have failed by now.
inductive PutBack (r : RoutineRecord) : RoutineRecord → Prop
  | failed : PutBack r r
  | kept {failed : Bool} {startedAt finishedAt : Int} {finished : RoutineRecord}
      (h : r.finish failed startedAt finishedAt = .ok finished)
      (hlimit : (failed && r.failureLimit.any (· ≤ r.failures + 1)) = false) : PutBack r finished

theorem PutBack.status {r last : RoutineRecord} (h : PutBack r last)
    (hidle : r.isExecuting = false) : last.status = r.status := by
  cases h with
  | failed => rfl
  | kept h hlimit =>
    obtain ⟨-, -, -, hstatus⟩ := RoutineRecord.finish_idle hidle h
    rw [hstatus, hlimit]
    rfl

-- How a run of a routine that had been stopped ends: it stays stopped, unless the run was begun
-- with the status of an active routine and puts that back.
theorem Catalog.Ran.stopped {c c' : Catalog} {r stored : RoutineRecord} (h : c.Ran r c')
    (hstored : c.routine? r.id = some stored) (hstopped : stored.Stopped)
    (hnext : r.nextRunAt = stored.nextRunAt) (hidle : r.isExecuting = false) :
    ∃ last, c'.routine? r.id = some last ∧
      (last.Stopped ∨ r.status = Status.active.name ∧ PutBack r last) := by
  have hid : stored.id = r.id := Int.ofNat.inj (Catalog.routine?_eq_some hstored).2
  have hput : ∀ last : RoutineRecord, last.id = r.id →
      (c.putRoutine last).routine? r.id = some last := fun last hlast => by
    rw [← hid] at hstored hlast ⊢
    exact Catalog.routine?_putRoutine hstored hlast
  cases h with
  | missed => exact ⟨stored, hstored, .inl hstopped⟩
  | failed =>
    refine ⟨r, hput r rfl, ?_⟩
    by_cases hactive : r.status = Status.active.name
    · exact .inr ⟨hactive, .failed⟩
    · exact .inl ⟨hactive, hnext.trans hstopped.2⟩
  | stranded =>
    have hstatus : Status.executing.name ≠ Status.active.name := by decide
    exact ⟨r.withStatus .executing, hput _ rfl, .inl ⟨hstatus, hnext.trans hstopped.2⟩⟩
  | @kept finished e runs startedAt finishedAt hs hfinish hruns he her =>
    obtain ⟨hlast, -, -, hstatus⟩ := RoutineRecord.finish_idle hidle hfinish
    refine ⟨finished, hput _ hlast, ?_⟩
    by_cases hactive : finished.status = Status.active.name
    · refine .inr ?_
      cases hlimit : runs.any (·.failed) && r.failureLimit.any (· ≤ r.failures + 1) with
      | true =>
        rw [hstatus, hlimit, if_pos rfl] at hactive
        exact absurd hactive (by decide)
      | false =>
        rw [hlimit] at hstatus
        exact ⟨hstatus.symm.trans hactive, .kept hfinish hlimit⟩
    · exact .inl ((RoutineRecord.scheduled_of_finish hfinish).stopped hactive)

namespace Service

open Catalog

section

variable {σ : Type} (res : Resources σ) (segment : String) (id : Nat)

-- What may come next while a request to execute a routine is worked on: the next part of the work
-- on it, or another request.
inductive Event
  | work
  | request (q : Request)

-- Other requests are to pause or to resume the same routine.
def Event.isAbout (id : Nat) : Event → Bool
  | .work => true
  | .request q => (q.turned? id).isSome

-- The service while that goes on, with what the last answer to a request to pause or to resume the
-- routine was for. A request to resume it that fails may have done so or not.
structure Overlap (σ : Type) where
  world : σ
  progress : Progress σ := .asked
  answered : Option Status := none
  unanswered : Bool := false

-- The last answer is for a pause, and nothing can have resumed the routine since.
def Overlap.IsPaused (o : Overlap σ) : Prop := o.answered = some .paused ∧ o.unanswered = false

instance (o : Overlap σ) : Decidable o.IsPaused := inferInstanceAs (Decidable (_ ∧ _))

-- What is known when a request to give the routine a status has been worked on.
def Overlap.replied (o : Overlap σ) (asked : Option Status) :
    Except Failure Response × σ → Overlap σ
  | (.ok answer, world) =>
    if answer.status = 200 then { o with world, answered := asked, unanswered := false }
    else { o with world }
  | (.error _, world) => { o with world, unanswered := o.unanswered || asked == some .active }

def Overlap.next (o : Overlap σ) : Event → Overlap σ
  | .work =>
    let (progress, world) := advance res segment (o.progress, o.world)
    { o with progress, world }
  | .request q => o.replied (q.turned? id) (respond res q o.world)

def overlap (events : List Event) (w : σ) : Overlap σ :=
  events.foldl (Overlap.next res segment id) { world := w }

theorem overlap_append (events : List Event) (e : Event) (w : σ) :
    overlap res segment id (events ++ [e]) w =
      (overlap res segment id events w).next res segment id e := by
  rw [overlap, List.foldl_append]
  rfl

end

variable {σ : Type} {res : Resources σ} {view : σ → Catalog} {segment : String} {id : Nat} {w : σ}

-- A run that is begun when the routine has been paused but was loaded when it was active, and
-- whose end puts that status back.
inductive Overtaken (res : Resources σ) (view : σ → Catalog) (segment : String) (id : Nat) (w : σ)
    (events : List Event) (last : RoutineRecord) : Prop
  | intro {before : List Event} {loaded stored : RoutineRecord} {host : Host σ}
      (hbegun : before ++ [.work] <+: events)
      (hready : (overlap res segment id before w).progress = .ready loaded host)
      (hloaded : loaded.status = Status.active.name)
      (hstored : (view (overlap res segment id before w).world).routine? id = some stored)
      (hstopped : stored.Stopped)
      (hback : PutBack { stored with status := loaded.status } last)

theorem Overtaken.status {events : List Event} {last : RoutineRecord}
    (h : Overtaken res view segment id w events last) : last.status = Status.active.name := by
  obtain ⟨-, -, hloaded, -, -, hback⟩ := h
  rw [hloaded] at hback
  exact hback.status rfl

theorem Overtaken.append {events : List Event} {last : RoutineRecord}
    (h : Overtaken res view segment id w events last) (e : Event) :
    Overtaken res view segment id w (events ++ [e]) last := by
  obtain ⟨hbegun, hready, hloaded, hstored, hstopped, hback⟩ := h
  exact .intro (hbegun.trans (List.prefix_append _ _)) hready hloaded hstored hstopped hback

-- A routine that has been loaded, and is stored by now with another status maybe.
structure Loaded (view : σ → Catalog) (id : Nat) (o : Overlap σ) (loaded stored : RoutineRecord) :
    Prop where
  number : loaded.id = id
  scraper : stored.scraperId = loaded.scraperId
  idle : loaded.isExecuting = false
  found : (view o.world).routine? id = some stored
  foundIdle : stored.isExecuting = false
  stopped : o.IsPaused → stored.Stopped

-- A run that has been begun: it is of the routine as it was stored then, with the status that had
-- been loaded, and nothing has changed since.
inductive Begun (res : Resources σ) (view : σ → Catalog) (segment : String) (id : Nat) (w : σ)
    (events : List Event) (o : Overlap σ) (r : RoutineRecord) : Prop
  | intro {before : List Event} {loaded stored : RoutineRecord} {host : Host σ}
      (hbegun : before ++ [.work] <+: events)
      (hready : (overlap res segment id before w).progress = .ready loaded host)
      (hloaded : Loaded view id (overlap res segment id before w) loaded stored)
      (hr : r = { stored with status := loaded.status })
      (hscraper : (view (overlap res segment id before w).world).HasScraper r.scraperId)
      (hstopped : o.IsPaused → stored.Stopped)
      (hview : view o.world =
        (view (overlap res segment id before w).world).putRoutine (r.withStatus .executing))

-- What is known of the routine, by how far the request to execute it has come.
def Standing (res : Resources σ) (view : σ → Catalog) (segment : String) (id : Nat) (w : σ)
    (events : List Event) (o : Overlap σ) : Prop :=
  match o.progress with
  | .asked => o.IsPaused → ∃ r, (view o.world).routine? id = some r ∧ r.Stopped
  | .loaded r _ => ∃ stored, Loaded view id o r stored
  | .ready r host => host.Leaves view ∧ ∃ stored, Loaded view id o r stored
  | .begun r host _ _ => host.Leaves view ∧ Begun res view segment id w events o r
  | .ran r host _ _ => host.Leaves view ∧ Begun res view segment id w events o r
  | .ended _ => o.IsPaused → ∃ r, (view o.world).routine? id = some r ∧
      (r.Stopped ∨ Overtaken res view segment id w events r)

-- What another request makes of the catalog: nothing, or it changes the routine, and then for a
-- pause if one is the last.
theorem next_request (h : res.Lawful view) {q : Request} {status : Status}
    (hq : q.turned? id = some status) (o : Overlap σ) :
    (o.next res segment id (.request q)).progress = o.progress ∧
      (view (o.next res segment id (.request q)).world = view o.world ∧
          ((o.next res segment id (.request q)).IsPaused → o.IsPaused) ∨
        Turned id status (view o.world) (view (o.next res segment id (.request q)).world) ∧
          ((o.next res segment id (.request q)).IsPaused → status ≠ .active)) := by
  rw [Overlap.next, hq]
  have hended := respond_turn h (Request.turned?_eq_some hq) o.world
  rcases hrespond : respond res q o.world with ⟨e | answer, v⟩ <;> rw [hrespond] at hended
  · obtain ⟨_, ⟨⟩, -⟩ | ⟨_, ⟨⟩, -⟩ | ⟨_, -, hview⟩ := hended
    have hpaused : (o.replied (some status) (.error e, v)).IsPaused →
        o.IsPaused ∧ status ≠ .active := by
      rintro ⟨hlast, hnone⟩
      obtain ⟨hknown, hnot⟩ := Bool.or_eq_false_iff.mp hnone
      refine ⟨⟨hlast, hknown⟩, ?_⟩
      rintro rfl
      exact absurd hnot (by decide)
    refine ⟨rfl, ?_⟩
    rcases hview with hsame | hturned
    · exact .inl ⟨hsame, fun hp => (hpaused hp).1⟩
    · exact .inr ⟨hturned, fun hp => (hpaused hp).2⟩
  · obtain ⟨_, ⟨⟩, hstatus, hturned⟩ | ⟨_, ⟨⟩, hstatus, hsame⟩ | ⟨_, ⟨⟩, -⟩ := hended
    · rw [Overlap.replied, if_pos hstatus]
      refine ⟨rfl, .inr ⟨hturned, ?_⟩⟩
      rintro ⟨hlast, -⟩ rfl
      cases hlast
    · rw [Overlap.replied, if_neg hstatus]
      exact ⟨rfl, .inl ⟨hsame, fun hp => hp⟩⟩

theorem Turned.found {status : Status} {c c' : Catalog} (h : Turned id status c c') :
    ∃ old r, c.routine? id = some old ∧ c'.routine? id = some r ∧ r.scraperId = old.scraperId ∧
      r.isExecuting = false ∧ (status ≠ .active → r.Stopped) := by
  obtain ⟨old, r, hold, -, hid, hscraper, hstatus, hidle, hscheduled, rfl⟩ := h
  have hnumber : old.id = id := Int.ofNat.inj (routine?_eq_some hold).2
  subst hnumber
  refine ⟨old, r, hold, routine?_putRoutine hold hid, hscraper, hidle, fun hnot => ?_⟩
  refine hscheduled.stopped ?_
  rw [hstatus]
  revert hnot
  cases status <;> decide

theorem Begun.found {events : List Event} {o : Overlap σ} {r : RoutineRecord}
    (h : Begun res view segment id w events o r) :
    (view o.world).routine? id = some (r.withStatus .executing) := by
  obtain @⟨before, loaded, stored, host, -, -, hloaded, rfl, -, -, hview⟩ := h
  have hfound := hloaded.found
  have hnumber : stored.id = id := Int.ofNat.inj (routine?_eq_some hfound).2
  rw [← hnumber] at hfound hview ⊢
  rw [hview]
  exact routine?_putRoutine hfound rfl

-- A routine that counts as executing is neither paused nor resumed.
theorem Begun.not_turned {events : List Event} {o : Overlap σ} {r : RoutineRecord}
    (h : Begun res view segment id w events o r) {status : Status} {c : Catalog} :
    ¬Turned id status (view o.world) c := by
  rintro ⟨old, -, hold, hidle, -⟩
  rw [h.found] at hold
  cases hold
  exact nomatch hidle.symm.trans (RoutineRecord.isExecuting_executing _)

theorem Begun.next {events : List Event} {o p : Overlap σ} {r : RoutineRecord} {e : Event}
    (h : Begun res view segment id w events o r) (hview : view p.world = view o.world)
    (hpaused : p.IsPaused → o.IsPaused) : Begun res view segment id w (events ++ [e]) p r := by
  obtain ⟨hbegun, hready, hloaded, hr, hscraper, hstopped, hworld⟩ := h
  exact .intro (hbegun.trans (List.prefix_append _ _)) hready hloaded hr hscraper
    (hstopped ∘ hpaused) (hview.trans hworld)

theorem Loaded.request {o p : Overlap σ} {loaded stored : RoutineRecord} {status : Status}
    (h : Loaded view id o loaded stored)
    (hview : view p.world = view o.world ∧ (p.IsPaused → o.IsPaused) ∨
      Turned id status (view o.world) (view p.world) ∧ (p.IsPaused → status ≠ .active)) :
    ∃ stored, Loaded view id p loaded stored := by
  obtain ⟨hsame, hpaused⟩ | ⟨hturned, hpaused⟩ := hview
  · exact ⟨stored, { h with found := hsame ▸ h.found, stopped := h.stopped ∘ hpaused }⟩
  · obtain ⟨old, r, hold, hfound, hscraper, hidle, hstopped⟩ := hturned.found
    rw [h.found] at hold
    cases hold
    exact ⟨r, { h with
      scraper := hscraper.trans h.scraper
      found := hfound
      foundIdle := hidle
      stopped := hstopped ∘ hpaused }⟩

-- Another request leaves the routine in the right state, however far the execution has come.
theorem standing_request (h : res.Lawful view) {q : Request} {status : Status}
    (hq : q.turned? id = some status) {events : List Event} {o : Overlap σ}
    (ho : Standing res view segment id w events o) :
    Standing res view segment id w (events ++ [.request q])
      (o.next res segment id (.request q)) := by
  obtain ⟨hprogress, hview⟩ :
      (o.next res segment id (.request q)).progress = o.progress ∧ _ := next_request h hq o
  generalize o.next res segment id (.request q) = p at hprogress hview ⊢
  have hkept : (∀ c, ¬Turned id status (view o.world) c) →
      view p.world = view o.world ∧ (p.IsPaused → o.IsPaused) := fun hnot =>
    hview.resolve_right fun hturned => hnot _ hturned.1
  have hstops : ∀ {Q : RoutineRecord → Prop}, (p.IsPaused → o.IsPaused →
        view p.world = view o.world → ∃ r, (view p.world).routine? id = some r ∧ Q r) →
      (∀ r : RoutineRecord, r.Stopped → Q r) →
      p.IsPaused → ∃ r, (view p.world).routine? id = some r ∧ Q r := by
    intro Q hsame hstopped hp
    rcases hview with ⟨hviews, hpaused⟩ | ⟨hturned, hpaused⟩
    · exact hsame hp (hpaused hp) hviews
    · obtain ⟨-, r, -, hr, -, -, hr'⟩ := hturned.found
      exact ⟨r, hr, hstopped r (hr' (hpaused hp))⟩
  unfold Standing at ho ⊢
  rw [hprogress]
  cases hat : o.progress with
  | asked =>
    rw [hat] at ho
    exact hstops (fun _ hpaused hsame => hsame ▸ ho hpaused) fun _ hr => hr
  | loaded r sources =>
    rw [hat] at ho
    obtain ⟨stored, hloaded⟩ := ho
    exact hloaded.request hview
  | ready r host =>
    rw [hat] at ho
    obtain ⟨hhost, stored, hloaded⟩ := ho
    exact ⟨hhost, hloaded.request hview⟩
  | begun r host scraper startedAt =>
    rw [hat] at ho
    obtain ⟨hsame, hpaused⟩ := hkept fun _ => ho.2.not_turned
    exact ⟨ho.1, ho.2.next hsame hpaused⟩
  | ran r host startedAt outcome =>
    rw [hat] at ho
    obtain ⟨hsame, hpaused⟩ := hkept fun _ => ho.2.not_turned
    exact ⟨ho.1, ho.2.next hsame hpaused⟩
  | ended answer =>
    rw [hat] at ho
    refine hstops (fun _ hpaused hsame => ?_) fun r hr => .inl hr
    obtain ⟨r, hr, hends⟩ := ho hpaused
    exact ⟨r, hsame ▸ hr, hends.imp_right fun hovertaken => hovertaken.append _⟩

section

variable {events : List Event} {o : Overlap σ}

theorem standing_concluded {work : Handling σ Response} {v : σ}
    (hends : o.IsPaused → ∃ r, (view (concluded work v).2).routine? id = some r ∧
      (r.Stopped ∨ Overtaken res view segment id w events r)) :
    Standing res view segment id w events
      { o with progress := (concluded work v).1, world := (concluded work v).2 } := hends

variable (h : res.Lawful view)
include h

theorem standing_load (hasked : Request.checkNumber "routine_id" segment = .valid (id : Int))
    (hat : o.progress = .asked) (ho : o.IsPaused → ∃ r, (view o.world).routine? id = some r ∧
      r.Stopped) : Standing res view segment id w events (o.next res segment id .work) := by
  have hloads := reads_loadRoutine h (c := view o.world) segment
  have hleaves := hloads.leaves o.world rfl
  have hkept : o.IsPaused → ∃ r, (view (loadRoutine res segment o.world).2).routine? id = some r ∧
      (r.Stopped ∨ Overtaken res view segment id w events r) := by
    intro hp
    obtain ⟨r, hr, hstopped⟩ := ho hp
    exact ⟨r, hleaves ▸ hr, .inl hstopped⟩
  rw [Overlap.next, hat, advance]
  rcases hload : loadRoutine res segment o.world with ⟨e | refusal | ⟨r, sources⟩, u⟩ <;>
    rw [hload] at hleaves hkept
  · exact hkept
  · exact hkept
  · have hidle : Idle (view o.world) segment r :=
      hloads.result o.world rfl (r, sources) (by rw [hload])
    have hnumber : r.id = id := Int.ofNat.inj <|
      (Validation.Checked.valid.injEq _ _).mp (hidle.asked.symm.trans hasked)
    have hfound := hidle.stored
    rw [hnumber] at hfound
    refine ⟨r, hnumber, rfl, hidle.idle, hleaves ▸ hfound, hidle.idle, fun hp => ?_⟩
    obtain ⟨r', hr', hstopped⟩ := ho hp
    rw [hfound] at hr'
    cases hr'
    exact hstopped

theorem standing_open {r : RoutineRecord} {sources : List (String × String)}
    (hat : o.progress = .loaded r sources) {stored : RoutineRecord}
    (ho : Loaded view id o r stored) :
    Standing res view segment id w events (o.next res segment id .work) := by
  obtain ⟨hview, hhost⟩ := openHost_leaves h r sources o.world
  rw [Overlap.next, hat, advance]
  rcases hopen : openHost res r sources o.world with ⟨e | host, u⟩ <;> rw [hopen] at hview hhost
  · rw [goOn]
    refine standing_concluded fun hp => ⟨stored, ?_, .inl (ho.stopped hp)⟩
    have hthrown : Leaves view (throw e : Effect σ ExecutionRecord) := leaves_throw e
    rw [view_concluded hthrown]
    exact hview ▸ ho.found
  · exact ⟨hhost host rfl, stored, { ho with found := hview ▸ ho.found, stopped := ho.stopped }⟩

theorem standing_begin {r : RoutineRecord} {host : Host σ} {before : List Event}
    (hbefore : o = overlap res segment id before w)
    (hat : o.progress = .ready r host) (hhost : host.Leaves view) {stored : RoutineRecord}
    (ho : Loaded view id o r stored) :
    Standing res view segment id w (before ++ [.work]) (o.next res segment id .work) := by
  rw [Overlap.next, hat, advance]
  rcases hbegin : beginRun res host r o.world with ⟨e | ⟨r', scraper, startedAt⟩, u⟩
  · rw [goOn]
    refine standing_concluded fun hp => ⟨stored, ?_, .inl (ho.stopped hp)⟩
    rw [view_concluded (leaves_leaveWith h r _), beginRun_eq_error h hbegin]
    exact ho.found
  · obtain ⟨hr', hscraper, hview⟩ := beginRun_eq_ok h hhost hbegin
    rw [ho.number, ho.found] at hr'
    subst hbefore hr'
    have hs : (view (overlap res segment id before w).world).HasScraper stored.scraperId :=
      ho.scraper ▸ hasScraper_of_scraper? hscraper
    exact ⟨hhost, .intro (List.prefix_refl _) hat ho rfl hs ho.stopped hview⟩

omit h in
theorem standing_run {r : RoutineRecord} {host : Host σ} {scraper : ScraperRecord}
    {startedAt : Int} (hat : o.progress = .begun r host scraper startedAt)
    (hhost : host.Leaves view) (ho : Begun res view segment id w events o r) :
    Standing res view segment id w (events ++ [.work]) (o.next res segment id .work) := by
  rw [Overlap.next, hat, advance]
  exact ⟨hhost, ho.next (leaves_runRoutine hhost _ _ _ _) fun hp => hp⟩

theorem standing_end {r : RoutineRecord} {host : Host σ} {startedAt : Int}
    {outcome : Except Failure (List IterationRecord)}
    (hat : o.progress = .ran r host startedAt outcome) (hhost : host.Leaves view)
    (ho : Begun res view segment id w events o r) :
    Standing res view segment id w (events ++ [.work]) (o.next res segment id .work) := by
  obtain @⟨before, loaded, stored, opened, hbegun, hready, hloaded, hr, hscraper, hstopped, hview⟩
    := ho
  subst hr
  have hran := yields_endRun h hhost hscraper startedAt outcome o.world hview
  rcases hended : endRun res host { stored with status := loaded.status } startedAt outcome o.world
    with ⟨ended, v⟩
  rw [hended] at hran
  rw [Overlap.next, hat, advance, hended]
  refine standing_concluded fun hp => ?_
  have hnumber : (stored.id : Int) = id := (routine?_eq_some hloaded.found).2
  obtain ⟨last, hlast, hends⟩ := hran.stopped ((congrArg _ hnumber).trans hloaded.found)
    (hstopped hp) rfl hloaded.idle
  refine ⟨last, ?_, hends.imp_right fun hback => ?_⟩
  · rw [view_concluded (leaves_leaveWith h _ _), ← hnumber]
    exact hlast
  · exact .intro (hbegun.trans (List.prefix_append _ _)) hready hback.1 hloaded.found
      (hstopped hp) hback.2

-- What is known before anything has happened stays known whatever comes next.
theorem standing_overlap (hasked : Request.checkNumber "routine_id" segment = .valid (id : Int))
    (w : σ) (hevents : ∀ e ∈ events, e.isAbout id) :
    Standing res view segment id w events (overlap res segment id events w) := by
  induction events using List.reverseRecOn with
  | nil => rintro ⟨⟨⟩, -⟩
  | append_singleton events e ih =>
    have ho := ih fun e he => hevents e (List.mem_append_left _ he)
    rw [overlap_append]
    cases e with
    | request q =>
      obtain ⟨status, hq⟩ := Option.isSome_iff_exists.mp
        (hevents _ (List.mem_append_right _ (List.mem_singleton.mpr rfl)))
      exact standing_request h hq ho
    | work =>
      unfold Standing at ho
      split at ho
      · next hat => exact standing_load h hasked hat ho
      · next hat =>
        obtain ⟨stored, hloaded⟩ := ho
        exact standing_open h hat hloaded
      · next hat =>
        obtain ⟨hhost, stored, hloaded⟩ := ho
        exact standing_begin h rfl hat hhost hloaded
      · next hat => exact standing_run hat ho.1 ho.2
      · next hat => exact standing_end h hat ho.1 ho.2
      · next answer hat =>
        rw [Overlap.next, hat, advance]
        refine fun hp => ?_
        obtain ⟨r, hr, hends⟩ := ho hp
        exact ⟨r, hr, hends.imp_right fun hovertaken => hovertaken.append _⟩

-- However requests to pause and to resume a routine come in while one to execute it is worked on:
-- when that is over and a pause was the last to be answered with success, and no request to resume
-- the routine has failed since, the routine is neither active nor has it a next run, unless its
-- status was loaded before it was paused, the run begun after that, and the status put back.
theorem stopped_iff_not_overtaken
    (hasked : Request.checkNumber "routine_id" segment = .valid (id : Int)) (w : σ)
    (hevents : ∀ e ∈ events, e.isAbout id)
    (hover : (overlap res segment id events w).progress.isOver)
    (hpaused : (overlap res segment id events w).IsPaused) :
    ∃ r, (view (overlap res segment id events w).world).routine? id = some r ∧
      (r.Stopped ↔ ¬Overtaken res view segment id w events r) := by
  have ho := standing_overlap h hasked w hevents
  unfold Standing at ho
  split at ho
  case h_6 =>
    obtain ⟨r, hr, hends⟩ := ho hpaused
    exact ⟨r, hr, fun hstopped hovertaken => hstopped.1 hovertaken.status, hends.resolve_right⟩
  all_goals
    next hat =>
      rw [hat] at hover
      cases hover

end

def pauseFirst : Request := { method := "POST", path := "/routines/1/pause" }

def resumeFirst : Request := { method := "POST", path := "/routines/1/resume" }

-- A service with a routine that is to run at some time.
def scheduledFirst : Rehearsal.World :=
  after (Rehearsal.resources {}) {}
    [posted "/scrapers" (scraperNamed "new"), posted "/routines" (routineOf 1)]

-- The routine is paused before it is loaded, and resumed and paused again after that; then it
-- counts as executing, and is not resumed.
def pausedBefore : List Event :=
  [.request pauseFirst, .work, .request resumeFirst, .work, .request pauseFirst, .work,
    .request resumeFirst, .work, .work]

theorem stopped_iff_not_overtaken_pausedBefore :
    let res := Rehearsal.resources {}
    let o := overlap res "1" 1 pausedBefore scheduledFirst
    res.Lawful Rehearsal.World.catalog ∧
    Request.checkNumber "routine_id" "1" = .valid ((1 : Nat) : Int) ∧
    (∀ e ∈ pausedBefore, e.isAbout 1) ∧ o.progress.isOver ∧ o.IsPaused ∧
    (∃ r, o.world.catalog.routine? (1 : Nat) = some r ∧
      (r.Stopped ↔ ¬Overtaken res Rehearsal.World.catalog "1" 1 scheduledFirst pausedBefore r)) ∧
    o.world.catalog.routines.map (fun r => (r.status, r.nextRunAt)) =
      [(Status.paused.name, none)] := by
  have hasked : Request.checkNumber "routine_id" "1" = .valid ((1 : Nat) : Int) := by rfl
  have hevents : ∀ e ∈ pausedBefore, e.isAbout 1 := by decide +kernel
  obtain ⟨hover, hpaused, hkept⟩ :
      let o := overlap (Rehearsal.resources {}) "1" 1 pausedBefore scheduledFirst
      o.progress.isOver ∧ o.IsPaused ∧
        o.world.catalog.routines.map (fun r => (r.status, r.nextRunAt)) =
          [(Status.paused.name, none)] := by
    decide +kernel
  exact ⟨Rehearsal.resources_lawful {}, hasked, hevents, hover, hpaused,
    stopped_iff_not_overtaken (Rehearsal.resources_lawful {}) hasked scheduledFirst hevents hover
      hpaused,
    hkept⟩

-- The routine is paused while a browser is waited for.
def pausedMeanwhile : List Event :=
  [.work, .request pauseFirst, .work, .work, .work, .work]

theorem not_stopped_pausedMeanwhile :
    let o := overlap (Rehearsal.resources {}) "1" 1 pausedMeanwhile scheduledFirst
    (∀ e ∈ pausedMeanwhile, e.isAbout 1) ∧ o.progress.isOver ∧ o.IsPaused ∧
    o.world.catalog.routines.map (fun r => (r.status, r.nextRunAt)) =
      [(Status.active.name, some 60000)] ∧
    ∀ r ∈ o.world.catalog.routines, ¬r.Stopped := by
  decide +kernel

end Service

end Gleaner
