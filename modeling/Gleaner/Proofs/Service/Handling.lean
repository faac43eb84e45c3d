import Gleaner.Proofs.Catalog.Execute
import Gleaner.Proofs.Validation.Valid
import Gleaner.Service.Endpoints
import Mathlib.Data.List.Forall2

namespace Gleaner.Service

section

open Catalog

variable {α : Type}

-- The body of a request, as some check takes it.
def Request.Submits (q : Request) (check : Value → Validation.Checked α) (a : α) : Prop :=
  ∃ v, q.bodyValue = .ok (some v) ∧ check v = .valid a

-- The routine that a request executes.
def Request.executed? (q : Request) : Option Int :=
  match Route.find q.method q.path with
  | .ok (.execute segment) =>
    match Request.checkNumber "routine_id" segment with
    | .valid id => some id
    | .invalid _ => none
  | _ => none

theorem Request.executed?_eq_some {q : Request} {id : Int} (h : q.executed? = some id) :
    ∃ segment, Route.find q.method q.path = .ok (.execute segment) ∧
      Request.checkNumber "routine_id" segment = .valid id := by
  unfold Request.executed? at h
  split at h
  · next segment hroute =>
    split at h
    · next n hn =>
      cases h
      exact ⟨segment, hroute, hn⟩
    · cases h
  · cases h

-- The routine that is asked for and is idle, which may be changed then.
structure Idle (c : Catalog) (segment : String) (r : RoutineRecord) : Prop where
  asked : Request.checkNumber "routine_id" segment = .valid r.id
  stored : c.routine? r.id = some r
  idle : r.isExecuting = false

-- A scraper that is taken for a number. Its aliases differ, and no other scraper has its name.
structure Fits (c : Catalog) (s : Scraper) (id : Nat) : Prop where
  aliases : (s.dataSources.map (·.name)).Nodup
  free : c.isNameTaken s.name id = false

-- All that a request can make of a catalog, by the route it takes.
inductive Change (q : Request) (c : Catalog) : Route → Catalog → Prop
  | stay {route : Route} : Change q c route c
  | createScraper {s : Scraper} {r : ScraperRecord} {c' : Catalog}
      (hs : q.Submits Scraper.check s) (h : c.addScraper s = .ok (c', r)) (hfits : Fits c s 0) :
      Change q c .scrapers c'
  | updateScraper {segment : String} {s : Scraper} {old r : ScraperRecord}
      (hs : q.Submits Scraper.check s)
      (hid : Request.checkNumber "scraper_id" segment = .valid old.id)
      (hold : c.scraper? old.id = some old) (h : ScraperRecord.ofScraper old.id s = .ok r)
      (hfits : Fits c s old.id) : Change q c (.scraper segment) (c.putScraper r)
  | deleteScraper {segment : String} {id : Nat} (hq : q.method = "DELETE")
      (h : c.HasScraper id) : Change q c (.scraper segment) (c.removeScraper id)
  | createRoutine {draft : RoutineDraft} {now : Int} {r : RoutineRecord}
      (hs : c.HasScraper draft.scraperId)
      (h : RoutineRecord.assign { createdAt := now } draft now = .ok r)
      (hd : q.Submits RoutineDraft.check draft) : Change q c .routines (c.addRoutine r).1
  | updateRoutine {segment : String} {draft : RoutineDraft} {now : Int} {old r : RoutineRecord}
      (hold : c.routine? old.id = some old) (hs : c.HasScraper draft.scraperId)
      (h : old.assign draft now = .ok r) (hd : q.Submits RoutineDraft.check draft) :
      Change q c (.routine segment) (c.putRoutine r)
  | deleteRoutine {segment : String} {id : Nat} (hq : q.method = "DELETE")
      (h : c.HasRoutine id) : Change q c (.routine segment) (c.removeRoutine id)
  | pause {segment : String} {now : Int} {old r : RoutineRecord} (hold : Idle c segment old)
      (h : { old.withStatus .paused with updatedAt := now }.reschedule now = .ok r) :
      Change q c (.pause segment) (c.putRoutine r)
  | resume {segment : String} {now : Int} {old r : RoutineRecord} (hold : Idle c segment old)
      (h : { old.withStatus .active with failures := 0, updatedAt := now }.reschedule now =
        .ok r) : Change q c (.resume segment) (c.putRoutine r)
  | execute {segment : String} {r : RoutineRecord} {c' : Catalog} (hr : Idle c segment r)
      (h : c.Ran r c') : Change q c (.execute segment) c'

-- A change moves the catalog once at most, and only one that executes a routine leaves an
-- execution behind.
theorem Change.move {q : Request} {c c' : Catalog} {route : Route} (h : Change q c route c')
    (hroute : Route.find q.method q.path = .ok route) : c.Move q.executed? c' := by
  cases h with
  | stay => exact .stay
  | createScraper hs h hfits => exact .addScraper h
  | updateScraper hs hid hold h hfits =>
    refine .putScraper ⟨_, (scraper?_eq_some hold).1, (ScraperRecord.ofScraper_id h).symm⟩
  | deleteScraper hq h => exact .removeScraper h
  | createRoutine hs h =>
    obtain ⟨iterator, next, -, rfl⟩ := RoutineRecord.assign_eq_ok h
    exact .addRoutine hs
  | updateRoutine hold hs h =>
    obtain ⟨iterator, next, -, rfl⟩ := RoutineRecord.assign_eq_ok h
    exact .putRoutine hold (.inr hs)
  | deleteRoutine hq h => exact .removeRoutine h
  | pause hold h =>
    obtain ⟨next, -, rfl⟩ := RoutineRecord.reschedule_eq_ok h
    exact .putRoutine hold.stored (.inl rfl)
  | resume hold h =>
    obtain ⟨next, -, rfl⟩ := RoutineRecord.reschedule_eq_ok h
    exact .putRoutine hold.stored (.inl rfl)
  | @execute segment r _ hr h =>
    have hexecuted : q.executed? = some (r.id : Int) := by
      unfold Request.executed?
      rw [hroute]
      simp only [hr.asked]
    exact hexecuted ▸ h.move hr.stored

end

section

variable {σ α β : Type}

theorem Handling.bind_apply (work : Handling σ α) (next : α → Handling σ β) (s : σ) :
    (work >>= next) s = match work s with
      | (.ok (.ok a), t) => next a t
      | (.ok (.error r), t) => (.ok (.error r), t)
      | (.error e, t) => (.error e, t) := by
  change ExceptT.bindCont (ExceptT.bindCont next) (work s).1 (work s).2 = _
  rcases work s with ⟨e | ⟨r | a⟩, t⟩ <;> rfl

theorem Handling.lift_apply (work : Effect σ α) (s : σ) :
    (liftM work : Handling σ α) s = ((work s).1.map .ok, (work s).2) := by
  change (Except.ok <$> work : Effect σ (Except Response α)) s = _
  rw [map_eq_pure_bind, Effect.bind_apply]
  rcases work s with ⟨e | a, t⟩ <;> rfl

-- Answers that say that what was asked for has not been done.
def Response.IsRefusal (r : Response) : Prop := 300 ≤ r.status

theorem Response.IsRefusal.of_status {r : Response} (h : Nat.ble 300 r.status = true) :
    r.IsRefusal := Nat.le_of_ble_eq_true h

theorem Route.find_isRefusal {method path : String} {r : Response}
    (h : Route.find method path = .error r) : r.IsRefusal := by
  unfold Route.find at h
  dsimp only at h
  split at h
  · split at h
    · cases h
    · cases h
      exact .of_status rfl
  · split at h <;> cases h <;> exact .of_status rfl

theorem Request.bodyValue_isRefusal {q : Request} {r : Response} (h : q.bodyValue = .error r) :
    r.IsRefusal := by
  unfold Request.bodyValue at h
  split at h
  · cases h
  · split at h <;> cases h <;> exact .of_status rfl

section

variable {view : σ → Catalog}

-- Work that leaves the catalog alone. Its result has some property, and what cuts it short is a
-- refusal.
structure Reads (view : σ → Catalog) (c : Catalog) (work : Handling σ α) (Q : α → Prop) :
    Prop where
  leaves : ∀ s, view s = c → view (work s).2 = c
  result : ∀ s, view s = c → ∀ a, (work s).1 = .ok (.ok a) → Q a
  refusal : ∀ s, view s = c → ∀ r, (work s).1 = .ok (.error r) → r.IsRefusal

-- Where some work leads the catalog, however it ends.
def Leads (view : σ → Catalog) (c : Catalog) (work : Handling σ α) (P : Catalog → Prop) : Prop :=
  ∀ s, view s = c → P (view (work s).2)

-- Work that does not fail.
def Answers (view : σ → Catalog) (c : Catalog) (work : Handling σ α) : Prop :=
  ∀ s, view s = c → ∃ outcome, (work s).1 = .ok outcome

-- Where some work leads the catalog, unless it is refused. It may fail afterwards.
def Settles (view : σ → Catalog) (c : Catalog) (work : Handling σ α) (P : Catalog → Prop) : Prop :=
  ∀ s, view s = c → (∃ r, (work s).1 = .ok (.error r) ∧ r.IsRefusal) ∨ P (view (work s).2)

variable {c : Catalog} {P : Catalog → Prop} {Q : α → Prop} {R : β → Prop}

theorem reads_pure {a : α} (h : Q a) : Reads view c (pure a) Q where
  leaves _ hs := hs
  result := by
    rintro s - _ ⟨⟩
    exact h
  refusal := by rintro s - _ ⟨⟩

theorem reads_throw {r : Response} (h : r.IsRefusal) : Reads view c (throw r : Handling σ α) Q where
  leaves _ hs := hs
  result := by rintro s - _ ⟨⟩
  refusal := by
    rintro s - _ ⟨⟩
    exact h

theorem reads_fail (e : Failure) : Reads view c (liftM (throw e : Effect σ α)) Q where
  leaves _ hs := hs
  result := by rintro s - _ ⟨⟩
  refusal := by rintro s - _ ⟨⟩

theorem reads_bind {work : Handling σ α} {next : α → Handling σ β} (hw : Reads view c work Q)
    (hn : ∀ a, Q a → Reads view c (next a) R) : Reads view c (work >>= next) R := by
  have hbind : ∀ s, view s = c → view ((work >>= next) s).2 = c ∧
      (∀ b, ((work >>= next) s).1 = .ok (.ok b) → R b) ∧
      ∀ r, ((work >>= next) s).1 = .ok (.error r) → r.IsRefusal := by
    intro s hs
    have hleaves := hw.leaves s hs
    have hresult := hw.result s hs
    have hrefusal := hw.refusal s hs
    rw [Handling.bind_apply]
    generalize work s = ended at hleaves hresult hrefusal ⊢
    rcases ended with ⟨e | ⟨r | a⟩, t⟩
    · refine ⟨hleaves, ?_, ?_⟩ <;> rintro _ ⟨⟩
    · refine ⟨hleaves, ?_, ?_⟩ <;> rintro _ ⟨⟩
      exact hrefusal r rfl
    · have hnext := hn a (hresult a rfl)
      exact ⟨hnext.leaves t hleaves, hnext.result t hleaves, hnext.refusal t hleaves⟩
  exact ⟨fun s hs => (hbind s hs).1, fun s hs => (hbind s hs).2.1, fun s hs => (hbind s hs).2.2⟩

theorem reads_discard {work : Handling σ α} (hw : Reads view c work Q) :
    Reads view c (discard work) fun _ => ∃ a, Q a := by
  change Reads view c ((fun _ => PUnit.unit) <$> work) _
  rw [map_eq_pure_bind]
  exact reads_bind hw fun a ha => reads_pure ⟨a, ha⟩

theorem reads_lift {work : Effect σ α} (h : Leaves view work) :
    Reads view c (liftM work : Handling σ α) fun _ => True where
  leaves s hs := by
    rw [Handling.lift_apply]
    exact (h s).trans hs
  result _ _ _ _ := trivial
  refusal s _ r hr := by
    rw [Handling.lift_apply] at hr
    rcases hw : work s with ⟨e | a, t⟩ <;> rw [hw] at hr <;> cases hr

theorem Reads.mono {work : Handling σ α} {Q' : α → Prop} (h : Reads view c work Q)
    (hq : ∀ a, Q a → Q' a) : Reads view c work Q' where
  leaves := h.leaves
  result s hs a ha := hq a (h.result s hs a ha)
  refusal := h.refusal

theorem leads_of_reads {work : Handling σ α} (h : Reads view c work Q) (hP : P c) :
    Leads view c work P := by
  intro s hs
  rw [h.leaves s hs]
  exact hP

theorem leads_bind {work : Handling σ α} {next : α → Handling σ β} (hw : Reads view c work Q)
    (hP : P c) (hn : ∀ a, Q a → Leads view c (next a) P) : Leads view c (work >>= next) P := by
  intro s hs
  have hleaves := hw.leaves s hs
  have hresult := hw.result s hs
  rw [Handling.bind_apply]
  generalize work s = ended at hleaves hresult ⊢
  rcases ended with ⟨e | ⟨r | a⟩, t⟩
  · rw [show view t = c from hleaves]
    exact hP
  · rw [show view t = c from hleaves]
    exact hP
  · exact hn a (hresult a rfl) t hleaves

-- What comes after the change itself may look at the catalog only.
theorem leads_bind_last {work : Handling σ α} {next : α → Handling σ β}
    (hw : Leads view c work P) (hn : ∀ a c, Reads view c (next a) fun _ => True) :
    Leads view c (work >>= next) P := by
  intro s hs
  have hview := hw s hs
  rw [Handling.bind_apply]
  generalize work s = ended at hview ⊢
  rcases ended with ⟨e | ⟨r | a⟩, t⟩
  · exact hview
  · exact hview
  · rw [(hn a _).leaves t rfl]
    exact hview

theorem answers_pure (a : α) : Answers view c (pure a : Handling σ α) :=
  fun _ _ => ⟨.ok a, rfl⟩

theorem answers_throw (r : Response) : Answers view c (throw r : Handling σ α) :=
  fun _ _ => ⟨.error r, rfl⟩

theorem answers_bind {work : Handling σ α} {next : α → Handling σ β} (hw : Reads view c work Q)
    (ha : Answers view c work) (hn : ∀ a, Q a → Answers view c (next a)) :
    Answers view c (work >>= next) := by
  intro s hs
  have hleaves := hw.leaves s hs
  have hresult := hw.result s hs
  obtain ⟨outcome, houtcome⟩ := ha s hs
  rw [Handling.bind_apply]
  generalize work s = ended at hleaves hresult houtcome ⊢
  rcases ended with ⟨e | ⟨r | a⟩, t⟩
  · cases houtcome
  · exact ⟨.error r, rfl⟩
  · exact hn a (hresult a rfl) t hleaves

theorem settles_of_leads {work : Handling σ α} (h : Leads view c work P) : Settles view c work P :=
  fun s hs => .inr (h s hs)

-- What comes before the change may not fail.
theorem settles_bind {work : Handling σ α} {next : α → Handling σ β} (hw : Reads view c work Q)
    (ha : Answers view c work) (hn : ∀ a, Q a → Settles view c (next a) P) :
    Settles view c (work >>= next) P := by
  intro s hs
  have hleaves := hw.leaves s hs
  have hresult := hw.result s hs
  have hrefusal := hw.refusal s hs
  obtain ⟨outcome, houtcome⟩ := ha s hs
  rw [Handling.bind_apply]
  generalize work s = ended at hleaves hresult hrefusal houtcome ⊢
  rcases ended with ⟨e | ⟨r | a⟩, t⟩
  · cases houtcome
  · exact .inl ⟨r, rfl, hrefusal r rfl⟩
  · exact hn a (hresult a rfl) t hleaves

theorem leads_lift {work : Effect σ α} (h : Yields view c work P) :
    Leads view c (liftM work : Handling σ α) P := by
  intro s hs
  rw [Handling.lift_apply]
  exact h s hs

theorem reads_answered {answer : Except Response α}
    (h : ∀ r, answer = .error r → r.IsRefusal) :
    Reads view c (answered (σ := σ) answer) fun a => answer = .ok a := by
  cases answer with
  | ok a => exact reads_pure rfl
  | error r => exact reads_throw (h r rfl)

theorem answers_answered (answer : Except Response α) :
    Answers view c (answered (σ := σ) answer) := by
  cases answer with
  | ok a => exact answers_pure a
  | error r => exact answers_throw r

theorem reads_orUnprocessable (checked : Validation.Checked α) :
    Reads view c (orUnprocessable (σ := σ) checked) fun a => checked = .valid a := by
  cases checked with
  | valid a => exact reads_pure rfl
  | invalid issues => exact reads_throw (.of_status rfl)

theorem answers_orUnprocessable (checked : Validation.Checked α) :
    Answers view c (orUnprocessable (σ := σ) checked) := by
  cases checked with
  | valid a => exact answers_pure a
  | invalid issues => exact answers_throw _

theorem reads_orFailure (outcome : Except Failure α) :
    Reads view c (orFailure (σ := σ) outcome) fun a => outcome = .ok a := by
  cases outcome with
  | ok a => exact reads_pure rfl
  | error e => exact reads_fail e

theorem reads_storable (n : Int) : Reads view c (storable (σ := σ) n) fun _ => True := by
  unfold storable
  split
  · exact reads_pure trivial
  · exact (reads_orFailure _).mono fun _ _ => trivial

theorem checkBody_eq_valid {q : Request} {check : Value → Validation.Checked α} {a : α}
    {body : Option Value} (hbody : q.bodyValue = .ok body)
    (h : Request.checkBody check body = .valid a) : q.Submits check a := by
  cases body with
  | none => cases h
  | some v =>
    have hv := Validation.Checked.under_eq_valid h
    cases hc : check v with
    | valid b =>
      rw [hc] at hv
      cases hv
      exact ⟨v, hbody, hc⟩
    | invalid issues =>
      rw [hc] at hv
      cases hv

theorem reads_checkedBody (q : Request) (check : Value → Validation.Checked α) :
    Reads view c (checkedBody (σ := σ) q check) (q.Submits check) :=
  reads_bind (reads_answered fun _ => Request.bodyValue_isRefusal) fun _ hbody =>
    (reads_orUnprocessable _).mono fun _ hvalid => checkBody_eq_valid hbody hvalid

theorem answers_checkedBody (q : Request) (check : Value → Validation.Checked α) :
    Answers view c (checkedBody (σ := σ) q check) :=
  answers_bind (reads_answered fun _ => Request.bodyValue_isRefusal) (answers_answered _)
    fun _ _ => answers_orUnprocessable _

theorem reads_checkedNumberAndBody (q : Request) (name segment : String)
    (check : Value → Validation.Checked α) :
    Reads view c (checkedNumberAndBody (σ := σ) q name segment check) fun asked =>
      Request.checkNumber name segment = .valid asked.1 ∧ q.Submits check asked.2 := by
  refine reads_bind (reads_answered fun _ => Request.bodyValue_isRefusal) fun body hbody => ?_
  refine (reads_orUnprocessable _).mono fun asked hvalid => ?_
  obtain ⟨_, a, hfirst, ha, rfl⟩ := Validation.Checked.ap_eq_valid hvalid
  obtain ⟨id, hid, rfl⟩ := Validation.Checked.map_eq_valid hfirst
  exact ⟨hid, checkBody_eq_valid hbody ha⟩

theorem answers_checkedNumberAndBody (q : Request) (name segment : String)
    (check : Value → Validation.Checked α) :
    Answers view c (checkedNumberAndBody (σ := σ) q name segment check) :=
  answers_bind (reads_answered fun _ => Request.bodyValue_isRefusal) (answers_answered _)
    fun _ _ => answers_orUnprocessable _

theorem reads_bodies {body : α → Handling σ Value} {Q : α → Value → Prop}
    (h : ∀ a, Reads view c (body a) (Q a)) (as : List α) :
    Reads view c (bodies body as) (List.Forall₂ Q as) := by
  induction as with
  | nil => exact reads_pure .nil
  | cons a rest ih =>
    exact reads_bind (h a) fun _ hv => reads_bind ih fun _ hrest => reads_pure (.cons hv hrest)

end

end

end Gleaner.Service
