import Gleaner.Proofs.Catalog.Records
import Gleaner.Proofs.Service.Schedules

namespace Gleaner.Service

open Catalog

variable {σ : Type}

-- A request for the scrapers from some place on, up to some number.
structure ListsScrapers (q : Request) (skip limit : Int) : Prop where
  route : Route.find q.method q.path = .ok .scrapers
  method : q.method ≠ "POST"
  askedSkip : q.checkParameter "skip" 0 (Validation.atLeast 0) = .valid skip
  askedLimit : q.checkParameter "limit" 50 (Validation.between 1 100) = .valid limit
  fits : Sql.fitsInteger skip = true

-- How scrapers are shown.
def listed (shown : List StoredScraper) : Response :=
  .ok (.list (shown.map fun p => p.document.toValue .full))

theorem scraperBody_apply (r : ScraperRecord) (s : σ) :
    scraperBody r s = (r.scraper.map fun p => .ok (p.document.toValue .full), s) := by
  unfold scraperBody
  rw [Handling.bind_apply]
  cases r.scraper <;> rfl

theorem bodies_scraperBody (rs : List ScraperRecord) (s : σ) :
    bodies scraperBody rs s = ((rs.mapM ScraperRecord.scraper).map fun shown =>
      .ok (shown.map fun p => p.document.toValue .full), s) := by
  induction rs with
  | nil => rfl
  | cons r rs ih =>
    rw [bodies, Handling.bind_apply, scraperBody_apply, List.mapM_cons]
    cases r.scraper with
    | error e => rfl
    | ok p =>
      change (bodies scraperBody rs >>= fun rest => pure (_ :: rest)) s = _
      rw [Handling.bind_apply, ih]
      cases rs.mapM ScraperRecord.scraper <;> rfl

section

variable {res : Resources σ} {view : σ → Catalog} (h : res.Lawful view)
include h

theorem listScrapers_apply {q : Request} {skip limit : Int} (hq : ListsScrapers q skip limit)
    (s : σ) : (listScrapers res q s).1 =
      ((((view s).scrapers.drop skip.toNat).take limit.toNat).mapM ScraperRecord.scraper).map
        fun shown => .ok (listed shown) := by
  have hasked : orUnprocessable (Prod.mk <$> q.checkParameter "skip" 0 (Validation.atLeast 0) <*>
      q.checkParameter "limit" 50 (Validation.between 1 100)) s =
        (.ok (.ok (skip, limit)), s) := by
    rw [hq.askedSkip, hq.askedLimit]
    rfl
  have hfits : storable skip s = (.ok (.ok ()), s) := by
    rw [storable, if_pos hq.fits]
    rfl
  have hcatalog : catalog res s = (.ok (.ok (view s)), (res.keeper.catalog s).2) := by
    rw [← h.keeper.catalog s]
    rfl
  unfold listScrapers
  rw [Handling.bind_apply, hasked]
  dsimp only
  rw [Handling.bind_apply, hfits]
  dsimp only
  rw [Handling.bind_apply, hcatalog]
  dsimp only
  rw [Handling.bind_apply, bodies_scraperBody]
  cases (((view s).scrapers.drop skip.toNat).take limit.toNat).mapM ScraperRecord.scraper <;> rfl

theorem respond_listScrapers {q : Request} {skip limit : Int} (hq : ListsScrapers q skip limit)
    (s : σ) : (respond res q s).1 =
      ((((view s).scrapers.drop skip.toNat).take limit.toNat).mapM ScraperRecord.scraper).map
        listed := by
  have hhandled : (handled res q s).1 = (listScrapers res q s).1 := by
    rw [handled_of_route hq.route, dispatch, if_neg hq.method]
  rw [respond_apply, hhandled, listScrapers_apply h hq]
  cases (((view s).scrapers.drop skip.toNat).take limit.toNat).mapM ScraperRecord.scraper <;> rfl

end

-- A request that hands in a scraper for a number. The number of a new one is not asked for.
inductive Request.HandsIn (q : Request) (id : Nat) (p : Scraper) : Prop
  | create (hroute : Route.find q.method q.path = .ok .scrapers)
      (hs : q.Submits Scraper.check p)
  | update {segment : String} (hroute : Route.find q.method q.path = .ok (.scraper segment))
      (hid : Request.checkNumber "scraper_id" segment = .valid id)
      (hs : q.Submits Scraper.check p)

theorem Request.HandsIn.accepted {q : Request} {id : Nat} {p : Scraper} (h : q.HandsIn id p) :
    p.Accepted := by
  cases h with
  | create _ hs | update _ _ hs =>
    obtain ⟨v, -, hv⟩ := hs
    exact Scraper.accepted hv

-- A request for a scraper to be kept, under a number of 64 bits if it gives one.
inductive Request.KeepsScraper (q : Request) : Prop
  | create (hroute : Route.find q.method q.path = .ok .scrapers) (hmethod : q.method = "POST")
  | update {segment : String} (hroute : Route.find q.method q.path = .ok (.scraper segment))
      (hmethod : q.method = "PUT")
      (hfits : ∀ id, Request.checkNumber "scraper_id" segment = .valid id →
        Sql.fitsInteger id = true)

-- The scraper that has been handed in is the only one under its number.
def Request.Kept (q : Request) (c : Catalog) : Prop :=
  ∃ p r, q.HandsIn r.id p ∧ ScraperRecord.ofScraper r.id p = .ok r ∧
    ∀ other, (other ∈ c.scrapers ∧ other.id = r.id) ↔ other = r

section

variable {res : Resources σ} {view : σ → Catalog} (h : res.Lawful view) {c : Catalog} {q : Request}
include h

theorem settles_createScraper (hc : ¬c.HasScraper 0)
    (hroute : Route.find q.method q.path = .ok .scrapers) :
    Settles view c (createScraper res q) q.Kept := by
  refine settles_bind (reads_checkedBody _ _) (answers_checkedBody _ _) fun p hp => ?_
  refine settles_bind (reads_checkScraper h p 0) (answers_checkScraper h p 0) fun _ hfits => ?_
  have hin : ∀ id, q.HandsIn id p := fun _ => .create hroute hp
  obtain ⟨r, hr, -⟩ := ScraperRecord.reread_of_accepted (hin 0).accepted
    (nextId (c.scrapers.map (·.id)))
  have hadd := addScraper_of_free hc hr hfits.free
  refine settles_of_leads (leads_bind_last (leads_change_of_ok h hadd ?_) fun kept _ => ?_)
  · have hnumber := ScraperRecord.ofScraper_id hr
    exact ⟨p, r, hin _, hnumber.symm ▸ hr, only_addScraper hadd⟩
  · exact reads_bind (reads_scraperBody kept) fun _ _ => reads_pure trivial

theorem settles_updateScraper {segment : String}
    (hroute : Route.find q.method q.path = .ok (.scraper segment))
    (hfits : ∀ id, Request.checkNumber "scraper_id" segment = .valid id →
      Sql.fitsInteger id = true) : Settles view c (updateScraper res q segment) q.Kept := by
  refine settles_bind (reads_checkedNumberAndBody _ _ _ _) (answers_checkedNumberAndBody _ _ _ _)
    fun asked hasked => ?_
  obtain ⟨hid, hp⟩ := hasked
  refine settles_bind (reads_findScraper h _) (answers_findScraper h (hfits _ hid))
    fun found hfound => ?_
  obtain ⟨hmem, hnumber⟩ := scraper?_eq_some hfound
  refine settles_bind (reads_checkScraper h _ _) (answers_checkScraper h _ _) fun _ hfits => ?_
  have hin : q.HandsIn found.id asked.2 := .update hroute (hnumber ▸ hid) hp
  obtain ⟨r, hr, -⟩ := ScraperRecord.reread_of_accepted hin.accepted found.id
  have hsame := ScraperRecord.ofScraper_id hr
  rw [hr]
  refine settles_bind (reads_orFailure _) (answers_pure r) fun record hrecord => ?_
  cases hrecord
  have hfree : c.isNameTaken r.name r.id = false := by
    rw [ScraperRecord.ofScraper_name hr, hsame]
    exact hfits.free
  have hreplaced := replaceScraper_eq_ok (a := ()).mpr ⟨hfree, rfl⟩
  refine settles_of_leads (leads_bind_last (leads_change_of_ok h hreplaced ?_) fun _ _ => ?_)
  · exact ⟨asked.2, r, hsame ▸ hin, hsame.symm ▸ hr, only_putScraper ⟨found, hmem, hsame.symm⟩⟩
  · exact reads_bind (reads_scraperBody r) fun _ _ => reads_pure trivial

-- What is handed in replaces what was under its number, unless it is refused.
theorem respond_kept (hq : q.KeepsScraper) {s : σ} (hs : ¬(view s).HasScraper 0) :
    Refused res q s ∨ q.Kept (view (respond res q s).2) := by
  cases hq with
  | create hroute hmethod =>
    refine respond_settles hroute ?_
    rw [dispatch, if_pos hmethod]
    exact settles_createScraper h hs hroute
  | update hroute hmethod hfits =>
    refine respond_settles hroute ?_
    rw [dispatch, if_pos hmethod]
    exact settles_updateScraper h hroute hfits

end

-- A record that is new in a catalog is that of a scraper that has just been handed in.
theorem Change.scraper {q : Request} {c c' : Catalog} {route : Route} (h : Change q c route c')
    (hroute : Route.find q.method q.path = .ok route) {r : ScraperRecord} (hr : r ∈ c'.scrapers) :
    r ∈ c.scrapers ∨ ∃ p, q.HandsIn r.id p ∧ ScraperRecord.ofScraper r.id p = .ok r := by
  cases h with
  | @createScraper p kept _ hs h =>
    obtain ⟨hkept, rfl⟩ := addScraper_eq_ok h
    rcases List.mem_append.mp hr with hold | hnew
    · exact .inl hold
    · cases List.mem_singleton.mp hnew
      exact .inr ⟨p, .create hroute hs, (ScraperRecord.ofScraper_id hkept).symm ▸ hkept⟩
  | @updateScraper segment p old kept hs hid hold h =>
    obtain ⟨s, hs', rfl⟩ := List.mem_map.mp hr
    by_cases hsame : s.id = kept.id
    · rw [if_pos hsame]
      have hnumber := ScraperRecord.ofScraper_id h
      exact .inr ⟨p, .update hroute (hnumber.symm ▸ hid) hs, hnumber.symm ▸ h⟩
    · rw [if_neg hsame]
      exact .inl hs'
  | deleteScraper => exact .inl (List.mem_of_mem_filter hr)
  | execute _ h => cases h <;> exact .inl hr
  | _ => exact .inl hr

-- The record of a scraper as it was handed in by some request, for the last time.
def Submitted (past : History) (requests : List Request) (n : Nat) (r : ScraperRecord)
    (p : StoredScraper) : Prop :=
  p.id = r.id ∧ ∃ (k : Nat) (hk : k < requests.length), k < n ∧
    requests[k].HandsIn r.id p.toScraper ∧ ScraperRecord.ofScraper r.id p.toScraper = .ok r ∧
    ∀ m, k < m → m ≤ n → r ∈ (past.catalog m).scrapers

-- A record is read again as it was handed in if that is legible.
theorem Submitted.read {past : History} {requests : List Request} {n : Nat} {r : ScraperRecord}
    {p : StoredScraper} (h : Submitted past requests n r p) :
    r.scraper.toOption = if p.toScraper.isLegible then some p else none := by
  obtain ⟨hid, k, hk, -, hin, hkept, -⟩ := h
  obtain ⟨_, hagain, hread⟩ := ScraperRecord.reread_of_accepted hin.accepted r.id
  cases hkept.symm.trans hagain
  rw [hread, ← hid]

theorem toOption_map {α β ε : Type} (f : α → β) (x : Except ε α) :
    (x.map f).toOption = x.toOption.map f := by
  cases x <;> rfl

theorem toOption_mapM_cons {α β ε : Type} (f : α → Except ε β) (a : α) (as : List α) :
    ((a :: as).mapM f).toOption =
      (f a).toOption.bind fun b => (as.mapM f).toOption.map (b :: ·) := by
  rw [List.mapM_cons]
  cases f a with
  | error e => rfl
  | ok b => cases as.mapM f <;> rfl

theorem mapM_scraper {past : History} {requests : List Request} {n : Nat} {rs : List ScraperRecord}
    {ps : List StoredScraper} (hps : List.Forall₂ (Submitted past requests n) rs ps) :
    (rs.mapM ScraperRecord.scraper).toOption =
      if ps.all (·.toScraper.isLegible) then some ps else none := by
  induction hps with
  | nil => rfl
  | @cons r p rs ps hp hps ih =>
    rw [toOption_mapM_cons, hp.read, ih, List.all_cons]
    cases p.toScraper.isLegible <;> cases ps.all (·.toScraper.isLegible) <;> rfl

theorem exists_submitted {past : History} {requests : List Request} {n : Nat}
    {rs : List ScraperRecord} (h : ∀ r ∈ rs, ∃ p, Submitted past requests n r p) :
    ∃ ps, List.Forall₂ (Submitted past requests n) rs ps := by
  induction rs with
  | nil => exact ⟨[], .nil⟩
  | cons r rs ih =>
    obtain ⟨⟨p, hp⟩, hrest⟩ := List.forall_mem_cons.mp h
    obtain ⟨ps, hps⟩ := ih hrest
    exact ⟨p :: ps, .cons hp hps⟩

variable {res : Resources σ} {view : σ → Catalog} {s : σ} (h : res.Lawful view)
include h

theorem history_submitted (hs : (view s).scrapers = []) (requests : List Request) (n : Nat)
    (hn : n ≤ requests.length) :
    ∀ r ∈ ((history res view s requests).catalog n).scrapers,
      ∃ p, Submitted (history res view s requests) requests n r p := by
  induction n with
  | zero =>
    intro r hr
    change r ∈ (view s).scrapers at hr
    rw [hs] at hr
    cases hr
  | succ n ih =>
    intro r hr
    have hold : r ∈ ((history res view s requests).catalog n).scrapers →
        ∃ p, Submitted (history res view s requests) requests (n + 1) r p := by
      intro hold
      obtain ⟨p, hid, k, hk, hkn, hin, hkept, hstored⟩ := ih (by omega) r hold
      refine ⟨p, hid, k, hk, by omega, hin, hkept, fun m hkm hm => ?_⟩
      obtain rfl | hlt : m = n + 1 ∨ m ≤ n := by omega
      · exact hr
      · exact hstored m hkm hlt
    obtain hsame | ⟨route, hroute, hchange⟩ := history_changes h requests n hn
    · exact hold (hsame ▸ hr)
    · rcases hchange.scraper hroute hr with hkept | ⟨p, hin, hkept⟩
      · exact hold hkept
      · refine ⟨⟨p, r.id⟩, rfl, n, hn, by omega, hin, hkept, fun m hnm hm => ?_⟩
        cases (by omega : m = n + 1)
        exact hr

theorem history_numbered (hs : (view s).scrapers = []) (requests : List Request) (n : Nat)
    (hn : n ≤ requests.length) : ¬((history res view s requests).catalog n).HasScraper 0 := by
  induction n with
  | zero =>
    rintro ⟨r, hr, -⟩
    change r ∈ (view s).scrapers at hr
    rw [hs] at hr
    cases hr
  | succ n ih => exact (history_moves h requests n hn).not_hasScraper_zero (ih (by omega))

-- A scraper that is taken can be kept under any number, and it is read again with the same name,
-- instructions and data sources exactly if it is legible. Now take any requests to a service that
-- starts without scrapers. One that hands in a scraper has it kept in the place of what was under
-- its number, unless it is refused. So each record the service has is that of a scraper as it was
-- handed in for the last time, and a list of scrapers is answered with these, unless one of them
-- is not legible: then it fails.
theorem scrapers_listed (hs : (view s).scrapers = []) (requests : List Request) :
    let past := history res view s requests
    (∀ v p, Scraper.check v = .valid p → ∀ id : Nat, ∃ r, ScraperRecord.ofScraper id p = .ok r ∧
      r.scraper.toOption = if p.isLegible then some ⟨p, id⟩ else none) ∧
    (∀ (k : Nat) (hk : k < requests.length), requests[k].KeepsScraper →
      Refused res requests[k] (after res s (requests.take k)) ∨
        requests[k].Kept (past.catalog (k + 1))) ∧
    ∀ n ≤ requests.length, ∀ q skip limit, ListsScrapers q skip limit →
      ∃ submitted, List.Forall₂ (Submitted past requests n)
          (((past.catalog n).scrapers.drop skip.toNat).take limit.toNat) submitted ∧
        (respond res q (after res s (requests.take n))).1.toOption =
          if submitted.all (·.toScraper.isLegible) then some (listed submitted) else none := by
  refine ⟨fun v p hp id => ScraperRecord.reread_of_accepted (Scraper.accepted hp) id, ?_, ?_⟩
  · intro k hk hkeeps
    have hnumbered := history_numbered h hs requests k (by omega)
    simp only [history, after_take_succ hk]
    exact respond_kept h hkeeps hnumbered
  · intro n hn q skip limit hq
    have hall : ∀ r ∈ (((history res view s requests).catalog n).scrapers.drop skip.toNat).take
        limit.toNat, ∃ p, Submitted (history res view s requests) requests n r p := fun r hr =>
      history_submitted h hs requests n hn r (List.mem_of_mem_drop (List.mem_of_mem_take hr))
    obtain ⟨submitted, hsubmitted⟩ := exists_submitted hall
    refine ⟨submitted, hsubmitted, ?_⟩
    rw [respond_listScrapers h hq, toOption_map]
    refine (congrArg (Option.map listed) (mapM_scraper hsubmitted)).trans ?_
    cases submitted.all (·.toScraper.isLegible) <;> rfl

omit h

def askScrapers : Request := { method := "GET", path := "/scrapers" }

theorem askScrapers_lists : ListsScrapers askScrapers 0 50 where
  route := by rfl
  method := by decide
  askedSkip := rfl
  askedLimit := rfl
  fits := by decide

def handFirst : Request := posted "/scrapers" (scraperNamed "first")

-- A scraper that is handed in is kept, it is read again as it was, and it is listed.
theorem scrapers_listed_firstScraper :
    (Rehearsal.resources {}).Lawful Rehearsal.World.catalog ∧
    (Rehearsal.World.catalog {}).scrapers = [] ∧ ListsScrapers askScrapers 0 50 ∧
    (∃ p r, Scraper.check (scraperNamed "first") = .valid p ∧
      ScraperRecord.ofScraper 1 p = .ok r ∧ r.scraper.toOption = some ⟨p, 1⟩) ∧
    handFirst.Kept ((rehearsed [handFirst]).catalog 1) ∧
    ∃ submitted, List.Forall₂ (Submitted (rehearsed [handFirst]) [handFirst] 1)
        ((((rehearsed [handFirst]).catalog 1).scrapers.drop 0).take 50) submitted ∧
      (respond (Rehearsal.resources {}) askScrapers
        (after (Rehearsal.resources {}) {} [handFirst])).1.toOption = some (listed submitted) := by
  have hfacts : (Scraper.check (scraperNamed "first")).value?.map (·.isLegible) = some true ∧
      (respond (Rehearsal.resources {}) handFirst {}).1.toOption.map (·.status) = some 201 ∧
      (respond (Rehearsal.resources {}) askScrapers
        (after (Rehearsal.resources {}) {} [handFirst])).1.toOption.isSome = true := by
    decide +kernel
  obtain ⟨htaken, hcreated, hanswered⟩ := hfacts
  have hlawful := Rehearsal.resources_lawful {}
  obtain ⟨hread, hkept, hlisted⟩ := scrapers_listed (s := {}) hlawful rfl [handFirst]
  refine ⟨hlawful, rfl, askScrapers_lists, ?_, ?_, ?_⟩
  · obtain ⟨p, hp, hlegible⟩ := Option.map_eq_some_iff.mp htaken
    obtain ⟨r, hr, hagain⟩ := hread _ p (Validation.Checked.value?_eq_some hp) 1
    rw [hlegible] at hagain
    exact ⟨p, r, Validation.Checked.value?_eq_some hp, hr, hagain⟩
  · refine (hkept 0 (by decide) (.create (by rfl) rfl)).resolve_left ?_
    rintro ⟨answer, hanswer, hrefusal⟩
    change (respond (Rehearsal.resources {}) handFirst {}).1 = .ok answer at hanswer
    rw [hanswer] at hcreated
    have hstatus : answer.status = 201 := Option.some.inj hcreated
    rw [Response.IsRefusal, hstatus] at hrefusal
    omega
  · obtain ⟨submitted, hsubmitted, hanswer⟩ :=
      hlisted 1 (Nat.le_refl 1) askScrapers 0 50 askScrapers_lists
    refine ⟨submitted, hsubmitted, ?_⟩
    change (respond (Rehearsal.resources {}) askScrapers
      (after (Rehearsal.resources {}) {} [handFirst])).1.toOption = _ at hanswer
    rw [hanswer] at hanswered ⊢
    split at hanswered
    · next hall => exact if_pos hall
    · cases hanswered

-- A scraper that looks for an element by a single attribute whose name is that of the tag.
def taggedScraper : Value :=
  .object [("name", .text "tagged"), ("instructions", .list [.object [("type", .text "condition"),
    ("if", .object [("type", .text "isVisible"), ("selectors", .list [
      .object [("type", .text "attributes"),
        ("attributes", .object [(Json.dateTag, .text "x")])]])]),
    ("then", .list [])]])]

def taggedRequests : List Request := [posted "/scrapers" taggedScraper]

-- It is taken and kept, and neither it nor any list with it can be read from then on.
theorem not_listed_taggedScraper :
    (∃ p, Scraper.check taggedScraper = .valid p ∧
      ¬∃ r, ScraperRecord.ofScraper 1 p = .ok r ∧ r.scraper = .ok ⟨p, 1⟩) ∧
    ((rehearsed taggedRequests).catalog 1).scrapers.map (·.name) = ["tagged"] ∧
    ¬∃ answer, (respond (Rehearsal.resources {}) askScrapers
      (after (Rehearsal.resources {}) {} taggedRequests)).1 = .ok answer := by
  have hfacts : (Scraper.check taggedScraper).value?.map (·.isLegible) = some false ∧
      ((rehearsed taggedRequests).catalog 1).scrapers.map (·.name) = ["tagged"] ∧
      (respond (Rehearsal.resources {}) askScrapers
        (after (Rehearsal.resources {}) {} taggedRequests)).1.toOption.isNone = true := by
    decide +kernel
  obtain ⟨htaken, hkept, hfailed⟩ := hfacts
  refine ⟨?_, hkept, ?_⟩
  · obtain ⟨p, hp, hlegible⟩ := Option.map_eq_some_iff.mp htaken
    have hp := Validation.Checked.value?_eq_some hp
    refine ⟨p, hp, ?_⟩
    rintro ⟨r, hr, hread⟩
    obtain ⟨_, hagain, hfails⟩ := ScraperRecord.reread_of_accepted (Scraper.accepted hp) 1
    cases hr.symm.trans hagain
    rw [hread, hlegible] at hfails
    cases hfails
  · rintro ⟨answer, hanswer⟩
    rw [hanswer] at hfailed
    cases hfailed

end Gleaner.Service
