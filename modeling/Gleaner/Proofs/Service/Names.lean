import Gleaner.Proofs.Service.Scrapers
import Gleaner.Proofs.Service.Turns

namespace Gleaner

-- What the database has against a second row with the same name.
def Failure.IsDuplicate (e : Failure) : Prop :=
  ∃ table column, e = .sql (.duplicate table column)

-- The record of a scraper whose aliases differ and whose jumps all find their markers. It is also
-- this scraper that is read again.
def ScraperRecord.Sound (r : ScraperRecord) : Prop :=
  ∃ p : Scraper, ScraperRecord.ofScraper r.id p = .ok r ∧ (p.dataSources.map (·.name)).Nodup ∧
    Instruction.unresolvedJumps p.instructions = [] ∧
    ∀ stored, r.scraper = .ok stored → stored.toScraper = p

theorem ScraperRecord.sound_of_accepted {p : Scraper} {id : Nat} {r : ScraperRecord}
    (hp : p.Accepted) (haliases : (p.dataSources.map (·.name)).Nodup)
    (h : ScraperRecord.ofScraper id p = .ok r) : r.Sound := by
  have hid := ScraperRecord.ofScraper_id h
  refine ⟨p, hid.symm ▸ h, haliases, hp.jumps, fun stored hstored => ?_⟩
  obtain ⟨r', hr', hread⟩ := ScraperRecord.reread_of_accepted hp id
  cases h.symm.trans hr'
  rw [hstored] at hread
  cases hlegible : p.isLegible with
  | true =>
    simp only [hlegible, if_true, Except.toOption, Option.some.injEq] at hread
    rw [hread]
  | false => simp [hlegible, Except.toOption] at hread

theorem ScraperRecord.scraper_error {r : ScraperRecord} {e : Failure} (h : r.scraper = .error e) :
    ¬e.IsDuplicate := by
  rintro ⟨table, column, rfl⟩
  unfold ScraperRecord.scraper restore at h
  cases hi : Json.decode r.instructions with
  | error e =>
    rw [hi] at h
    cases h
  | ok instructions =>
    rw [hi] at h
    change ofChecked _ = _ at h
    unfold ofChecked at h
    split at h <;> cases h

theorem Document.json_error {d : Document} {e : Failure} (h : d.json = .error e) :
    ¬e.IsDuplicate := by
  rintro ⟨table, column, rfl⟩
  unfold Document.json at h
  split at h <;> cases h

theorem ScraperRecord.ofScraper_error {id : Nat} {p : Scraper} {e : Failure}
    (h : ScraperRecord.ofScraper id p = .error e) : ¬e.IsDuplicate := by
  unfold ScraperRecord.ofScraper at h
  cases hi : (Document.list (Instruction.documents p.instructions)).json with
  | error e' =>
    rw [hi] at h
    cases h
    exact Document.json_error hi
  | ok instructions =>
    rw [hi] at h
    cases hd : (Document.list (p.dataSources.map DataSource.document)).json with
    | error e' =>
      rw [hd] at h
      cases h
      exact Document.json_error hd
    | ok dataSources =>
      rw [hd] at h
      cases h

namespace Catalog

variable {c c' : Catalog}

-- No two scrapers have one number or one name, and each record is sound.
structure Tidy (c : Catalog) : Prop where
  apart : c.scrapers.Pairwise fun r s => r.id ≠ s.id ∧ r.name ≠ s.name
  sound : ∀ r ∈ c.scrapers, r.Sound

theorem isNameTaken_eq_false {name : String} {id : Nat} :
    c.isNameTaken name id = false ↔ ∀ s ∈ c.scrapers, s.name = name → s.id = id := by
  simp [isNameTaken]

theorem Tidy.names (hc : c.Tidy) : (c.scrapers.map (·.name)).Nodup :=
  List.pairwise_map.mpr (hc.apart.imp And.right)

theorem Tidy.addScraper {p : Scraper} {r : ScraperRecord} (hc : c.Tidy) (hzero : ¬c.HasScraper 0)
    (h : c.addScraper p = .ok (c', r)) (hfree : c.isNameTaken p.name 0 = false) (hr : r.Sound) :
    c'.Tidy := by
  obtain ⟨hkept, rfl⟩ := addScraper_eq_ok h
  constructor
  · refine List.pairwise_append.mpr ⟨hc.apart, List.pairwise_singleton _ _, fun s hs r' hr' => ?_⟩
    cases List.mem_singleton.mp hr'
    have hlt := lt_nextId (List.mem_map_of_mem (f := (·.id)) hs)
    have hid := ScraperRecord.ofScraper_id hkept
    refine ⟨by omega, fun hname => hzero ⟨s, hs, ?_⟩⟩
    rw [ScraperRecord.ofScraper_name hkept] at hname
    exact isNameTaken_eq_false.mp hfree s hs hname
  · intro r' hr'
    rcases List.mem_append.mp hr' with hold | hnew
    · exact hc.sound r' hold
    · cases List.mem_singleton.mp hnew
      exact hr

-- A record may take the place of another one if no third one has its name.
theorem Tidy.putScraper {r : ScraperRecord} (hc : c.Tidy)
    (hfree : c.isNameTaken r.name r.id = false) (hr : r.Sound) : (c.putScraper r).Tidy := by
  have hother := isNameTaken_eq_false.mp hfree
  constructor
  · refine List.pairwise_map.mpr (hc.apart.imp_of_mem ?_)
    intro a b ha hb hab
    by_cases haid : a.id = r.id
    · have hbid : b.id ≠ r.id := fun hbid => hab.1 (haid.trans hbid.symm)
      rw [if_pos haid, if_neg hbid]
      exact ⟨hbid.symm, fun hname => hbid (hother b hb hname.symm)⟩
    · by_cases hbid : b.id = r.id
      · rw [if_neg haid, if_pos hbid]
        exact ⟨haid, fun hname => haid (hother a ha hname)⟩
      · rw [if_neg haid, if_neg hbid]
        exact hab
  · intro r' hr'
    obtain ⟨s, hs, rfl⟩ := List.mem_map.mp hr'
    by_cases hsid : s.id = r.id
    · rw [if_pos hsid]
      exact hr
    · rw [if_neg hsid]
      exact hc.sound s hs

theorem Tidy.removeScraper (hc : c.Tidy) (id : Nat) : (c.removeScraper id).Tidy where
  apart := hc.apart.sublist List.filter_sublist
  sound r hr := hc.sound r (List.mem_of_mem_filter hr)

end Catalog

namespace Service

open Catalog

section

variable {q : Request} {c c' : Catalog} {route : Route}

theorem sound_of_submits {p : Scraper} {id : Nat} {r : ScraperRecord}
    (hs : q.Submits Scraper.check p) (hfits : Fits c p id)
    {n : Nat} (h : ScraperRecord.ofScraper n p = .ok r) : r.Sound := by
  obtain ⟨v, -, hv⟩ := hs
  exact ScraperRecord.sound_of_accepted (Scraper.accepted hv) hfits.aliases h

-- Whatever a request does, the scrapers stay apart and sound.
theorem Change.tidy (h : Change q c route c') (hc : c.Tidy) (hzero : ¬c.HasScraper 0) :
    c'.Tidy := by
  cases h with
  | createScraper hs h hfits =>
    have hkept := (addScraper_eq_ok h).1
    exact hc.addScraper hzero h hfits.free (sound_of_submits hs hfits hkept)
  | updateScraper hs hid hold h hfits =>
    refine hc.putScraper ?_ (sound_of_submits hs hfits h)
    rw [ScraperRecord.ofScraper_name h, ScraperRecord.ofScraper_id h]
    exact hfits.free
  | deleteScraper hq h => exact hc.removeScraper _
  | execute hr h => cases h <;> exact ⟨hc.apart, hc.sound⟩
  | _ => exact ⟨hc.apart, hc.sound⟩

end

section

variable {σ α β : Type} (view : σ → Catalog) (c : Catalog)

-- Work that may fail, but not because a name is taken.
def Undisputed (work : Handling σ α) : Prop :=
  ∀ s, view s = c → ∀ e, (work s).1 = .error e → ¬e.IsDuplicate

-- Such work that comes to an end, or is refused and has not changed the catalog then.
def Writes (work : Handling σ α) (Q : α → Prop) : Prop :=
  ∀ s, view s = c →
    (∃ a, (work s).1 = .ok (.ok a) ∧ Q a) ∨
    (∃ r, (work s).1 = .ok (.error r) ∧ view (work s).2 = c) ∨
    ∃ e, (work s).1 = .error e ∧ ¬e.IsDuplicate

end

section

variable {σ α β : Type} {view : σ → Catalog} {c : Catalog} {Q : α → Prop} {R : β → Prop}

theorem undisputed_of_answers {work : Handling σ α} (h : Answers view c work) :
    Undisputed view c work := by
  intro s hs e he
  obtain ⟨outcome, houtcome⟩ := h s hs
  rw [houtcome] at he
  cases he

theorem undisputed_orFailure {outcome : Except Failure α}
    (h : ∀ e, outcome = .error e → ¬e.IsDuplicate) :
    Undisputed view c (orFailure (σ := σ) outcome) := by
  intro s _ e he
  cases outcome with
  | ok a => cases he
  | error e' =>
    cases he
    exact h e rfl

theorem undisputed_bind {work : Handling σ β} {next : β → Handling σ α}
    (hw : Reads view c work R) (hd : Undisputed view c work)
    (hn : ∀ b, R b → Undisputed view c (next b)) : Undisputed view c (work >>= next) := by
  intro s hs e he
  have hleaves := hw.leaves s hs
  have hresult := hw.result s hs
  have hfails := hd s hs
  rw [Handling.bind_apply] at he
  rcases hwork : work s with ⟨e' | ⟨r | b⟩, t⟩ <;> rw [hwork] at he hleaves hresult hfails
  · cases he
    exact hfails e rfl
  · cases he
  · exact hn b (hresult b rfl) t hleaves e he

theorem undisputed_storable (n : Int) : Undisputed view c (storable (σ := σ) n) := by
  unfold storable
  split
  · exact undisputed_of_answers (answers_pure ())
  · refine undisputed_orFailure ?_
    rintro _ ⟨⟩ ⟨table, column, hdup⟩
    cases hdup

theorem writes_bind {work : Handling σ β} {next : β → Handling σ α} (hw : Reads view c work R)
    (hd : Undisputed view c work) (hn : ∀ b, R b → Writes view c (next b) Q) :
    Writes view c (work >>= next) Q := by
  intro s hs
  have hleaves := hw.leaves s hs
  have hresult := hw.result s hs
  have hfails := hd s hs
  rw [Handling.bind_apply]
  rcases hwork : work s with ⟨e | ⟨r | b⟩, t⟩ <;> rw [hwork] at hleaves hresult hfails
  · exact .inr (.inr ⟨e, rfl, hfails e rfl⟩)
  · exact .inr (.inl ⟨r, rfl, hleaves⟩)
  · exact hn b (hresult b rfl) t hleaves

-- What comes after the change is not refused any more.
theorem writes_bind_last {work : Handling σ β} {next : β → Handling σ α}
    (hw : Writes view c work R)
    (hn : ∀ b s, (∃ a, (next b s).1 = .ok (.ok a) ∧ Q a) ∨
      ∃ e, (next b s).1 = .error e ∧ ¬e.IsDuplicate) : Writes view c (work >>= next) Q := by
  intro s hs
  have hended := hw s hs
  rw [Handling.bind_apply]
  rcases hwork : work s with ⟨e | ⟨r | b⟩, t⟩ <;> rw [hwork] at hended
  · exact .inr (.inr (by simpa using hended))
  · exact .inr (.inl ⟨r, rfl, by simpa using hended⟩)
  · rcases hn b t with hdone | hfails
    · exact .inl hdone
    · exact .inr (.inr hfails)

end

-- A scraper that has been kept is shown, or it is not legible.
theorem scraperBody_shown {σ : Type} {answer : Value → Response} (r : ScraperRecord) (s : σ)
    (hanswer : ∀ v, ¬(answer v).IsRefusal) :
    (∃ a, ((do return answer (← scraperBody r) : Handling σ Response) s).1 = .ok (.ok a) ∧
      ¬a.IsRefusal) ∨
    ∃ e, ((do return answer (← scraperBody r) : Handling σ Response) s).1 = .error e ∧
      ¬e.IsDuplicate := by
  rw [Handling.bind_apply, scraperBody_apply]
  cases hr : r.scraper with
  | ok p => exact .inl ⟨_, rfl, hanswer _⟩
  | error e => exact .inr ⟨e, rfl, ScraperRecord.scraper_error hr⟩

section

variable {σ : Type} {res : Resources σ} {view : σ → Catalog} (h : res.Lawful view) {c : Catalog}
  {q : Request}
include h

theorem writes_change {α : Type} {f : Catalog → Except Failure (Catalog × α)}
    (hf : ∀ e, f c = .error e → ¬e.IsDuplicate) :
    Writes view c (change res f) fun _ => True := by
  intro s hs
  unfold change
  rw [Handling.lift_apply, Keeper.change, catalog_bind_apply h, hs]
  rcases hfc : f c with e | ⟨c', a⟩
  · exact .inr (.inr ⟨e, rfl, hf e hfc⟩)
  · exact .inl ⟨a, rfl, trivial⟩

theorem undisputed_findScraper (id : Int) : Undisputed view c (findScraper res id) := by
  refine undisputed_bind (reads_storable id) (undisputed_storable id) fun _ _ => ?_
  refine undisputed_of_answers (answers_bind (reads_catalog h) answers_catalog fun found _ => ?_)
  cases found.scraper? id with
  | none => exact answers_throw _
  | some s => exact answers_pure s

theorem writes_createScraper (hzero : ¬c.HasScraper 0) :
    Writes view c (createScraper res q) (¬·.IsRefusal) := by
  refine writes_bind (reads_checkedBody _ _) (undisputed_of_answers (answers_checkedBody _ _))
    fun p hp => ?_
  refine writes_bind (reads_checkScraper h p 0) (undisputed_of_answers (answers_checkScraper h p 0))
    fun _ hfits => ?_
  refine writes_bind_last (writes_change h fun e he => ?_) fun kept s => ?_
  · cases hr : ScraperRecord.ofScraper (nextId (c.scrapers.map (·.id))) p with
    | ok r =>
      rw [addScraper_of_free hzero hr hfits.free] at he
      cases he
    | error e' =>
      rw [addScraper, hr] at he
      cases he
      exact ScraperRecord.ofScraper_error hr
  · exact scraperBody_shown kept s fun _ => Nat.not_le.mpr (show 201 < 300 by decide)

theorem writes_updateScraper (segment : String) :
    Writes view c (updateScraper res q segment) (¬·.IsRefusal) := by
  refine writes_bind (reads_checkedNumberAndBody _ _ _ _)
    (undisputed_of_answers (answers_checkedNumberAndBody _ _ _ _)) fun asked hasked => ?_
  refine writes_bind (reads_findScraper h _) (undisputed_findScraper h _) fun found hfound => ?_
  refine writes_bind (reads_checkScraper h _ _) (undisputed_of_answers (answers_checkScraper h _ _))
    fun _ hfits => ?_
  refine writes_bind (reads_orFailure _)
    (undisputed_orFailure fun e he => ScraperRecord.ofScraper_error he) fun r hr => ?_
  refine writes_bind_last (writes_change h fun e he => ?_) fun _ s => ?_
  · have hfree : c.isNameTaken r.name r.id = false := by
      rw [ScraperRecord.ofScraper_name hr, ScraperRecord.ofScraper_id hr]
      exact hfits.free
    rw [(replaceScraper_eq_ok (a := ())).mpr ⟨hfree, rfl⟩] at he
    cases he
  · exact scraperBody_shown r s fun _ => Nat.not_le.mpr (show 200 < 300 by decide)

theorem writes_deleteScraper (segment : String) :
    Writes view c (deleteScraper res segment) (¬·.IsRefusal) := by
  refine writes_bind (reads_orUnprocessable _)
    (undisputed_of_answers (answers_orUnprocessable _)) fun id _ => ?_
  refine writes_bind (reads_findScraper h id) (undisputed_findScraper h id) fun found hfound => ?_
  refine writes_bind_last (writes_change h nofun) fun _ s => ?_
  exact .inl ⟨.noContent, rfl, Nat.not_le.mpr (show 204 < 300 by decide)⟩

omit h in
theorem respond_writes {route : Route} (hroute : Route.find q.method q.path = .ok route) {s : σ}
    (hwork : Writes view (view s) (dispatch res q route) (¬·.IsRefusal)) :
    (∃ answer, (respond res q s).1 = .ok answer ∧
      (answer.IsRefusal → view (respond res q s).2 = view s)) ∨
    ∃ e, (respond res q s).1 = .error e ∧ ¬e.IsDuplicate := by
  rw [respond_apply, handled_of_route hroute]
  rcases hwork s rfl with ⟨answer, hanswer, hdone⟩ | ⟨answer, hanswer, hview⟩ | ⟨e, he, hdup⟩
  · rw [hanswer]
    exact .inl ⟨answer, rfl, fun hrefusal => absurd hrefusal hdone⟩
  · rw [hanswer]
    exact .inl ⟨answer, rfl, fun _ => hview⟩
  · rw [he]
    exact .inr ⟨e, rfl, hdup⟩

end

-- A request to create a scraper, to replace one or to delete one.
inductive Request.WritesScraper (q : Request) : Prop
  | create (hroute : Route.find q.method q.path = .ok .scrapers) (hmethod : q.method = "POST")
  | update {segment : String} (hroute : Route.find q.method q.path = .ok (.scraper segment))
      (hmethod : q.method = "PUT")
  | delete {segment : String} (hroute : Route.find q.method q.path = .ok (.scraper segment))
      (hmethod : q.method = "DELETE")

section

variable {σ : Type} {res : Resources σ} {view : σ → Catalog} (h : res.Lawful view) {s : σ}
include h

theorem respond_writesScraper {q : Request} (hq : q.WritesScraper) (hs : ¬(view s).HasScraper 0) :
    (∃ answer, (respond res q s).1 = .ok answer ∧
      (answer.IsRefusal → view (respond res q s).2 = view s)) ∨
    ∃ e, (respond res q s).1 = .error e ∧ ¬e.IsDuplicate := by
  cases hq with
  | create hroute hmethod =>
    refine respond_writes hroute ?_
    rw [dispatch, if_pos hmethod]
    exact writes_createScraper h hs
  | @update segment hroute hmethod =>
    refine respond_writes hroute ?_
    rw [dispatch, if_pos hmethod]
    exact writes_updateScraper h segment
  | @delete segment hroute hmethod =>
    have hput : q.method ≠ "PUT" := by
      rw [hmethod]
      decide
    refine respond_writes hroute ?_
    rw [dispatch, if_neg hput, if_pos hmethod]
    exact writes_deleteScraper h segment

theorem history_tidy (hs : (view s).scrapers = []) (requests : List Request) (n : Nat)
    (hn : n ≤ requests.length) : ((history res view s requests).catalog n).Tidy := by
  induction n with
  | zero =>
    change (view s).Tidy
    exact ⟨by simp [hs], by simp [hs]⟩
  | succ n ih =>
    have hzero := history_numbered h hs requests n (by omega)
    obtain hsame | ⟨route, -, hchange⟩ := history_changes h requests n hn
    · rw [hsame]
      exact ih (by omega)
    · exact hchange.tidy (ih (by omega)) hzero

-- Whatever is asked of a service that starts without scrapers, in every state no two scrapers have
-- one name, and the aliases of each differ and its jumps lead to markers, as it is kept and as it
-- is read. No request to write a scraper fails because a name is taken, and one that is answered
-- with a refusal leaves everything as it was.
theorem scrapers_distinct (hs : (view s).scrapers = []) (requests : List Request) :
    let past := history res view s requests
    (∀ n ≤ requests.length, ((past.catalog n).scrapers.map (·.name)).Nodup ∧
      ∀ r ∈ (past.catalog n).scrapers, ∃ p : Scraper,
        ScraperRecord.ofScraper r.id p = .ok r ∧ (p.dataSources.map (·.name)).Nodup ∧
        Instruction.unresolvedJumps p.instructions = [] ∧
        ∀ stored, r.scraper = .ok stored → stored.toScraper = p) ∧
    ∀ (k : Nat) (hk : k < requests.length), requests[k].WritesScraper →
      (∀ table column, (respond res requests[k] (after res s (requests.take k))).1 ≠
        .error (.sql (.duplicate table column))) ∧
      ∀ answer, (respond res requests[k] (after res s (requests.take k))).1 = .ok answer →
        answer.status ∈ [404, 409, 422] → past.catalog (k + 1) = past.catalog k := by
  refine ⟨fun n hn => ?_, fun k hk hwrites => ?_⟩
  · have htidy := history_tidy h hs requests n hn
    exact ⟨htidy.names, htidy.sound⟩
  · have hzero := history_numbered h hs requests k (by omega)
    simp only [history, after_take_succ hk]
    rcases respond_writesScraper h hwrites hzero with ⟨answer, hanswer, hview⟩ | ⟨e, he, hdup⟩
    · refine ⟨fun table column hfailed => ?_, fun answer' hanswer' hstatus => ?_⟩
      · rw [hanswer] at hfailed
        cases hfailed
      · cases hanswer.symm.trans hanswer'
        refine hview ?_
        simp only [List.mem_cons, List.not_mem_nil, or_false] at hstatus
        unfold Response.IsRefusal
        omega
    · refine ⟨fun table column hfailed => hdup ⟨table, column, ?_⟩, fun answer hanswer => ?_⟩
      · exact Except.error.inj (he.symm.trans hfailed)
      · rw [he] at hanswer
        cases hanswer

omit h

-- The name of the first scraper is asked for a third one, and then for the second one.
def takenName : List Request :=
  [posted "/scrapers" (scraperNamed "first"), posted "/scrapers" (scraperNamed "second"),
    posted "/scrapers" (scraperNamed "first"),
    { method := "PUT", path := "/scrapers/2", body := Json.write none (scraperNamed "first") }]

theorem takenName_writesScraper (k : Nat) (hk : k < takenName.length) :
    takenName[k].WritesScraper := by
  have hcreate : Route.find "POST" "/scrapers" = .ok .scrapers := by rfl
  have hupdate : Route.find "PUT" "/scrapers/2" = .ok (.scraper "2") := by rfl
  match k, hk with
  | 0, _ | 1, _ | 2, _ => exact .create hcreate rfl
  | 3, _ => exact .update hupdate rfl

theorem scrapers_distinct_takenName :
    (Rehearsal.resources {}).Lawful Rehearsal.World.catalog ∧
    (Rehearsal.World.catalog {}).scrapers = [] ∧
    (∀ k (hk : k < takenName.length), takenName[k].WritesScraper) ∧
    ((rehearsed takenName).catalog 4).scrapers.map (·.name) = ["first", "second"] ∧
    (((rehearsed takenName).catalog 4).scrapers.map (·.name)).Nodup ∧
    ∀ k (hk : k < takenName.length), 2 ≤ k →
      ∃ answer, (respond (Rehearsal.resources {}) takenName[k]
        (after (Rehearsal.resources {}) {} (takenName.take k))).1 = .ok answer ∧
        answer.status = 409 ∧
        (rehearsed takenName).catalog (k + 1) = (rehearsed takenName).catalog k := by
  have hlawful := Rehearsal.resources_lawful {}
  have hfacts : ((rehearsed takenName).catalog 4).scrapers.map (·.name) = ["first", "second"] ∧
      ∀ k (hk : k < takenName.length), 2 ≤ k →
        (respond (Rehearsal.resources {}) takenName[k]
          (after (Rehearsal.resources {}) {} (takenName.take k))).1.toOption.map (·.status) =
            some 409 := by
    decide +kernel
  obtain ⟨hnames, hstatus⟩ := hfacts
  obtain ⟨hstored, hanswered⟩ := scrapers_distinct (s := {}) hlawful rfl takenName
  refine ⟨hlawful, rfl, takenName_writesScraper, hnames, (hstored 4 (Nat.le_refl 4)).1, ?_⟩
  intro k hk hlate
  obtain ⟨answer, hanswer, hconflict⟩ := exists_answer (hstatus k hk hlate)
  refine ⟨answer, hanswer, hconflict, ?_⟩
  refine (hanswered k hk (takenName_writesScraper k hk)).2 answer hanswer ?_
  rw [hconflict]
  decide

end

end Service

end Gleaner
