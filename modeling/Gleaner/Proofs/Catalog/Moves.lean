import Gleaner.Catalog.Execute

namespace Gleaner

-- A record has the number and the name it was made with, and holds the rest as JSON.
theorem ScraperRecord.ofScraper_eq_ok {id : Nat} {s : Scraper} {r : ScraperRecord}
    (h : ScraperRecord.ofScraper id s = .ok r) :
    ∃ instructions dataSources,
      (Document.list (Instruction.documents s.instructions)).json = .ok instructions ∧
      (Document.list (s.dataSources.map DataSource.document)).json = .ok dataSources ∧
      r = { id, name := s.name, instructions, dataSources } := by
  unfold ScraperRecord.ofScraper at h
  cases hi : (Document.list (Instruction.documents s.instructions)).json with
  | error e =>
    rw [hi] at h
    cases h
  | ok instructions =>
    rw [hi] at h
    cases hd : (Document.list (s.dataSources.map DataSource.document)).json with
    | error e =>
      rw [hd] at h
      cases h
    | ok dataSources =>
      rw [hd] at h
      cases h
      exact ⟨_, _, rfl, rfl, rfl⟩

theorem ScraperRecord.ofScraper_id {id : Nat} {s : Scraper} {r : ScraperRecord}
    (h : ScraperRecord.ofScraper id s = .ok r) : r.id = id := by
  obtain ⟨_, _, -, -, rfl⟩ := ScraperRecord.ofScraper_eq_ok h
  rfl

theorem ScraperRecord.ofScraper_name {id : Nat} {s : Scraper} {r : ScraperRecord}
    (h : ScraperRecord.ofScraper id s = .ok r) : r.name = s.name := by
  obtain ⟨_, _, -, -, rfl⟩ := ScraperRecord.ofScraper_eq_ok h
  rfl

namespace Catalog

variable {c c' : Catalog}

theorem lt_nextId {ids : List Nat} {id : Nat} (h : id ∈ ids) : id < nextId ids := by
  have hmax : ∀ (ids : List Nat) (most : Nat), most ≤ ids.foldl max most ∧
      ∀ id ∈ ids, id ≤ ids.foldl max most := by
    intro ids
    induction ids with
    | nil => simp
    | cons first rest ih =>
      intro most
      obtain ⟨hmost, hrest⟩ := ih (max most first)
      simp only [List.foldl_cons, List.mem_cons, forall_eq_or_imp]
      exact ⟨by omega, by omega, hrest⟩
  exact Nat.lt_succ_of_le ((hmax ids 0).2 id h)

def HasScraper (c : Catalog) (id : Nat) : Prop := ∃ s ∈ c.scrapers, s.id = id

def HasRoutine (c : Catalog) (id : Nat) : Prop := ∃ r ∈ c.routines, r.id = id

theorem scraper?_eq_some {id : Int} {s : ScraperRecord} (h : c.scraper? id = some s) :
    s ∈ c.scrapers ∧ (s.id : Int) = id :=
  ⟨List.mem_of_find?_eq_some h, by simpa using List.find?_some h⟩

theorem routine?_eq_some {id : Int} {r : RoutineRecord} (h : c.routine? id = some r) :
    r ∈ c.routines ∧ (r.id : Int) = id :=
  ⟨List.mem_of_find?_eq_some h, by simpa using List.find?_some h⟩

theorem hasScraper_of_scraper? {id : Nat} {s : ScraperRecord} (h : c.scraper? id = some s) :
    c.HasScraper id :=
  ⟨s, (scraper?_eq_some h).1, Int.ofNat.inj (scraper?_eq_some h).2⟩

theorem hasRoutine_of_routine? {id : Nat} {r : RoutineRecord} (h : c.routine? id = some r) :
    c.HasRoutine id :=
  ⟨r, (routine?_eq_some h).1, Int.ofNat.inj (routine?_eq_some h).2⟩

-- What each change makes of the numbers that are taken.
@[simp] theorem hasScraper_putScraper (r : ScraperRecord) (id : Nat) :
    (c.putScraper r).HasScraper id ↔ c.HasScraper id := by
  simp only [HasScraper, putScraper, List.mem_map]
  constructor
  · rintro ⟨_, ⟨s, hs, rfl⟩, hid⟩
    refine ⟨s, hs, ?_⟩
    split at hid <;> simp_all
  · rintro ⟨s, hs, hid⟩
    refine ⟨_, ⟨s, hs, rfl⟩, ?_⟩
    split <;> simp_all

@[simp] theorem hasRoutine_putRoutine (r : RoutineRecord) (id : Nat) :
    (c.putRoutine r).HasRoutine id ↔ c.HasRoutine id := by
  simp only [HasRoutine, putRoutine, List.mem_map]
  constructor
  · rintro ⟨_, ⟨s, hs, rfl⟩, hid⟩
    refine ⟨s, hs, ?_⟩
    split at hid <;> simp_all
  · rintro ⟨s, hs, hid⟩
    refine ⟨_, ⟨s, hs, rfl⟩, ?_⟩
    split <;> simp_all

@[simp] theorem hasRoutine_putScraper (r : ScraperRecord) (id : Nat) :
    (c.putScraper r).HasRoutine id ↔ c.HasRoutine id := Iff.rfl

@[simp] theorem hasScraper_putRoutine (r : RoutineRecord) (id : Nat) :
    (c.putRoutine r).HasScraper id ↔ c.HasScraper id := Iff.rfl

@[simp] theorem hasScraper_addExecution (e : ExecutionRecord) (id : Nat) :
    (c.addExecution e).1.HasScraper id ↔ c.HasScraper id := Iff.rfl

@[simp] theorem hasRoutine_addExecution (e : ExecutionRecord) (id : Nat) :
    (c.addExecution e).1.HasRoutine id ↔ c.HasRoutine id := Iff.rfl

-- Of two changes of one routine the second counts.
theorem putRoutine_putRoutine {r r' : RoutineRecord} (h : r'.id = r.id) :
    (c.putRoutine r).putRoutine r' = c.putRoutine r' := by
  have hmap : ∀ s : RoutineRecord, (if (if s.id = r.id then r else s).id = r'.id then r'
      else if s.id = r.id then r else s) = if s.id = r'.id then r' else s := by
    intro s
    by_cases hs : s.id = r.id
    · simp [hs, h]
    · simp [hs, h]
  simp only [putRoutine, List.map_map, Function.comp_def, hmap]

theorem addScraper_eq_ok {s : Scraper} {r : ScraperRecord} (h : c.addScraper s = .ok (c', r)) :
    ScraperRecord.ofScraper (nextId (c.scrapers.map (·.id))) s = .ok r ∧
      c' = { c with scrapers := c.scrapers ++ [r] } := by
  unfold addScraper at h
  cases hr : ScraperRecord.ofScraper (nextId (c.scrapers.map (·.id))) s with
  | error e =>
    rw [hr] at h
    cases h
  | ok record =>
    rw [hr] at h
    change (if c.isNameTaken s.name record.id then _ else _) = _ at h
    split at h
    · cases h
    · cases h
      exact ⟨rfl, rfl⟩

-- A scraper is added if its name is free. No scraper has the number zero.
theorem addScraper_of_free {s : Scraper} {r : ScraperRecord} (hc : ¬c.HasScraper 0)
    (hr : ScraperRecord.ofScraper (nextId (c.scrapers.map (·.id))) s = .ok r)
    (hfree : c.isNameTaken s.name 0 = false) :
    c.addScraper s = .ok ({ c with scrapers := c.scrapers ++ [r] }, r) := by
  have hother : ∀ old ∈ c.scrapers, old.name ≠ s.name := by
    intro old hold hname
    have hany := List.any_eq_false.mp hfree old hold
    have hzero : old.id ≠ 0 := fun hid => hc ⟨old, hold, hid⟩
    simp [hname, hzero] at hany
  have htaken : c.isNameTaken s.name r.id = false := by
    refine List.any_eq_false.mpr fun old hold => ?_
    simp [hother old hold]
  unfold addScraper
  rw [hr]
  change (if c.isNameTaken s.name r.id then _ else _) = _
  rw [if_neg (Bool.eq_false_iff.mp htaken)]

-- A scraper is written over another one if its name is free.
theorem replaceScraper_eq_ok {r : ScraperRecord} {a : Unit} :
    c.replaceScraper r = .ok (c', a) ↔
      c.isNameTaken r.name r.id = false ∧ c' = c.putScraper r := by
  change (if c.isNameTaken r.name r.id then _ else _) = _ ↔ _
  cases c.isNameTaken r.name r.id with
  | true => exact ⟨nofun, nofun⟩
  | false =>
    constructor
    · rintro ⟨⟩
      exact ⟨rfl, rfl⟩
    · rintro ⟨-, rfl⟩
      rfl

theorem only_addScraper {s : Scraper} {r : ScraperRecord} (h : c.addScraper s = .ok (c', r))
    (other : ScraperRecord) : (other ∈ c'.scrapers ∧ other.id = r.id) ↔ other = r := by
  obtain ⟨hr, rfl⟩ := addScraper_eq_ok h
  constructor
  · rintro ⟨hother, hid⟩
    rcases List.mem_append.mp hother with hold | hnew
    · have hlt := lt_nextId (List.mem_map_of_mem (f := (·.id)) hold)
      have hnext := ScraperRecord.ofScraper_id hr
      omega
    · exact List.mem_singleton.mp hnew
  · rintro rfl
    exact ⟨List.mem_append_right _ (List.mem_singleton.mpr rfl), rfl⟩

theorem only_putScraper {r : ScraperRecord} (h : c.HasScraper r.id) (other : ScraperRecord) :
    (other ∈ (c.putScraper r).scrapers ∧ other.id = r.id) ↔ other = r := by
  constructor
  · rintro ⟨hother, hid⟩
    obtain ⟨s, -, rfl⟩ := List.mem_map.mp hother
    by_cases hs : s.id = r.id
    · exact if_pos hs
    · rw [if_neg hs] at hid
      exact absurd hid hs
  · rintro rfl
    obtain ⟨s, hs, hid⟩ := h
    exact ⟨List.mem_map.mpr ⟨s, hs, if_pos hid⟩, rfl⟩

-- All that a request can make of a catalog. Only one that executes a routine adds an execution.
inductive Move (executed : Option Int) (c : Catalog) : Catalog → Prop
  | stay : Move executed c c
  | addScraper {s : Scraper} {r : ScraperRecord} {c' : Catalog}
      (h : c.addScraper s = .ok (c', r)) : Move executed c c'
  | putScraper {r : ScraperRecord} (h : c.HasScraper r.id) : Move executed c (c.putScraper r)
  | removeScraper {id : Nat} (h : c.HasScraper id) : Move executed c (c.removeScraper id)
  | addRoutine {r : RoutineRecord} (h : c.HasScraper r.scraperId) :
      Move executed c (c.addRoutine r).1
  | putRoutine {old r : RoutineRecord} (h : c.routine? r.id = some old)
      (hs : r.scraperId = old.scraperId ∨ c.HasScraper r.scraperId) :
      Move executed c (c.putRoutine r)
  | removeRoutine {id : Nat} (h : c.HasRoutine id) : Move executed c (c.removeRoutine id)
  | keepRun {r finished : RoutineRecord} {e : ExecutionRecord} (hq : executed = some r.id)
      (hr : c.routine? r.id = some r) (hs : c.HasScraper r.scraperId)
      (hid : finished.id = r.id) (hscraper : finished.scraperId = r.scraperId)
      (he : e.scraperId = r.scraperId) (her : e.routineId = r.id) :
      Move executed c ((c.putRoutine finished).addExecution e).1

-- What to execute a routine makes of a catalog. A run that is kept comes with the routine as it is
-- after it. Nothing is left of one that fails, and if a run cannot be kept the routine is still
-- taken for executing.
inductive Ran (c : Catalog) (r : RoutineRecord) : Catalog → Prop
  | missed : Ran c r c
  | failed : Ran c r (c.putRoutine r)
  | stranded : Ran c r (c.putRoutine (r.withStatus .executing))
  | kept {finished : RoutineRecord} {e : ExecutionRecord} {runs : List IterationRecord}
      {startedAt finishedAt : Int} (hs : c.HasScraper r.scraperId)
      (h : r.finish (runs.any (·.failed)) startedAt finishedAt = .ok finished)
      (hruns : runsJson runs = .ok e.iterations) (he : e.scraperId = r.scraperId)
      (her : e.routineId = r.id) : Ran c r ((c.putRoutine finished).addExecution e).1

-- An execution that is new in a catalog, and the routine that was executed for it.
structure IsRun (executed : Option Int) (c c' : Catalog) (r : RoutineRecord)
    (e : ExecutionRecord) : Prop where
  executed : executed = some r.id
  routine : c.routine? r.id = some r
  scraper : c.HasScraper r.scraperId
  isNew : ∀ old ∈ c.executions, old.id ≠ e.id
  kept : e ∈ c'.executions

variable {executed : Option Int}

-- Executions are never changed and never removed.
theorem Move.executions_extended (h : Move executed c c') : c.executions <+: c'.executions := by
  cases h with
  | addScraper h =>
    obtain ⟨-, rfl⟩ := addScraper_eq_ok h
    exact List.prefix_refl _
  | keepRun => exact List.prefix_append _ _
  | _ => exact List.prefix_refl _

-- Numbers start at one.
theorem Move.not_hasScraper_zero (h : Move executed c c') (hc : ¬c.HasScraper 0) :
    ¬c'.HasScraper 0 := by
  cases h with
  | addScraper h =>
    obtain ⟨hr, rfl⟩ := addScraper_eq_ok h
    rintro ⟨s, hs, hid⟩
    rcases List.mem_append.mp hs with hold | hnew
    · exact hc ⟨s, hold, hid⟩
    · cases List.mem_singleton.mp hnew
      have hnext := ScraperRecord.ofScraper_id hr
      unfold nextId at hnext
      omega
  | putScraper => simpa using hc
  | removeScraper =>
    rintro ⟨s, hs, hid⟩
    exact hc ⟨s, (List.mem_filter.mp hs).1, hid⟩
  | _ => exact hc

theorem Move.isRun (h : Move executed c c') {e : ExecutionRecord} (he : e ∈ c'.executions) :
    e ∈ c.executions ∨ ∃ r, IsRun executed c c' r e ∧ e.scraperId = r.scraperId ∧
      e.routineId = r.id ∧ c'.HasScraper r.scraperId ∧ c'.HasRoutine r.id := by
  cases h with
  | addScraper h =>
    rw [(addScraper_eq_ok h).2] at he
    exact .inl he
  | @keepRun r finished kept hq hr hs hid hscraper hkept hroutine =>
    have hids : ∀ old ∈ c.executions, old.id ≠ nextId (c.executions.map (·.id)) := by
      intro old hold
      have := lt_nextId (List.mem_map_of_mem (f := (·.id)) hold)
      omega
    rcases List.mem_append.mp he with hold | hnew
    · exact .inl hold
    · cases List.mem_singleton.mp hnew
      refine .inr ⟨r, ⟨hq, hr, hs, hids, he⟩, hkept, hroutine, ?_, ?_⟩
      · simpa using hs
      · simpa using hasRoutine_of_routine? hr
  | _ => exact .inl he

-- What a catalog is before each of some requests and after the last, and the routine that each
-- request executes.
structure History where
  executed : Nat → Option Int
  catalog : Nat → Catalog

namespace History

variable (h : History)

-- An execution that a request has left behind, and the routine that was executed.
def RanAt (k : Nat) (r : RoutineRecord) (e : ExecutionRecord) : Prop :=
  IsRun (h.executed k) (h.catalog k) (h.catalog (k + 1)) r e

-- Executions are told of those that ran them: the executions of a scraper come from its own runs,
-- and the routine of an execution is the one that was executed. A request adds or removes one
-- record at most, so what is stored at each time since is still the same.
structure Attributed (n : Nat) : Prop where
  scraper : ∀ s ∈ (h.catalog n).scrapers, ∀ e ∈ (h.catalog n).executionsOf s.id,
    ∃ k < n, ∃ r, h.RanAt k r e ∧ r.scraperId = s.id ∧
      ∀ m, k ≤ m → m ≤ n → (h.catalog m).HasScraper s.id
  routine : ∀ e ∈ (h.catalog n).executions,
    ∃ k < n, ∃ r, h.RanAt k r e ∧ r.id = e.routineId ∧
      ∀ m, k ≤ m → m ≤ n → (h.catalog m).HasRoutine e.routineId

end History

-- A change that breaks the ties of executions: their routine goes, or another scraper comes under
-- the number they have.
def Severs (c c' : Catalog) : Prop :=
  ∃ e ∈ c.executions, (c.HasRoutine e.routineId ∧ ¬c'.HasRoutine e.routineId) ∨
    (¬c.HasScraper e.scraperId ∧ c'.HasScraper e.scraperId)

-- Only two deletions can do that, and the creation of a scraper under a number that is not new to
-- the executions.
theorem Move.severs {executed : Option Int} {c c' : Catalog} (h : Move executed c c')
    (hties : Severs c c') :
    (∃ id, c.HasRoutine id ∧ c' = c.removeRoutine id) ∨
    (∃ id, c.HasScraper id ∧ c' = c.removeScraper id) ∨
    ∃ s r, c.addScraper s = .ok (c', r) ∧ ∃ e ∈ c.executions, e.scraperId = r.id := by
  obtain ⟨e, he, hsevered⟩ := hties
  cases h with
  | removeRoutine h => exact .inl ⟨_, h, rfl⟩
  | removeScraper h => exact .inr (.inl ⟨_, h, rfl⟩)
  | @addScraper s r _ h =>
    refine .inr (.inr ⟨s, r, h, e, he, ?_⟩)
    rw [(addScraper_eq_ok h).2] at hsevered
    rcases hsevered with ⟨hpresent, hgone⟩ | ⟨habsent, found, hfound, hid⟩
    · exact absurd hpresent hgone
    · rcases List.mem_append.mp hfound with hold | hnew
      · exact absurd ⟨found, hold, hid⟩ habsent
      · exact hid.symm.trans (congrArg (·.id) (List.mem_singleton.mp hnew))
  | addRoutine =>
    rcases hsevered with ⟨⟨r, hr, hid⟩, hgone⟩ | ⟨habsent, hpresent⟩
    · exact absurd ⟨r, List.mem_append_left _ hr, hid⟩ hgone
    · exact absurd hpresent habsent
  | _ =>
    rcases hsevered with ⟨hpresent, hgone⟩ | ⟨habsent, hpresent⟩
    · exact absurd (by simpa using hpresent) hgone
    · exact absurd (by simpa using hpresent) habsent

theorem mem_executionsOf {c : Catalog} {id : Nat} {e : ExecutionRecord} :
    e ∈ c.executionsOf id ↔ e ∈ c.executions ∧ e.scraperId = id := by
  simp [executionsOf]

namespace History

variable {h : History} {n : Nat}

-- What held up to some time and holds one time later holds up to then.
private theorem stored_succ {stored : Nat → Prop} {k : Nat}
    (hpast : ∀ m, k ≤ m → m ≤ n → stored m) (hnow : stored (n + 1)) :
    ∀ m, k ≤ m → m ≤ n + 1 → stored m := by
  intro m hk hm
  rcases Nat.lt_or_ge n m with hlater | hbefore
  · rwa [show m = n + 1 by omega]
  · exact hpast m hk hbefore

theorem attributed_succ (hmove : (h.catalog n).Move (h.executed n) (h.catalog (n + 1)))
    (hn : h.Attributed n) (hties : ¬Severs (h.catalog n) (h.catalog (n + 1))) :
    h.Attributed (n + 1) where
  scraper := by
    intro s hs e he
    obtain ⟨he, hscraper⟩ := mem_executionsOf.mp he
    have hnow : (h.catalog (n + 1)).HasScraper s.id := ⟨s, hs, rfl⟩
    rcases hmove.isRun he with hold | ⟨r, hrun, her, -, -, -⟩
    · by_cases hbefore : (h.catalog n).HasScraper s.id
      · obtain ⟨old, hold', hid⟩ := hbefore
        obtain ⟨k, hk, r, hran, hr, hpast⟩ :=
          hn.scraper old hold' e (mem_executionsOf.mpr ⟨hold, hscraper.trans hid.symm⟩)
        rw [hid] at hr hpast
        exact ⟨k, by omega, r, hran, hr, stored_succ hpast hnow⟩
      · exact absurd ⟨e, hold, .inr (hscraper ▸ ⟨hbefore, hnow⟩)⟩ hties
    · have hr : r.scraperId = s.id := her.symm.trans hscraper
      refine ⟨n, by omega, r, hrun, hr, stored_succ (fun m hk hm => ?_) hnow⟩
      rw [show m = n by omega]
      exact hr ▸ hrun.scraper
  routine := by
    intro e he
    rcases hmove.isRun he with hold | ⟨r, hrun, -, her, -, hnow⟩
    · obtain ⟨k, hk, r, hran, hr, hpast⟩ := hn.routine e hold
      have hnow : (h.catalog (n + 1)).HasRoutine e.routineId := by
        refine Classical.byContradiction fun hgone => ?_
        exact hties ⟨e, hold, .inl ⟨hpast n (by omega) (by omega), hgone⟩⟩
      exact ⟨k, by omega, r, hran, hr, stored_succ hpast hnow⟩
    · refine ⟨n, by omega, r, hrun, her.symm, stored_succ (fun m hk hm => ?_) (her ▸ hnow)⟩
      rw [show m = n by omega]
      exact her ▸ hasRoutine_of_routine? hrun.routine

theorem executions_extended
    (hmoves : ∀ k < n, (h.catalog k).Move (h.executed k) (h.catalog (k + 1))) {k : Nat}
    (hk : k ≤ n) : (h.catalog k).executions <+: (h.catalog n).executions := by
  induction n with
  | zero =>
    obtain rfl := Nat.le_zero.mp hk
    exact List.prefix_refl _
  | succ n ih =>
    rcases Nat.lt_or_ge n k with hlast | hbefore
    · obtain rfl : k = n + 1 := by omega
      exact List.prefix_refl _
    · exact (ih (fun m hm => hmoves m (by omega)) hbefore).trans
        (hmoves n (by omega)).executions_extended

-- In a history that starts without executions all of them stay with what ran them exactly as long
-- as no request severs them from it.
theorem attributed_iff
    (hmoves : ∀ k < n, (h.catalog k).Move (h.executed k) (h.catalog (k + 1)))
    (hstart : (h.catalog 0).executions = []) :
    (∀ m ≤ n, h.Attributed m) ↔ ∀ k < n, ¬Severs (h.catalog k) (h.catalog (k + 1)) := by
  constructor
  · rintro hall k hk ⟨e, he, hsevered⟩
    have hlater : e ∈ (h.catalog (k + 1)).executions := (hmoves k hk).executions_extended.subset he
    have hnext := hall (k + 1) hk
    rcases hsevered with ⟨-, hgone⟩ | ⟨habsent, s, hs, hid⟩
    · obtain ⟨j, hj, r, -, -, hstored⟩ := hnext.routine e hlater
      exact hgone (hstored (k + 1) (by omega) (by omega))
    · obtain ⟨j, hj, r, -, -, hstored⟩ :=
        hnext.scraper s hs e (mem_executionsOf.mpr ⟨hlater, hid.symm⟩)
      exact habsent (hid ▸ hstored k (by omega) (by omega))
  · intro hties m hm
    induction m with
    | zero =>
      constructor
      · intro s _ e he
        rw [mem_executionsOf, hstart] at he
        cases he.1
      · intro e he
        rw [hstart] at he
        cases he
    | succ m ih =>
      exact attributed_succ (hmoves m hm) (ih (by omega)) (hties m hm)

end History

end Catalog

end Gleaner
