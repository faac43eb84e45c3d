import Gleaner.Proofs.Catalog.Polling
import Gleaner.Proofs.Number.Numeral
import Gleaner.Proofs.Routine.Listable
import Gleaner.Proofs.Service.Schedules
import Mathlib.Data.List.TakeWhile

namespace Gleaner

namespace Validation

open Integer

theorem integerText?_toString (n : Nat) : integerText? (toString n) = some (n : Int) := by
  have hd := Binary64.allDigits_toDigits n
  have hpoint : ∀ c ∈ Nat.toDigits 10 n, decide (c ≠ '.') = true := by
    intro c hc
    apply decide_eq_true
    rintro rfl
    cases hd _ hc
  have hwhole : (Nat.toDigits 10 n).takeWhile (· ≠ '.') = Nat.toDigits 10 n :=
    List.takeWhile_eq_self_iff.mpr hpoint
  have htail : (Nat.toDigits 10 n).dropWhile (· ≠ '.') = [] :=
    List.dropWhile_eq_nil_iff.mpr hpoint
  have hdigits : integerDigits? (Nat.toDigits 10 n) =
      some ((Nat.toDigits 10 n).map (·.toNat - 48)) := by
    have hall : (Nat.toDigits 10 n).all (fun c => c.isDigit || c = '_') = true :=
      List.all_eq_true.mpr fun c hc => by rw [hd c hc, Bool.true_or]
    unfold integerDigits?
    dsimp only
    rw [hwhole, htail, if_pos ⟨rfl, hall⟩, digits?_of_allDigits hd
      (fun hnil => absurd hnil Nat.toDigits_ne_nil) []]
    rfl
  unfold integerText?
  rw [Nat.toString_eq_ofList_toDigits, String.toList_ofList, trimChars_digits hd isSpace_digit,
    sign_digits hd]
  dsimp only
  rw [hdigits, Option.map_some, ofDigits_map, Nat.ofDigitChars_toDigits (by decide) (by decide)]
  rfl

theorem integer_toString (n : Nat) : integer (.text (toString n)) = .valid (n : Int) := by
  rw [integer, integerText?_toString]

end Validation

-- The order of lists: the later update comes first, and of two at one time the greater number.
def RoutineRecord.ComesBefore (r s : RoutineRecord) : Prop :=
  s.updatedAt < r.updatedAt ∨ s.updatedAt = r.updatedAt ∧ s.id < r.id

instance (r s : RoutineRecord) : Decidable (r.ComesBefore s) :=
  inferInstanceAs (Decidable (_ ∨ _))

section

variable {α : Type}

-- A page of a list that is shown in pages of one size.
def slice (size : Nat) (as : List α) (page : Nat) : List α := (as.drop (page * size)).take size

variable {size : Nat} {as : List α}

theorem slice_ne_nil_iff (hsize : 0 < size) {page : Nat} :
    slice size as page ≠ [] ↔ page * size < as.length := by
  rw [slice, ne_eq, List.take_eq_nil_iff, List.drop_eq_nil_iff]
  omega

theorem flatMap_slice (size : Nat) (as : List α) (n : Nat) :
    (List.range n).flatMap (slice size as) = as.take (n * size) := by
  induction n with
  | zero => rw [Nat.zero_mul, List.take_zero, List.range_zero, List.flatMap_nil]
  | succ n ih =>
    rw [List.range_succ, List.flatMap_append, ih, List.flatMap_singleton, slice, Nat.succ_mul,
      List.take_add]

-- The pages of a list up to the last that is followed by none make up the list.
theorem exists_lastSlice (hsize : 0 < size) (as : List α) :
    ∃ last, (List.range (last + 1)).flatMap (slice size as) = as ∧
      (∀ page, slice size as (page + 1) ≠ [] ↔ page < last) ∧ last * size ≤ as.length := by
  have hdown := Nat.div_mul_le_self (as.length - 1) size
  have hup := Nat.lt_div_mul_add hsize (a := as.length - 1)
  refine ⟨(as.length - 1) / size, ?_, fun page => ?_, by omega⟩
  · rw [flatMap_slice, Nat.succ_mul]
    exact List.take_of_length_le (by omega)
  · have hlast := Nat.le_div_iff_mul_le hsize (x := page + 1) (y := as.length - 1)
    have hfull : size ≤ (page + 1) * size := Nat.le_mul_of_pos_left size (by omega)
    rw [slice_ne_nil_iff hsize]
    omega

end

namespace Catalog

variable {c c' : Catalog}

theorem recentRoutines_perm (c : Catalog) : c.recentRoutines.Perm c.routines :=
  List.mergeSort_perm _ _

theorem Distinct.recentRoutines (h : c.Distinct) :
    c.recentRoutines.Pairwise RoutineRecord.ComesBefore := by
  have hids : (c.recentRoutines.map (·.id)).Nodup :=
    (c.recentRoutines_perm.map _).nodup_iff.mpr h
  have hsorted : c.recentRoutines.Pairwise fun a b =>
      (a.updatedAt > b.updatedAt || (a.updatedAt == b.updatedAt && a.id ≥ b.id)) = true := by
    apply List.pairwise_mergeSort
    · intro a b d hab hbd
      simp only [Bool.or_eq_true, Bool.and_eq_true, decide_eq_true_eq, beq_iff_eq] at hab hbd ⊢
      omega
    · intro a b
      simp only [Bool.or_eq_true, Bool.and_eq_true, decide_eq_true_eq, beq_iff_eq]
      omega
  refine (hsorted.and (List.pairwise_map.mp hids)).imp ?_
  rintro a b ⟨hle, hne⟩
  simp only [Bool.or_eq_true, Bool.and_eq_true, decide_eq_true_eq, beq_iff_eq] at hle
  unfold RoutineRecord.ComesBefore
  omega

-- How a routine is shown.
def Lists (c : Catalog) (r : RoutineRecord) (v : Value) : Prop :=
  ∃ shown, c.view r = .ok shown ∧ v = shown.document.toValue .full

-- Routines that can be shown, each under its own number, and not more than can be kept.
structure Listable (c : Catalog) : Prop where
  distinct : c.Distinct
  shown : ∀ r ∈ c.routines, ∃ v, c.Lists r v
  few : c.routines.length < 2 ^ 63

theorem Listable.exists_shown (h : c.Listable) :
    ∃ shown, List.Forall₂ c.Lists c.recentRoutines shown := by
  have hall : ∀ r ∈ c.recentRoutines, ∃ v, c.Lists r v := fun r hr =>
    h.shown r (List.mem_mergeSort.mp hr)
  generalize c.recentRoutines = rs at hall ⊢
  induction rs with
  | nil => exact ⟨[], .nil⟩
  | cons r rs ih =>
    obtain ⟨⟨v, hv⟩, hrest⟩ := List.forall_mem_cons.mp hall
    obtain ⟨vs, hvs⟩ := ih hrest
    exact ⟨v :: vs, .cons hv hvs⟩

-- Each routine can be read, and what is reckoned for it is in order.
def Readable (c : Catalog) : Prop := ∀ r ∈ c.routines, 1 ≤ r.id ∧ r.IsLegible ∧ r.IsReckoned

theorem Readable.put {r : RoutineRecord} (hc : c.Readable)
    (hr : 1 ≤ r.id ∧ r.IsLegible ∧ r.IsReckoned) : (c.putRoutine r).Readable := by
  intro s hs
  rcases mem_putRoutine hs with rfl | ⟨hold, -⟩
  · exact hr
  · exact hc s hold

theorem Readable.filter (hc : c.Readable) (keeps : RoutineRecord → Bool) :
    ∀ r ∈ c.routines.filter keeps, 1 ≤ r.id ∧ r.IsLegible ∧ r.IsReckoned :=
  fun r hr => hc r (List.mem_of_mem_filter hr)

theorem Readable.listable (hc : c.Readable) (hdistinct : c.Distinct)
    (htimed : ∀ r ∈ c.routines, r.IsTimed) (hfew : c.routines.length < 2 ^ 63) : c.Listable where
  distinct := hdistinct
  shown r hr := by
    obtain ⟨hid, hlegible, hreckoned⟩ := hc r hr
    obtain ⟨shown, hshown⟩ := RoutineRecord.exists_view hid hlegible hreckoned (htimed r hr) _
    exact ⟨_, shown, hshown, rfl⟩
  few := hfew

theorem Move.length_routines {executed : Option Int} (h : Move executed c c') :
    c'.routines.length ≤ c.routines.length + 1 := by
  cases h with
  | addScraper h =>
    rw [(addScraper_eq_ok h).2]
    exact Nat.le_succ _
  | removeScraper | removeRoutine => exact (List.length_filter_le _ _).trans (Nat.le_succ _)
  | addRoutine => exact Nat.le_of_eq List.length_append
  | putRoutine | keepRun => exact Nat.le_succ_of_le (Nat.le_of_eq (List.length_map _))
  | stay | putScraper => exact Nat.le_succ _

end Catalog

namespace Service

open Catalog

-- Whatever a request does, the routines can be read after it.
theorem Change.readable {q : Request} {c c' : Catalog} {route : Route} (h : Change q c route c')
    (hc : c.Readable) : c'.Readable := by
  cases h with
  | stay | updateScraper => exact hc
  | createScraper hs h =>
    rw [(addScraper_eq_ok h).2]
    exact hc
  | deleteScraper | deleteRoutine => exact hc.filter _
  | createRoutine hs h hd =>
    obtain ⟨v, -, hcheck⟩ := hd
    have hlegible := RoutineRecord.legible_of_assign hcheck h
    have hreckoned := RoutineRecord.reckoned_of_assign (Int.le_refl 0) (Int.le_refl 0) h
    intro r hr
    rcases List.mem_append.mp hr with hold | hnew
    · exact hc r hold
    · cases List.mem_singleton.mp hnew
      exact ⟨Nat.succ_pos _, hlegible.same rfl, hreckoned.renumbered _⟩
  | updateRoutine hold hs h hd =>
    obtain ⟨v, -, hcheck⟩ := hd
    obtain ⟨hid, -, hreckoned⟩ := hc _ (routine?_eq_some hold).1
    refine hc.put ⟨?_, RoutineRecord.legible_of_assign hcheck h,
      RoutineRecord.reckoned_of_assign hreckoned.runs hreckoned.failures h⟩
    obtain ⟨iterator, next, -, rfl⟩ := RoutineRecord.assign_eq_ok h
    exact hid
  | pause hold h =>
    obtain ⟨hid, hlegible, hreckoned⟩ := hc _ (routine?_eq_some hold.stored).1
    obtain ⟨hsame, hgiven⟩ := RoutineRecord.reschedule_given h
    exact hc.put ⟨hsame ▸ hid, hlegible.same hgiven,
      RoutineRecord.reckoned_of_reschedule h rfl hreckoned.runs hreckoned.failures⟩
  | resume hold h =>
    obtain ⟨hid, hlegible, hreckoned⟩ := hc _ (routine?_eq_some hold.stored).1
    obtain ⟨hsame, hgiven⟩ := RoutineRecord.reschedule_given h
    exact hc.put ⟨hsame ▸ hid, hlegible.same hgiven,
      RoutineRecord.reckoned_of_reschedule h rfl hreckoned.runs (Int.le_refl 0)⟩
  | @execute _ r _ hr h =>
    obtain ⟨hid, hlegible, hreckoned⟩ := hc _ (routine?_eq_some hr.stored).1
    cases h with
    | missed => exact hc
    | failed => exact hc.put ⟨hid, hlegible, hreckoned⟩
    | stranded => exact hc.put ⟨hid, hlegible.same rfl, hreckoned.executing⟩
    | kept hs h =>
      obtain ⟨hsame, hgiven⟩ := RoutineRecord.finish_given h
      exact hc.put ⟨hsame ▸ hid, hlegible.same hgiven, RoutineRecord.reckoned_of_finish hreckoned h⟩

theorem fits_of_lt {n : Nat} (h : n < 2 ^ 63) : Sql.fitsInteger n = true := by
  have hleast : Sql.leastInteger ≤ n := by
    unfold Sql.leastInteger
    omega
  have hgreatest : n ≤ Sql.greatestInteger := by
    unfold Sql.greatestInteger
    omega
  simp [Sql.fitsInteger, hleast, hgreatest]

-- A request for a page of routines.
structure ListsRoutines (q : Request) (page size : Nat) : Prop where
  route : Route.find q.method q.path = .ok .routines
  method : q.method ≠ "POST"
  askedPage : q.checkParameter "page" 0 (Validation.atLeast 0) = .valid page
  askedSize : q.checkParameter "pageSize" 20 (Validation.between 1 100) = .valid size
  fits : Sql.fitsInteger (page * size) = true

-- The answer that shows a page, and tells whether there are more.
def pageAnswer (page size : Nat) (data : List Value) (more : Bool) : Response :=
  .ok (.object [("data", .list data), ("page", .int page), ("pageSize", .int size),
    ("hasMore", .bool more)])

section

variable {σ : Type} {res : Resources σ} {view : σ → Catalog} (h : res.Lawful view) {c : Catalog}
include h

theorem bodies_routineBody {rs : List RoutineRecord} {vs : List Value}
    (hshown : List.Forall₂ c.Lists rs vs) {s : σ} (hs : view s = c) :
    (bodies (routineBody res) rs s).1 = .ok (.ok vs) := by
  induction hshown generalizing s with
  | nil => rfl
  | @cons r v rs vs hr hrs ih =>
    obtain ⟨shown, hview, rfl⟩ := hr
    rw [bodies, Handling.bind_apply, routineBody_apply h, hs, hview]
    dsimp only [Except.map]
    rw [Handling.bind_apply]
    have hrest := ih ((h.keeper.looking s).trans hs)
    rcases hended : bodies (routineBody res) rs (res.keeper.catalog s).2 with ⟨outcome, t⟩
    rw [hended] at hrest
    cases hrest
    rfl

theorem listRoutines_apply {q : Request} {page size : Nat} (hq : ListsRoutines q page size)
    {s : σ} {shown : List Value}
    (hshown : List.Forall₂ (view s).Lists (view s).recentRoutines shown) :
    (listRoutines res q s).1 = .ok (.ok (pageAnswer page size (slice size shown page)
      (decide (page * size + size < shown.length)))) := by
  have hasked : orUnprocessable (Prod.mk <$> q.checkParameter "page" 0 (Validation.atLeast 0) <*>
      q.checkParameter "pageSize" 20 (Validation.between 1 100)) s =
        (.ok (.ok ((page : Int), (size : Int))), s) := by
    rw [hq.askedPage, hq.askedSize]
    rfl
  have hfits : storable ((page : Int) * size) s = (.ok (.ok ()), s) := by
    rw [storable, if_pos hq.fits]
    rfl
  have hcatalog : catalog res s = (.ok (.ok (view s)), (res.keeper.catalog s).2) := by
    rw [← h.keeper.catalog s]
    rfl
  have hoffset : ((page : Int) * size).toNat = page * size := Int.toNat_natCast (page * size)
  have hpage : List.Forall₂ (view s).Lists
      (((view s).recentRoutines.drop (page * size)).take size) (slice size shown page) :=
    List.forall₂_take _ (List.forall₂_drop _ hshown)
  have hbodies := bodies_routineBody h hpage (h.keeper.looking s)
  have hmore : decide (size < ((view s).recentRoutines.drop (page * size)).length) =
      decide (page * size + size < shown.length) := by
    rw [List.length_drop, hshown.length_eq, decide_eq_decide]
    omega
  unfold listRoutines
  rw [Handling.bind_apply, hasked]
  dsimp only
  rw [Handling.bind_apply, hfits]
  dsimp only
  rw [Handling.bind_apply, hcatalog]
  dsimp only
  rw [hoffset, Int.toNat_natCast, Handling.bind_apply, hmore]
  rcases hended : bodies (routineBody res) _ _ with ⟨outcome, t⟩
  rw [hended] at hbodies
  cases hbodies
  rfl

theorem respond_listRoutines {q : Request} {page size : Nat} (hq : ListsRoutines q page size)
    {s : σ} {shown : List Value}
    (hshown : List.Forall₂ (view s).Lists (view s).recentRoutines shown) :
    (respond res q s).1 = .ok (pageAnswer page size (slice size shown page)
      (decide (page * size + size < shown.length))) ∧ view (respond res q s).2 = view s := by
  have hhandled : handled res q = listRoutines res q := by
    rw [handled_of_route hq.route, dispatch, if_neg hq.method]
  rw [respond_apply, hhandled]
  constructor
  · rw [listRoutines_apply h hq hshown]
    rfl
  · exact (reads_listRoutines h q).leaves s rfl

variable {s : σ}

theorem history_readable (hs : (view s).routines = []) (requests : List Request) (n : Nat)
    (hn : n ≤ requests.length) :
    let c := (history res view s requests).catalog n
    c.Readable ∧ c.Distinct ∧ c.routines.length ≤ n := by
  induction n with
  | zero => simp [history, after, Readable, Catalog.Distinct, hs]
  | succ n ih =>
    obtain ⟨hreadable, hdistinct, hlength⟩ := ih (by omega)
    have hmove := history_moves (s := s) h requests n hn
    have hlonger := hmove.length_routines
    refine ⟨?_, hmove.distinct hdistinct, by omega⟩
    obtain hsame | ⟨route, -, hchange⟩ := history_changes h requests n hn
    · exact hsame ▸ hreadable
    · exact hchange.readable hreadable

-- Routines that can be listed are listed in pages of any size: the pages from the first on, up to
-- the first after which there are no more, show every routine once, the one with the latest update
-- first and of those with one update that with the greatest number. That there are more is said of
-- a page exactly if the next one is not empty. Nothing but times before 1970 can make that a
-- service that starts without routines ever has some that cannot be listed.
theorem routines_paged :
    (∀ s, (view s).Listable → ∃ shown,
      (view s).recentRoutines.Perm (view s).routines ∧
      (view s).recentRoutines.Pairwise RoutineRecord.ComesBefore ∧
      List.Forall₂ (view s).Lists (view s).recentRoutines shown ∧
      ∀ size, 1 ≤ size → ∃ last,
        (List.range (last + 1)).flatMap (slice size shown) = shown ∧
        (∀ page, slice size shown (page + 1) ≠ [] ↔ page < last) ∧
        (∀ page ≤ last, Sql.fitsInteger (page * size) = true) ∧
        ∀ page q t, ListsRoutines q page size → view t = view s →
          (respond res q t).1 = .ok (pageAnswer page size (slice size shown page)
            (decide (slice size shown (page + 1) ≠ []))) ∧
          view (respond res q t).2 = view s) ∧
    ∀ s requests, (view s).routines = [] → requests.length < 2 ^ 63 → ∀ n ≤ requests.length,
      (∀ r ∈ ((history res view s requests).catalog n).routines, r.IsTimed) →
        ((history res view s requests).catalog n).Listable := by
  constructor
  · intro s hs
    obtain ⟨shown, hshown⟩ := hs.exists_shown
    refine ⟨shown, (view s).recentRoutines_perm, hs.distinct.recentRoutines, hshown, ?_⟩
    have hfew : shown.length < 2 ^ 63 := by
      rw [← hshown.length_eq, (view s).recentRoutines_perm.length_eq]
      exact hs.few
    intro size hsize
    obtain ⟨last, hall, hmore, hlast⟩ := exists_lastSlice hsize shown
    refine ⟨last, hall, hmore, fun page hpage => ?_, fun page q t hq ht => ?_⟩
    · exact fits_of_lt ((Nat.mul_le_mul_right size hpage).trans_lt (hlast.trans_lt hfew))
    · have hnext : decide (slice size shown (page + 1) ≠ []) =
          decide (page * size + size < shown.length) := by
        rw [decide_eq_decide, slice_ne_nil_iff hsize, Nat.succ_mul]
      rw [hnext, ← ht]
      exact respond_listRoutines h hq (ht ▸ hshown)
  · intro s requests hs hfew n hn htimed
    obtain ⟨hreadable, hdistinct, hlength⟩ := history_readable h hs requests n hn
    exact hreadable.listable hdistinct htimed (by omega)

end

def askPage (page size : Nat) : Request :=
  { method := "GET", path := "/routines"
    parameters := [("page", toString page), ("pageSize", toString size)] }

theorem askPage_lists {page size : Nat} (hleast : 1 ≤ size) (hgreatest : size ≤ 100)
    (hfits : Sql.fitsInteger (page * size) = true) :
    ListsRoutines (askPage page size) page size where
  route := by
    change Route.find "GET" "/routines" = .ok .routines
    rfl
  method := by
    change "GET" ≠ "POST"
    decide
  askedPage := by
    have hfound : (askPage page size).parameters.reverse.find? (·.1 == "page") =
        some ("page", toString page) := by
      rfl
    have hpage : Validation.atLeast 0 (.text (toString page)) = .valid (page : Int) := by
      rw [Validation.atLeast, Validation.integer_toString]
      exact Validation.atLeast_int (Int.natCast_nonneg page)
    rw [Request.checkParameter, hfound]
    dsimp only
    rw [hpage]
    rfl
  askedSize := by
    have hfound : (askPage page size).parameters.reverse.find? (·.1 == "pageSize") =
        some ("pageSize", toString size) := by
      rfl
    have hsize : Validation.between 1 100 (.text (toString size)) = .valid (size : Int) := by
      rw [Validation.between, Validation.integer_toString]
      have habove : ¬100 < (size : Int) := by omega
      have hbelow : ¬(size : Int) < 1 := by omega
      dsimp only [Validation.Checked.andThen]
      rw [if_neg habove, if_neg hbelow]
    rw [Request.checkParameter, hfound]
    dsimp only
    rw [hsize]
    rfl
  fits := hfits

-- Three routines that are created at one time.
def threeRoutines : List Request :=
  [posted "/scrapers" (scraperNamed "shop"), posted "/routines" (routineOf 1),
    posted "/routines" (routineOf 1), posted "/routines" (routineOf 1)]

def threeCreated : Rehearsal.World := after (Rehearsal.resources {}) {} threeRoutines

-- The one with the greatest number comes first, and the last stands alone on its page.
theorem routines_paged_threeRoutines :
    (Rehearsal.resources {}).Lawful Rehearsal.World.catalog ∧ threeCreated.catalog.Listable ∧
    threeCreated.catalog.routines.map (·.id) = [1, 2, 3] ∧
    threeCreated.catalog.recentRoutines = threeCreated.catalog.routines.reverse ∧
    ∃ first second third : Value,
      List.Forall₂ threeCreated.catalog.Lists threeCreated.catalog.recentRoutines
        [first, second, third] ∧
      (respond (Rehearsal.resources {}) (askPage 0 2) threeCreated).1 =
        .ok (pageAnswer 0 2 [first, second] true) ∧
      (respond (Rehearsal.resources {}) (askPage 1 2) threeCreated).1 =
        .ok (pageAnswer 1 2 [third] false) := by
  have hfacts : (∀ r ∈ threeCreated.catalog.routines,
        r.createdAt = 1000 ∧ r.updatedAt = 1000 ∧ r.lastRunAt = none) ∧
      threeCreated.catalog.routines.reverse.Pairwise RoutineRecord.ComesBefore ∧
      threeCreated.catalog.routines.map (·.id) = [1, 2, 3] := by
    decide +kernel
  obtain ⟨htimes, hreversed, hids⟩ := hfacts
  have hlawful := Rehearsal.resources_lawful {}
  obtain ⟨hpaged, hlistable⟩ := routines_paged hlawful
  have hlist : threeCreated.catalog.Listable := by
    have hcatalog : (rehearsed threeRoutines).catalog 4 = threeCreated.catalog :=
      rehearsed_catalog (Nat.le_refl 4)
    have hfew : threeRoutines.length < 2 ^ 63 := by
      change 4 < 2 ^ 63
      omega
    have hlast := hlistable {} threeRoutines rfl hfew 4 (Nat.le_refl 4)
    change (∀ r ∈ ((rehearsed threeRoutines).catalog 4).routines, r.IsTimed) →
      ((rehearsed threeRoutines).catalog 4).Listable at hlast
    rw [hcatalog] at hlast
    refine hlast fun r hr => ?_
    obtain ⟨hcreated, hupdated, hnever⟩ := htimes r hr
    exact ⟨by omega, by omega, by simp [hnever]⟩
  obtain ⟨shown, hperm, hordered, hshown, hpages⟩ := hpaged threeCreated hlist
  have hrecent : threeCreated.catalog.recentRoutines = threeCreated.catalog.routines.reverse := by
    refine List.Perm.eq_of_pairwise (fun a b _ _ hab hba => ?_) hordered hreversed
      (hperm.trans (List.reverse_perm _).symm)
    unfold RoutineRecord.ComesBefore at hab hba
    omega
  have hlength : shown.length = 3 := by
    rw [← hshown.length_eq, hperm.length_eq, ← List.length_map (f := (·.id))]
    exact congrArg List.length hids
  obtain ⟨first, second, third, rfl⟩ := List.length_eq_three.mp hlength
  obtain ⟨last, -, -, -, hanswers⟩ := hpages 2 (by decide)
  refine ⟨hlawful, hlist, hids, hrecent, first, second, third, hshown, ?_, ?_⟩
  · exact (hanswers 0 _ _ (askPage_lists (by decide) (by decide) (by decide)) rfl).1
  · exact (hanswers 1 _ _ (askPage_lists (by decide) (by decide) (by decide)) rfl).1

end Service

end Gleaner
