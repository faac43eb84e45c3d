import Gleaner.Proofs.Browser.Standing

namespace Gleaner.Browser

namespace Standing

-- A page that may be given to an index that has none: the one it takes over, or a new one.
inductive Offers (v : Standing) (index page : Nat) : Standing → Prop
  | takenOver (h : v.takenOver? index = some page) : Offers v index page v
  | new {w : Standing} (h : v.takenOver? index = none) (hw : Later [] v w)
      (hfresh : page ∉ v.opened) (hopened : page ∈ w.opened) (hopen : w.closed page = false) :
      Offers v index page w

-- What looking for the page of an index comes to, with the page that is found.
inductive Lookup (v : Standing) (index : Nat) : Option Nat → Standing → Prop
  | live {page : Nat} (h : v.livePage? index = some page) : Lookup v index (some page) v
  | unopened {w : Standing} (hnone : v.livePage? index = none) (h : v.takenOver? index = none)
      (hw : Later [] v w) : Lookup v index none w
  | unlimited {page : Nat} {w : Standing} (hnone : v.livePage? index = none)
      (h : v.Offers index page w) : Lookup v index none (w.call page)
  | given {page : Nat} {w : Standing} (hnone : v.livePage? index = none)
      (h : v.Offers index page w) : Lookup v index (some page) ((w.call page).give index page)

-- What a use of an index comes to: calls of the page that is found for it, if one is found.
inductive Served (v : Standing) (index : Nat) : Standing → Prop
  | missed {w : Standing} (h : v.Lookup index none w) : Served v index w
  | found {page n : Nat} {w x : Standing} (h : v.Lookup index (some page) w)
      (hx : Later (List.replicate n page) w x) : Served v index x

theorem Offers.closed {v w : Standing} {index page : Nat} (h : v.Offers index page w) :
    w.closed page = false := by
  cases h with
  | takenOver h =>
    unfold takenOver? at h
    split at h
    · have hhead := (Option.filter_eq_some_iff.mp h).1
      have hopen := (List.mem_filter.mp (List.mem_of_head? hhead)).2
      simpa using hopen
    · cases h
  | new h hw hfresh hopened hopen => exact hopen

-- The page that is found is the one of the index from then on.
theorem Lookup.livePage? {v w : Standing} {index page : Nat}
    (h : v.Lookup index (some page) w) : w.livePage? index = some page := by
  cases h with
  | live h => exact h
  | given hnone h => simp [Standing.livePage?, give, call, assignedTo?_reassigned, h.closed]

end Standing

section

variable {σ α β : Type} {context : Context σ} {view : σ → Standing} {timeout : Int}
  {warn : String → StateM σ Unit} (h : context.Lawful view)
include h

theorem livePage?_apply (index : Nat) (s : σ) :
    livePage? context index s = (.ok ((view s).livePage? index), s) := by
  unfold livePage?
  simp only [Effect.bind_apply, Effect.lift_apply, h.assigned]
  unfold Standing.livePage?
  cases assignedTo? (view s).assigned index with
  | none => rfl
  | some page =>
    simp only [Effect.bind_apply, Effect.lift_apply, h.isClosed, Option.filter_some]
    cases (view s).closed page <;> rfl

theorem takenOver?_apply (index : Nat) (s : σ) :
    takenOver? context index s = (.ok ((view s).takenOver? index), s) := by
  unfold takenOver?
  simp only [Effect.bind_apply, Effect.lift_apply, h.openPages]
  unfold Standing.takenOver?
  cases (view s).openPages with
  | nil => by_cases hi : index = 0 <;> simp [hi]
  | cons page rest =>
    simp only [Effect.bind_apply, Effect.lift_apply, h.address]
    by_cases hi : index = 0
    · by_cases ha : (view s).address page = emptyAddress <;> simp [hi, ha, Option.filter_some]
    · simp [hi]

-- The end of a lookup that has to give a page.
theorem lookup_give {index page : Nat} {v : Standing} {s : σ}
    (hnone : v.livePage? index = none) (ho : v.Offers index page (view s)) :
    let ended := (context.limitNavigation page timeout >>= fun _ => do
      context.assign (reassigned index page (← context.assigned))
      return page : Effect σ Nat) s
    v.Lookup index ended.1.toOption (view ended.2) := by
  have hlimit := h.limitNavigation page timeout s
  dsimp only
  rw [Effect.bind_apply]
  rcases hr : context.limitNavigation page timeout s with ⟨e | u, t⟩
  · rw [hr] at hlimit
    change v.Lookup index none (view t)
    rw [show view t = (view s).call page from hlimit]
    exact .unlimited hnone ho
  · rw [hr] at hlimit
    have ht : view t = (view s).call page := hlimit
    simp only [Effect.bind_apply, Effect.lift_apply, h.assigned]
    change v.Lookup index (some page)
      (view (context.assign (reassigned index page (view t).assigned) t).2)
    rw [h.assign, ht]
    exact .given hnone ho

variable (timeout) in
theorem page_lookup (index : Nat) (s : σ) :
    (view s).Lookup index (page context timeout index s).1.toOption
      (view (page context timeout index s).2) := by
  unfold page
  rw [Effect.bind_ok (livePage?_apply h index s)]
  cases hlive : (view s).livePage? index with
  | some page => exact .live hlive
  | none =>
    dsimp only
    rw [Effect.bind_ok (takenOver?_apply h index s)]
    cases htaken : (view s).takenOver? index with
    | some page => exact lookup_give h hlive (.takenOver htaken)
    | none =>
      dsimp only
      have hopening := h.openPage s
      rw [Effect.bind_apply]
      rcases hr : context.openPage s with ⟨e | page, t⟩
      · rw [hr] at hopening
        exact .unopened hlive htaken hopening
      · rw [hr] at hopening
        obtain ⟨hfresh, hopened, hopen⟩ := h.newPage s page t hr
        exact lookup_give h hlive (.new htaken hopening hfresh hopened hopen)

theorem page_live {index page : Nat} {s : σ} (hlive : (view s).livePage? index = some page) :
    Browser.page context timeout index s = (.ok page, s) := by
  unfold Browser.page
  rw [Effect.bind_ok (livePage?_apply h index s), hlive]
  rfl

-- Work that starts with a lookup serves the index if the rest of it stays with the page.
theorem served_bind {index : Nat} {next : Nat → Effect σ α} {s : σ}
    (hn : ∀ page t, (view t).livePage? index = some page →
      ∃ n, (view t).Later (List.replicate n page) (view (next page t).2)) :
    (view s).Served index (view ((page context timeout index >>= next) s).2) := by
  have hlookup := page_lookup timeout h index s
  rw [Effect.bind_apply]
  rcases hr : page context timeout index s with ⟨e | page, t⟩
  · rw [hr] at hlookup
    exact .missed hlookup
  · rw [hr] at hlookup
    obtain ⟨n, hrest⟩ := hn page t hlookup.livePage?
    exact .found hlookup hrest

omit h in
-- The search for an element once the page is known.
def search (context : Context σ) (page : Nat) (selectors : Selectors) :
    Effect σ (Option (FoundElement σ)) := do
  match ← context.locate page selectors with
  | some element => return some element
  | none => do
    context.dispose page
    return none

omit h in
theorem locate?_eq (index : Nat) (selectors : Selectors) :
    locate? context timeout index selectors =
      (page context timeout index >>= fun page => search context page selectors) := rfl

theorem tells_search (page : Nat) (selectors : Selectors) :
    Tells view page (search context page selectors) := by
  refine tells_bind (h.locate page selectors) fun found => ?_
  cases found with
  | some element => exact tells_pure _
  | none => exact tells_bind (h.dispose page) fun _ => tells_pure _

theorem search_found {page : Nat} {selectors : Selectors} {s t : σ} {element : FoundElement σ}
    (hs : search context page selectors s = (.ok (some element), t)) :
    element.Tells view page := by
  obtain ⟨found, u, hfound, hs⟩ := Effect.bind_eq_ok hs
  cases found with
  | some found =>
    cases hs
    exact h.located page selectors s _ _ hfound
  | none =>
    obtain ⟨_, w, -, hs⟩ := Effect.bind_eq_ok hs
    cases hs

omit h in
-- The search for an element that has to be there.
def searchFor (context : Context σ) (page : Nat) (selectors : Selectors) :
    Effect σ (FoundElement σ) := do
  match ← search context page selectors with
  | some element => return element
  | none => throw noElement

omit h in
theorem locate_eq (index : Nat) (selectors : Selectors) (s : σ) :
    locate context timeout index selectors s =
      (page context timeout index >>= fun page => searchFor context page selectors) s := by
  unfold locate
  rw [locate?_eq, Effect.bind_assoc_apply]
  rfl

theorem tells_searchFor (page : Nat) (selectors : Selectors) :
    Tells view page (searchFor context page selectors) := by
  refine tells_bind (tells_search h page selectors) fun found => ?_
  cases found with
  | some element => exact tells_pure _
  | none => exact tells_throw _

theorem searchFor_found {page : Nat} {selectors : Selectors} {s t : σ}
    {element : FoundElement σ}
    (hs : searchFor context page selectors s = (.ok element, t)) :
    element.Tells view page := by
  obtain ⟨found, u, hfound, hs⟩ := Effect.bind_eq_ok hs
  cases found with
  | some found =>
    cases hs
    exact search_found h hfound
  | none => cases hs

theorem tells_found {page : Nat} {selectors : Selectors} {next : FoundElement σ → Effect σ α}
    (hn : ∀ element, element.Tells view page → Tells view page (next element)) :
    Tells view page (searchFor context page selectors >>= next) :=
  tells_bind_of (tells_searchFor h page selectors)
    (fun _ _ _ hs => searchFor_found h hs) hn

-- An index whose page is open finds it at once.
theorem locate_live {index page : Nat} {s : σ} (hlive : (view s).livePage? index = some page)
    (selectors : Selectors) :
    locate context timeout index selectors s = searchFor context page selectors s := by
  rw [locate_eq, Effect.bind_ok (page_live h hlive)]

-- What is done with an element of a page that is at hand.
theorem tells_located {index page : Nat} {selectors : Selectors}
    {next : FoundElement σ → Effect σ α}
    (hn : ∀ element, element.Tells view page → Tells view page (next element)) {s : σ}
    (hlive : (view s).livePage? index = some page) :
    ∃ n, (view s).Later (List.replicate n page)
      (view ((locate context timeout index selectors >>= next) s).2) := by
  have hsearch : (locate context timeout index selectors >>= next) s =
      (searchFor context page selectors >>= next) s := by
    rw [Effect.bind_apply, Effect.bind_apply, locate_live h hlive]
  rw [hsearch]
  exact tells_found h hn s

-- What is done with an element of the page of an index serves that index.
theorem served_located {index : Nat} {selectors : Selectors} {next : FoundElement σ → Effect σ α}
    (hn : ∀ page element, element.Tells view page → Tells view page (next element)) (s : σ) :
    (view s).Served index
      (view ((locate context timeout index selectors >>= next) s).2) := by
  have hsearch : (locate context timeout index selectors >>= next) s =
      (page context timeout index >>= fun page => searchFor context page selectors >>= next) s := by
    rw [Effect.bind_apply, locate_eq, ← Effect.bind_apply, Effect.bind_assoc_apply]
  rw [hsearch]
  exact served_bind h fun page t _ => tells_found h (hn page) t

theorem served_locate? (index : Nat) (selectors : Selectors) (s : σ) :
    (view s).Served index (view ((locate? context timeout index selectors) s).2) := by
  rw [locate?_eq]
  exact served_bind h fun page t _ => tells_search h page selectors t

omit h in
theorem tells_typeInto {page : Nat} {element : FoundElement σ} (he : element.Tells view page)
    (value : Option String) (clears enters : Bool) :
    Tells view page (typeInto element value clears enters) := by
  have henter : Tells view page (if enters then element.press "Enter" else pure ()) :=
    tells_if (he.press _)
  have hfill : ∀ {rest : Effect σ Unit}, Tells view page rest →
      Tells view page (if clears then element.fill "" >>= fun _ => rest else rest) := by
    intro rest hrest
    cases clears with
    | false => exact hrest
    | true => exact tells_bind (he.fill _) fun _ => hrest
  cases value with
  | none => exact hfill henter
  | some text =>
    have htype : Tells view page (do
        if text ≠ "" then element.type text
        if enters then element.press "Enter") := by
      by_cases ht : text = ""
      · simpa [ht] using henter
      · simpa [ht] using tells_bind (he.type text) fun _ => henter
    exact hfill htype

variable (hw : ∀ message, Passes view (warn message))
include hw

theorem tells_waitForNavigation (page : Nat) :
    Tells view page (waitForNavigation context warn page) := by
  refine tells_bind (tells_attempt (h.waitUntilIdle _ _)) fun outcome => ?_
  cases outcome with
  | ok _ => exact tells_pure _
  | error e =>
    cases e with
    | timeout _ => exact tells_of_leaves (leaves_lift (hw _))
    | _ => exact tells_throw _

-- An action of a script is carried out on the page of its index only.
theorem served_perform (index : Nat) (action : Action) (value : Option String)
    (arguments : List (Option String)) (s : σ) :
    (view s).Served index
      (view ((perform context timeout warn index action value arguments) s).2) := by
  refine served_bind h fun page t hlive => ?_
  cases action with
  | wait duration => exact h.wait _ _ t
  | navigate address => exact h.navigate _ _ _ t
  | click selectors waits =>
    exact tells_located h (fun element he => tells_bind he.click fun _ =>
      tells_if (tells_waitForNavigation h hw page)) hlive
  | type selectors source clears enters waits =>
    exact tells_located h (fun element he => tells_bind (tells_typeInto he value clears enters)
      fun _ => tells_if (tells_waitForNavigation h hw page)) hlive
  | scrollToTop => exact h.evaluate _ _ t
  | scrollToBottom => exact h.evaluate _ _ t
  | scrollToElement selectors => exact tells_located h (fun element he => he.scrollIntoView) hlive
  | evaluate code _ => exact h.evaluate _ _ t

end

end Gleaner.Browser
