import Gleaner.Proofs.Browser.Standing
import Gleaner.Proofs.Rehearsal.Tables

namespace Gleaner.Rehearsal.Browser

open Gleaner.Browser World

-- The page that a call names before anything else.
def pageOf? : Value → Option Nat
  | .list (.text _ :: .int (.ofNat page) :: _) => some page
  | _ => none

def windowAt (browser : Nat) (w : World) : Window :=
  (w.windows.find? (·.browser == browser)).getD { browser }

def Window.tabAt (window : Window) (page : Nat) : Tab :=
  (window.tabs[page]?).getD { address := "" }

def standingOf (window : Window) (calls : Array Value) : Standing where
  opened := List.range window.tabs.length
  closed page := (Window.tabAt window page).closed
  address page := (Window.tabAt window page).address
  assigned := window.assigned
  called := calls.toList.filterMap pageOf?

-- The window of a browser, as it stands in a rehearsal that works with no other.
def standing (browser : Nat) (w : World) : Standing := standingOf (windowAt browser w) w.calls

variable {browser page : Nat} {w : World}

theorem windowAt_browser (browser : Nat) (w : World) : (windowAt browser w).browser = browser := by
  unfold windowAt
  cases hfound : w.windows.find? (·.browser == browser) with
  | none => rfl
  | some window => simpa using List.find?_some hfound

theorem windowAt_setWindow {window : Window} (h : window.browser = browser) :
    windowAt browser (setWindow window w).2 = window := by
  have hfound : (setWindow window w).2.windows =
    window :: w.windows.filter (·.browser != window.browser) := rfl
  rw [windowAt, hfound, List.find?_cons_of_pos (by simp [h])]
  rfl

theorem standing_setWindow {window : Window} (h : window.browser = browser) :
    standing browser (setWindow window w).2 = standingOf window w.calls := by
  rw [standing, windowAt_setWindow h]
  rfl

theorem standing_congr {v : World} (hw : v.windows = w.windows) (hc : v.calls = w.calls) :
    standing browser v = standing browser w := by
  unfold standing windowAt
  rw [hw, hc]

-- Noting a call tells the page that it names.
theorem standing_note (kind : String) (call : List Value) :
    standing browser (note kind call w).2 =
      { standing browser w with
        called := (standing browser w).called ++ (pageOf? (.list (.text kind :: call))).toList } := by
  have hcalls : (note kind call w).2.calls = w.calls.push (.list (.text kind :: call)) := rfl
  have hwindow : windowAt browser (note kind call w).2 = windowAt browser w := rfl
  rw [standing, hcalls, hwindow]
  cases hpage : pageOf? (.list (.text kind :: call)) <;> simp [standing, standingOf, hpage]

theorem tell_state (kind : String) (call : List Value) :
    (tell kind call w).2 = (note kind call w).2 := by
  have hfault : Leaves id (faultOf (note kind call w).2.pageFaults kind) := leaves_faultOf _ _
  exact hfault _

theorem standing_tell (kind : String) (page : Nat) (call : List Value) :
    standing browser (tell kind (.int page :: call) w).2 = (standing browser w).call page := by
  rw [tell_state, standing_note]
  rfl

theorem tells_tell (kind : String) (page : Nat) (call : List Value) :
    Tells (standing browser) page (tell kind (.int page :: call)) := by
  intro w
  refine ⟨1, ?_⟩
  rw [standing_tell]
  exact ⟨List.prefix_refl _, fun _ h => h, rfl, rfl⟩

-- Pages that go elsewhere or close are still there.
theorem later_changeTab {f : Tab → Tab} (hf : ∀ tab, tab.closed = true → (f tab).closed = true) :
    (standing browser w).Later [] (standing browser (changeTab browser page f w).2) := by
  have hstate : standing browser (changeTab browser page f w).2 = standingOf
      { windowAt browser w with tabs := (windowAt browser w).tabs.modify page f } w.calls :=
    standing_setWindow (windowAt_browser browser w)
  rw [hstate]
  refine ⟨?_, ?_, rfl, by simp [standing, standingOf]⟩
  · simp [standing, standingOf]
  · intro other hclosed
    simp only [standing, standingOf, Window.tabAt, List.getElem?_modify] at hclosed ⊢
    cases htab : (windowAt browser w).tabs[other]? with
    | none => simp [htab] at hclosed
    | some tab =>
      have htab' : tab.closed = true := by simpa [htab] using hclosed
      by_cases hpage : page = other
      · simpa [hpage] using hf tab htab'
      · simpa [hpage] using htab'

theorem tells_changeTab {f : Tab → Tab} (hf : ∀ tab, tab.closed = true → (f tab).closed = true)
    (told : Nat) : Tells (standing browser) told (monadLift (changeTab browser page f)) :=
  fun _ => ⟨0, later_changeTab hf⟩

theorem tells_goto (address : String) (told : Nat) :
    Tells (standing browser) told (monadLift (goto browser page address)) :=
  tells_changeTab (f := fun tab => { tab with address }) (fun _ h => h) told

theorem elementOf_tells (browser page i : Nat) (e : Element) :
    (elementOf browser page i e).Tells (standing browser) page where
  click := by
    refine tells_bind (tells_tell _ _ _) fun _ => ?_
    cases e.target with
    | none => exact tells_pure _
    | some target => exact tells_goto target page
  fill _ := tells_tell _ _ _
  type _ := tells_tell _ _ _
  press _ := tells_tell _ _ _
  scrollIntoView := tells_tell _ _ _
  text := tells_bind (tells_tell _ _ _) fun _ => tells_of_leaves (leaves_bind leaves_get
    fun _ => fun _ => standing_congr rfl rfl)
  attributeOf _ := tells_bind (tells_tell _ _ _) fun _ => tells_pure _

theorem locate_tells (browser page : Nat) (selectors : Selectors) :
    Tells (standing browser) page (locate browser page selectors) := by
  refine tells_bind (tells_tell _ _ _) fun _ => ?_
  refine tells_bind (tells_of_leaves (leaves_find _ _)) fun found => ?_
  cases found with
  | none => exact tells_pure _
  | some found =>
    have hread : Leaves (standing browser)
        (monadLift (readVisible found.1 found.2) : Effect World Bool) :=
      fun _ => standing_congr rfl rfl
    refine tells_bind (tells_of_leaves hread) fun visible => ?_
    cases visible <;> exact tells_pure _

theorem locate_found {selectors : Selectors} {w' : World} {element : FoundElement World}
    (hs : locate browser page selectors w = (.ok (some element), w')) :
    element.Tells (standing browser) page := by
  obtain ⟨_, u, -, hs⟩ := Effect.bind_eq_ok hs
  obtain ⟨found, v, -, hs⟩ := Effect.bind_eq_ok hs
  cases found with
  | none => cases hs
  | some found =>
    obtain ⟨visible, x, -, hs⟩ := Effect.bind_eq_ok hs
    cases visible with
    | false => cases hs
    | true =>
      cases hs
      exact elementOf_tells browser page found.1 found.2

theorem closePage_closed {w' : World} (hs : closePage browser page w = (.ok (), w'))
    (hpage : page ∈ (standing browser w).opened) : (standing browser w').closed page = true := by
  obtain ⟨_, u, htell, hs⟩ := Effect.bind_eq_ok hs
  have hu : standing browser u = (standing browser w).call page := by
    rw [← standing_tell "closePage" page [], htell]
  have hw' : standing browser w' = standingOf
      { windowAt browser u with
        tabs := (windowAt browser u).tabs.modify page fun tab => { tab with closed := true } }
      u.calls := by
    cases hs
    exact standing_setWindow (windowAt_browser browser u)
  have hlength : page < (windowAt browser u).tabs.length := by
    have hopened : page ∈ (standing browser u).opened := hu ▸ hpage
    simpa [standing, standingOf] using hopened
  rw [hw']
  simp [standingOf, Window.tabAt, hlength]

theorem standing_newPage :
    standing browser (tell "newPage" [] w).2 = standing browser w := by
  rw [tell_state, standing_note]
  simp [pageOf?]

-- A window with one more page.
def Window.opened (window : Window) : Window :=
  { window with tabs := window.tabs ++ [{ address := emptyAddress }] }

theorem later_opened (window : Window) (calls : Array Value) :
    (standingOf window calls).Later [] (standingOf (Window.opened window) calls) := by
  refine ⟨?_, fun page hclosed => ?_, rfl, by simp [standingOf]⟩
  · simp only [standingOf, Window.opened, List.length_append, List.length_singleton,
      List.range_succ]
    exact List.prefix_append _ _
  · simp only [standingOf, Window.tabAt, Window.opened, List.getElem?_append] at hclosed ⊢
    by_cases hpage : page < window.tabs.length
    · simpa [hpage] using hclosed
    · simp [hpage] at hclosed

-- A page that cannot be opened is not there; otherwise it comes after all others.
theorem openPage_cases (browser : Nat) (w : World) :
    (∃ e w', openPage browser w = (.error e, w') ∧ standing browser w' = standing browser w) ∨
    ∃ u w', standing browser u = standing browser w ∧
      openPage browser w = (.ok (windowAt browser u).tabs.length, w') ∧
      standing browser w' = standingOf (Window.opened (windowAt browser u)) u.calls := by
  have htold : standing browser (tell "newPage" [] w).2 = standing browser w := standing_newPage
  rcases hr : tell "newPage" [] w with ⟨e | x, u⟩
  · rw [hr] at htold
    exact .inl ⟨e, u, Effect.bind_error hr _, htold⟩
  · rw [hr] at htold
    refine .inr ⟨u, _, htold, Effect.bind_ok hr _, ?_⟩
    exact standing_setWindow (windowAt_browser browser u)

-- The pages of a rehearsal behave as those of a window.
theorem context_lawful (browser : Nat) : (context browser).Lawful (standing browser) where
  openPages w := by
    refine Prod.ext (List.filter_congr fun page hpage => ?_) rfl
    have htab := List.getElem?_eq_getElem (List.mem_range.mp hpage)
    change (windowAt browser w).tabs[page]?.any _ = !(Window.tabAt (windowAt browser w) page).closed
    rw [Window.tabAt, show (windowAt browser w).tabs[page]? = _ from htab]
    rfl
  address page w := rfl
  isClosed page w := rfl
  assigned w := rfl
  assign pages w := standing_setWindow (windowAt_browser browser w)
  openPage w := by
    change (standing browser w).Later [] (standing browser (openPage browser w).2)
    obtain ⟨e, w', hs, hstanding⟩ | ⟨u, w', hu, hs, hstanding⟩ := openPage_cases browser w
    · rw [hs, hstanding]
      exact Standing.Later.refl _
    · rw [hs, hstanding, ← hu]
      exact later_opened _ _
  newPage w page w' hs := by
    change openPage browser w = _ at hs
    obtain ⟨e, v, hv, -⟩ | ⟨u, v, hu, hv, hstanding⟩ := openPage_cases browser w
    · rw [hv] at hs
      cases hs
    · rw [hv] at hs
      cases hs
      rw [← hu, hstanding]
      simp [standing, standingOf, Window.opened, Window.tabAt]
  limitNavigation page timeout w := standing_tell _ _ _
  navigate page address timeout := tells_bind (tells_tell _ _ _) fun _ => tells_goto address page
  evaluate page script := by cases script <;> exact tells_tell _ _ _
  locate := locate_tells browser
  located page selectors w element w' hs := locate_found hs
  dispose page := tells_tell _ _ _
  wait page duration := tells_tell _ _ _
  waitUntilIdle page timeout := tells_tell _ _ _
  closePage page := tells_bind (tells_tell _ _ _) fun _ =>
    tells_changeTab (f := fun tab => { tab with closed := true }) (fun _ _ => rfl) page
  closedPage page w w' hs := closePage_closed hs

end Gleaner.Rehearsal.Browser
