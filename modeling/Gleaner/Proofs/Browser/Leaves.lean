import Gleaner.Browser.Pages
import Gleaner.Browser.Session
import Gleaner.Proofs.Run.Leaves

namespace Gleaner.Browser

variable {σ τ α : Type} {view : σ → τ}

structure FoundElement.Leaves (element : FoundElement σ) (view : σ → τ) : Prop where
  click : Gleaner.Leaves view element.click
  fill : ∀ text, Gleaner.Leaves view (element.fill text)
  type : ∀ text, Gleaner.Leaves view (element.type text)
  press : ∀ key, Gleaner.Leaves view (element.press key)
  scrollIntoView : Gleaner.Leaves view element.scrollIntoView
  text : Gleaner.Leaves view element.text
  attributeOf : ∀ name, Gleaner.Leaves view (element.attributeOf name)

structure Context.Leaves (context : Context σ) (view : σ → τ) : Prop where
  openPages : Passes view context.openPages
  address : ∀ page, Passes view (context.address page)
  isClosed : ∀ page, Passes view (context.isClosed page)
  openPage : Gleaner.Leaves view context.openPage
  limitNavigation : ∀ page timeout, Gleaner.Leaves view (context.limitNavigation page timeout)
  navigate : ∀ page address timeout, Gleaner.Leaves view (context.navigate page address timeout)
  evaluate : ∀ page script, Gleaner.Leaves view (context.evaluate page script)
  locate : ∀ page selectors, Gleaner.Leaves view (context.locate page selectors)
  located : ∀ page selectors s element t,
    context.locate page selectors s = (.ok (some element), t) → element.Leaves view
  dispose : ∀ page, Gleaner.Leaves view (context.dispose page)
  wait : ∀ page duration, Gleaner.Leaves view (context.wait page duration)
  waitUntilIdle : ∀ page timeout, Gleaner.Leaves view (context.waitUntilIdle page timeout)
  closePage : ∀ page, Gleaner.Leaves view (context.closePage page)
  assigned : Passes view context.assigned
  assign : ∀ pages, Passes view (context.assign pages)

structure Launcher.Leaves (launcher : Launcher σ) (view : σ → τ) : Prop where
  start : Gleaner.Leaves view launcher.start
  launch : ∀ browser headless, Gleaner.Leaves view (launcher.launch browser headless)
  openContext : ∀ browser, Gleaner.Leaves view (launcher.openContext browser)
  closeBrowser : ∀ browser, Gleaner.Leaves view (launcher.closeBrowser browser)
  stop : ∀ browser, Gleaner.Leaves view (launcher.stop browser)
  sessions : Passes view launcher.sessions
  keep : ∀ sessions, Passes view (launcher.keep sessions)

section

variable {context : Context σ} {timeout : Int} {warn : String → StateM σ Unit}
  (h : context.Leaves view) (hw : ∀ message, Passes view (warn message))
include h

theorem leaves_livePage (index : Nat) : Leaves view (livePage? context index) := by
  refine leaves_bind (leaves_lift h.assigned) fun pages => ?_
  cases assignedTo? pages index with
  | none => exact leaves_pure _
  | some page =>
    refine leaves_bind (leaves_lift (h.isClosed page)) fun closed => ?_
    cases closed <;> exact leaves_pure _

theorem leaves_takenOver (index : Nat) : Leaves view (takenOver? context index) := by
  refine leaves_bind (leaves_lift h.openPages) fun pages => ?_
  cases pages with
  | nil => exact leaves_pure _
  | cons page rest =>
    refine leaves_bind (leaves_lift (h.address page)) fun address => ?_
    split <;> exact leaves_pure _

theorem leaves_page (index : Nat) : Leaves view (page context timeout index) := by
  refine leaves_bind (leaves_livePage h index) fun live => ?_
  cases live with
  | some page => exact leaves_pure _
  | none =>
    have hopened : ∀ page, Leaves view (do
        context.limitNavigation page timeout
        context.assign (reassigned index page (← context.assigned))
        return page) := fun page =>
      leaves_bind (h.limitNavigation page timeout) fun _ =>
        leaves_bind (leaves_lift h.assigned) fun _ =>
          leaves_bind (leaves_lift (h.assign _)) fun _ => leaves_pure _
    refine leaves_bind (leaves_takenOver h index) fun taken => ?_
    cases taken with
    | some page => exact leaves_bind (leaves_pure page) hopened
    | none => exact leaves_bind h.openPage hopened

theorem leaves_locate? (index : Nat) (selectors : Selectors) :
    Leaves view (locate? context timeout index selectors) := by
  refine leaves_bind (leaves_page h index) fun page => ?_
  refine leaves_bind (h.locate page selectors) fun element => ?_
  cases element with
  | some element => exact leaves_pure _
  | none => exact leaves_bind (h.dispose page) fun _ => leaves_pure _

theorem locate?_located {index : Nat} {selectors : Selectors} {s t : σ}
    {element : FoundElement σ}
    (hs : locate? context timeout index selectors s = (.ok (some element), t)) :
    element.Leaves view := by
  obtain ⟨page, u, -, hs⟩ := Effect.bind_eq_ok hs
  obtain ⟨found, v, hfound, hs⟩ := Effect.bind_eq_ok hs
  cases found with
  | some found =>
    cases hs
    exact h.located page selectors u _ _ hfound
  | none =>
    obtain ⟨_, w, -, hs⟩ := Effect.bind_eq_ok hs
    cases hs

-- What is done with an element that has been located.
theorem leaves_located {index : Nat} {selectors : Selectors} {next : FoundElement σ → Effect σ α}
    (hn : ∀ element, element.Leaves view → Leaves view (next element)) :
    Leaves view (locate context timeout index selectors >>= next) := by
  have hl : Leaves view (locate context timeout index selectors) := by
    refine leaves_bind (leaves_locate? h index selectors) fun found => ?_
    cases found with
    | some element => exact leaves_pure _
    | none => exact leaves_throw _
  refine leaves_bind_of hl (Q := fun element => element.Leaves view) ?_ hn
  intro s element t hs
  obtain ⟨found, u, hfound, hs⟩ := Effect.bind_eq_ok hs
  cases found with
  | some found =>
    cases hs
    exact locate?_located h hfound
  | none => cases hs

include hw

theorem leaves_waitForNavigation (page : Nat) :
    Leaves view (waitForNavigation context warn page) := by
  refine leaves_bind (leaves_attempt (h.waitUntilIdle _ _)) fun outcome => ?_
  cases outcome with
  | ok _ => exact leaves_pure _
  | error e =>
    cases e with
    | timeout _ => exact leaves_lift (hw _)
    | _ => exact leaves_throw _

theorem leaves_waitIf (waits : Bool) (page : Nat) :
    Leaves view (if waits then waitForNavigation context warn page else pure ()) := by
  cases waits with
  | false => exact leaves_pure _
  | true => exact leaves_waitForNavigation h hw page

omit h hw in
theorem leaves_typeInto {element : FoundElement σ} (he : element.Leaves view)
    (value : Option String) (clears enters : Bool) :
    Leaves view (typeInto element value clears enters) := by
  have henter : Leaves view (if enters then element.press "Enter" else pure ()) := by
    cases enters with
    | false => exact leaves_pure _
    | true => exact he.press _
  have hfill : ∀ {rest : Effect σ Unit}, Leaves view rest →
      Leaves view (if clears then element.fill "" >>= fun _ => rest else rest) := by
    intro rest hrest
    cases clears with
    | false => exact hrest
    | true => exact leaves_bind (he.fill _) fun _ => hrest
  cases value with
  | none => exact hfill henter
  | some text =>
    have htype : Leaves view (do
        if text ≠ "" then element.type text
        if enters then element.press "Enter") := by
      by_cases ht : text = ""
      · simpa [ht] using henter
      · simpa [ht] using leaves_bind (he.type text) fun _ => henter
    exact hfill htype

theorem leaves_pagePerform (index : Nat) (action : Action) (value : Option String)
    (arguments : List (Option String)) :
    Leaves view (perform context timeout warn index action value arguments) := by
  refine leaves_bind (leaves_page h index) fun page => ?_
  cases action with
  | wait duration => exact h.wait _ _
  | navigate address => exact h.navigate _ _ _
  | click selectors waits =>
    exact leaves_located h fun element he =>
      leaves_bind he.click fun _ => leaves_waitIf h hw waits page
  | type selectors source clears enters waits =>
    exact leaves_located h fun element he =>
      leaves_bind (leaves_typeInto he value clears enters) fun _ => leaves_waitIf h hw waits page
  | scrollToTop => exact h.evaluate _ _
  | scrollToBottom => exact h.evaluate _ _
  | scrollToElement selectors => exact leaves_located h fun element he => he.scrollIntoView
  | evaluate code _ => exact h.evaluate _ _

-- The pages of a browser leave alone what its window leaves alone.
theorem pages_leaves : (pages context timeout warn).Leaves view where
  perform := leaves_pagePerform h hw
  isVisible _ selectors := leaves_bind (leaves_locate? h _ selectors) fun _ => leaves_pure _
  textOf _ _ := leaves_located h fun _ he => he.text
  attributeOf _ _ name := leaves_located h fun _ he => he.attributeOf name
  address index := by
    refine leaves_bind (leaves_livePage h index) fun live => ?_
    cases live with
    | none => exact leaves_pure _
    | some page => exact leaves_bind (leaves_lift (h.address page)) fun _ => leaves_pure _

end

section

variable {launcher : Launcher σ} (h : launcher.Leaves view)
include h

theorem leaves_change (f : Sessions → Sessions) : Leaves view (change launcher f) :=
  leaves_bind (leaves_lift h.sessions) fun _ => leaves_lift (h.keep _)

theorem leaves_shutDown (browser : Nat) : Leaves view (shutDown launcher browser) :=
  leaves_bind (leaves_map _ (leaves_attempt (h.closeBrowser browser))) fun _ =>
    leaves_map _ (leaves_attempt (h.stop browser))

theorem leaves_closeSession (key : String) : Leaves view (closeSession launcher key) := by
  refine leaves_bind (leaves_lift h.sessions) fun sessions => ?_
  cases sessions.active? key with
  | none => exact leaves_pure _
  | some browser =>
    exact leaves_bind (leaves_change h _) fun _ => leaves_shutDown h browser

theorem leaves_startBrowser (headless : Bool) : Leaves view (startBrowser launcher headless) := by
  refine leaves_bind h.start fun browser => ?_
  refine leaves_bind (leaves_attempt (h.launch browser headless)) fun outcome => ?_
  cases outcome with
  | ok _ => exact leaves_pure _
  | error e => exact leaves_bind (h.stop browser) fun _ => leaves_throw _

theorem leaves_openSession (key : String) (headless : Bool) :
    Leaves view (openSession launcher key headless) := by
  refine leaves_bind (leaves_closeSession h key) fun _ => ?_
  refine leaves_bind (leaves_startBrowser h headless) fun browser => ?_
  refine leaves_bind (leaves_attempt (h.openContext browser)) fun outcome => ?_
  cases outcome with
  | ok _ => exact leaves_bind (leaves_change h _) fun _ => leaves_pure _
  | error e => exact leaves_bind (leaves_shutDown h browser) fun _ => leaves_throw _

theorem leaves_enter (key : String) (headless : Bool) :
    Leaves view (enter launcher key headless) := by
  refine leaves_bind (leaves_change h _) fun _ => ?_
  refine leaves_bind (leaves_attempt (leaves_openSession h key headless)) fun outcome => ?_
  cases outcome with
  | ok browser => exact leaves_pure _
  | error e => exact leaves_bind (leaves_change h _) fun _ => leaves_throw _

theorem leaves_leave (key : String) : Leaves view (leave launcher key) :=
  leaves_bind (leaves_closeSession h key) fun _ => leaves_change h _

end

end Gleaner.Browser
