import Gleaner.Failure
import Gleaner.Run.Environment
import Gleaner.Script.Selector

namespace Gleaner.Browser

-- What is run inside a page.
inductive PageScript
  | scrollToTop
  | scrollToBottom
  | call (code : String) (arguments : List (Option String))
deriving DecidableEq, Repr

-- The text of a function that hands a list of arguments over to some code.
def callText (code : String) : String := "(args) => (" ++ code ++ ")(...args)"

-- An element that was found on a page.
structure FoundElement (σ : Type) where
  click : Effect σ Unit
  fill : String → Effect σ Unit
  type : String → Effect σ Unit
  press : String → Effect σ Unit
  scrollIntoView : Effect σ Unit
  text : Effect σ (Option String)
  attributeOf : String → Effect σ (Option String)

-- The pages of one browser window, by the number of their opening, and the note which of them
-- belongs to which index of a script. Times are in milliseconds.
structure Context (σ : Type) where
  openPages : StateM σ (List Nat)
  address : Nat → StateM σ String
  isClosed : Nat → StateM σ Bool
  openPage : Effect σ Nat
  limitNavigation : Nat → Int → Effect σ Unit
  navigate : Nat → String → Int → Effect σ Unit
  evaluate : Nat → PageScript → Effect σ Unit
  -- The only visible element that answers to some selectors.
  locate : Nat → Selectors → Effect σ (Option (FoundElement σ))
  -- Gives up what a search without a result has left behind.
  dispose : Nat → Effect σ Unit
  wait : Nat → Nat → Effect σ Unit
  waitUntilIdle : Nat → Nat → Effect σ Unit
  closePage : Nat → Effect σ Unit
  assigned : StateM σ (List (Nat × Nat))
  assign : List (Nat × Nat) → StateM σ Unit

def emptyAddress : String := "about:blank"

-- How long to wait for a page to become idle.
def idleTimeout : Nat := 20000

def lateNavigation : String := "Timed out while waiting for navigation"

def noElement : Failure :=
  .noElement "Expected a single element to be found. Found no element matching the condition"

-- Pages by the index a script gives them.
def assignedTo? (pages : List (Nat × Nat)) (index : Nat) : Option Nat :=
  (pages.find? (·.1 == index)).map (·.2)

-- The page of an index, in the place of the one before.
def reassigned (index page : Nat) : List (Nat × Nat) → List (Nat × Nat)
  | [] => [(index, page)]
  | (i, p) :: rest =>
    if i = index then (index, page) :: rest else (i, p) :: reassigned index page rest

section

variable {σ : Type} (context : Context σ) (timeout : Int) (warn : String → StateM σ Unit)

def livePage? (index : Nat) : Effect σ (Option Nat) := do
  match assignedTo? (← context.assigned) index with
  | none => return none
  | some page => return if ← context.isClosed page then none else some page

-- The first index takes over the page that is there from the start, unless that has been used.
def takenOver? (index : Nat) : Effect σ (Option Nat) := do
  match ← context.openPages with
  | page :: _ =>
    return if index = 0 && (← context.address page) = emptyAddress then some page else none
  | [] => return none

-- The page of an index. It is opened when it is needed first or has been closed.
def page (index : Nat) : Effect σ Nat := do
  match ← livePage? context index with
  | some page => return page
  | none => do
    let page ← match ← takenOver? context index with
      | some page => pure page
      | none => context.openPage
    context.limitNavigation page timeout
    context.assign (reassigned index page (← context.assigned))
    return page

def locate? (index : Nat) (selectors : Selectors) : Effect σ (Option (FoundElement σ)) := do
  let page ← page context timeout index
  match ← context.locate page selectors with
  | some element => return some element
  | none => do
    context.dispose page
    return none

def locate (index : Nat) (selectors : Selectors) : Effect σ (FoundElement σ) := do
  match ← locate? context timeout index selectors with
  | some element => return element
  | none => throw noElement

-- A page that does not become idle in time is no failure.
def waitForNavigation (page : Nat) : Effect σ Unit := do
  match ← (context.waitUntilIdle page idleTimeout).attempt with
  | .error (.timeout _) => warn lateNavigation
  | .error e => throw e
  | .ok () => return

def typeInto (element : FoundElement σ) (value : Option String) (clears enters : Bool) :
    Effect σ Unit := do
  if clears then element.fill ""
  if let some text := value then
    if text ≠ "" then element.type text
  if enters then element.press "Enter"

def perform (index : Nat) (action : Action) (value : Option String)
    (arguments : List (Option String)) : Effect σ Unit := do
  let page ← page context timeout index
  match action with
  | .wait duration => context.wait page duration
  | .navigate address => context.navigate page address timeout
  | .click selectors waits => do
    let element ← locate context timeout index selectors
    element.click
    if waits then waitForNavigation context warn page
  | .type selectors _ clears enters waits => do
    let element ← locate context timeout index selectors
    typeInto element value clears enters
    if waits then waitForNavigation context warn page
  | .scrollToTop => context.evaluate page .scrollToTop
  | .scrollToBottom => context.evaluate page .scrollToBottom
  | .scrollToElement selectors => do
    let element ← locate context timeout index selectors
    element.scrollIntoView
  | .evaluate code _ => context.evaluate page (.call code arguments)

def addressOf (index : Nat) : Effect σ (Option String) := do
  match ← livePage? context index with
  | some page => return some (← context.address page)
  | none => return none

-- The pages of a browser as a run needs them.
def pages : Pages σ where
  perform := perform context timeout warn
  isVisible index selectors := do
    let element ← locate? context timeout index selectors
    return element.isSome
  textOf index selectors := do
    let element ← locate context timeout index selectors
    element.text
  attributeOf index selectors name := do
    let element ← locate context timeout index selectors
    element.attributeOf name
  address := addressOf context

def closeAll : List (Nat × Nat) → Effect σ Unit
  | [] => return
  | (_, page) :: rest => do
    if !(← context.isClosed page) then context.closePage page
    closeAll rest

-- Closes the pages that were used.
def close : Effect σ Unit := do
  closeAll context (← context.assigned)
  context.assign []

end

end Gleaner.Browser
