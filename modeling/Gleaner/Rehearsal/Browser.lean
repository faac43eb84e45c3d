import Gleaner.Browser.Pages
import Gleaner.Browser.Session
import Gleaner.Rehearsal.World

namespace Gleaner.Rehearsal

open World

-- A browser whose pages show the elements of a rehearsal. All it is told is noted.
namespace Browser

def window? (browser : Nat) : StateM World (Option Window) :=
  return (← get).windows.find? (·.browser == browser)

def windowOf (browser : Nat) : StateM World Window :=
  return (← window? browser).getD { browser }

def setWindow (window : Window) : StateM World Unit :=
  modify fun w =>
    { w with windows := window :: w.windows.filter (·.browser != window.browser) }

def tabOf (browser page : Nat) : StateM World Tab :=
  return ((← windowOf browser).tabs[page]?).getD { address := "" }

def changeTab (browser page : Nat) (f : Tab → Tab) : StateM World Unit := do
  let window ← windowOf browser
  setWindow { window with tabs := window.tabs.modify page f }

-- A call is noted before anything can go wrong.
def tell (kind : String) (call : List Value) : Effect World Unit := do
  note kind call
  faultOf (← get).pageFaults kind

def openPages (browser : Nat) : StateM World (List Nat) := do
  let tabs := (← windowOf browser).tabs
  return (List.range tabs.length).filter fun i => tabs[i]?.any (!·.closed)

def openPage (browser : Nat) : Effect World Nat := do
  tell "newPage" []
  let window ← windowOf browser
  setWindow { window with tabs := window.tabs ++ [{ address := "about:blank" }] }
  return window.tabs.length

def goto (browser page : Nat) (address : String) : StateM World Unit :=
  changeTab browser page ({ · with address })

def elementOf (browser page i : Nat) (e : Element) : Gleaner.Browser.FoundElement World where
  click := do
    tell "click" [.int page]
    if let some target := e.target then goto browser page target
  fill text := tell "fill" [.int page, .text text]
  type text := tell "type" [.int page, .text text]
  press key := tell "press" [.int page, .text key]
  scrollIntoView := tell "scrollIntoView" [.int page]
  text := do
    tell "textContent" [.int page]
    readText i (((← get).elements[i]?).getD e)
  attributeOf name := do
    tell "getAttribute" [.int page, .text name]
    return ((e.attributes.find? (·.1 == name)).bind (·.2))

def locate (browser page : Nat) (selectors : Selectors) :
    Effect World (Option (Gleaner.Browser.FoundElement World)) := do
  tell "evaluateHandle" [.int page, .text "<locate>", selectors.wire]
  match ← find selectors.wire page with
  | none => return none
  | some (i, e) => return if ← readVisible i e then some (elementOf browser page i e) else none

def evaluate (page : Nat) : Gleaner.Browser.PageScript → Effect World Unit
  | .scrollToTop => tell "evaluate" [.int page, .text "<scrollToTop>", .null]
  | .scrollToBottom => tell "evaluate" [.int page, .text "<scrollToBottom>", .null]
  | .call code arguments =>
    tell "evaluate" [.int page, .text (Gleaner.Browser.callText code),
      .list (arguments.map .ofText?)]

def closePage (browser page : Nat) : Effect World Unit := do
  tell "closePage" [.int page]
  changeTab browser page ({ · with closed := true })

def context (browser : Nat) : Gleaner.Browser.Context World where
  openPages := openPages browser
  address page := return (← tabOf browser page).address
  isClosed page := return (← tabOf browser page).closed
  openPage := openPage browser
  limitNavigation page timeout := tell "setTimeout" [.int page, .int timeout]
  navigate page address timeout := do
    tell "goto" [.int page, .text address, .text "networkidle", .int timeout]
    goto browser page address
  evaluate := evaluate
  locate := locate browser
  dispose page := tell "dispose" [.int page]
  wait page duration := tell "waitForTimeout" [.int page, .int duration]
  waitUntilIdle page timeout :=
    tell "waitForLoadState" [.int page, .text "networkidle", .int timeout]
  closePage := closePage browser
  assigned := return (← windowOf browser).assigned
  assign pages := do setWindow { (← windowOf browser) with assigned := pages }

-- Opens the window of a browser on the pages that are there from the start.
def openWindow (browser : Nat) : StateM World Unit := do
  let tabs := (← get).firstPages.map fun address => ({ address } : Tab)
  setWindow { browser, tabs }

def start : Effect World Nat := do
  let browser := (← get).started + 1
  modify fun w => { w with started := browser }
  tell "start" [.int browser]
  return browser

def launcher : Gleaner.Browser.Launcher World where
  start := start
  launch browser headless := tell "launch" [.int browser, .bool headless]
  openContext browser := do
    tell "newContext" [.int browser]
    openWindow browser
  closeBrowser browser := tell "closeBrowser" [.int browser]
  stop browser := tell "stop" [.int browser]
  sessions := return (← get).sessions
  keep sessions := modify fun w => { w with sessions }

end Browser

-- The pages of a browser of a rehearsal.
def browserPages (browser : Nat) (timeout : Int) : Pages World :=
  Gleaner.Browser.pages (Browser.context browser) timeout World.warn

end Gleaner.Rehearsal
