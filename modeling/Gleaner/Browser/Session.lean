import Gleaner.Failure
import Gleaner.Value

namespace Gleaner.Browser

-- Which browser works under which key. A key that is held belongs to one piece of work.
structure Sessions where
  active : List (String × Nat) := []
  -- the key of every browser that ever had one
  keys : List (Nat × String) := []
  -- browsers that are no longer listened to
  finished : List Nat := []
  -- browsers whose cleanup is scheduled and has not begun, with their keys
  scheduled : List (Nat × String) := []
  held : List String := []
deriving Repr

namespace Sessions

def active? (s : Sessions) (key : String) : Option Nat :=
  (s.active.find? (·.1 == key)).map (·.2)

def add (s : Sessions) (key : String) (browser : Nat) : Sessions :=
  { s with
    active := s.active.filter (·.1 != key) ++ [(key, browser)]
    keys := (browser, key) :: s.keys }

def remove (s : Sessions) (key : String) : Sessions :=
  { s with active := s.active.filter (·.1 != key) }

-- The key a browser was started for, as long as it is listened to.
def keyOf? (s : Sessions) (browser : Nat) : Option String :=
  if s.finished.contains browser then none else (s.keys.find? (·.1 == browser)).map (·.2)

def finish (s : Sessions) (browser : Nat) : Sessions :=
  { s with finished := browser :: s.finished }

def schedule (s : Sessions) (browser : Nat) (key : String) : Sessions :=
  { s with scheduled := s.scheduled ++ [(browser, key)] }

def scheduledKey? (s : Sessions) (browser : Nat) : Option String :=
  (s.scheduled.find? (·.1 == browser)).map (·.2)

def unschedule (s : Sessions) (browser : Nat) : Sessions :=
  { s with scheduled := s.scheduled.filter (·.1 != browser) }

-- A browser that is gone leaves its key to the one that has taken its place.
def forget (s : Sessions) (key : String) (browser : Nat) : Sessions :=
  if s.active? key = some browser then s.remove key else s

def hold (s : Sessions) (key : String) : Sessions := { s with held := key :: s.held }

def release (s : Sessions) (key : String) : Sessions := { s with held := s.held.erase key }

end Sessions

-- How browsers, by number, are started and stopped.
structure Launcher (σ : Type) where
  start : Effect σ Nat
  launch : Nat → Bool → Effect σ Unit
  openContext : Nat → Effect σ Unit
  closeBrowser : Nat → Effect σ Unit
  stop : Nat → Effect σ Unit
  sessions : StateM σ Sessions
  keep : Sessions → StateM σ Unit

section

variable {σ : Type} (launcher : Launcher σ)

def change (f : Sessions → Sessions) : Effect σ Unit := do
  launcher.keep (f (← launcher.sessions))

-- Nothing that goes wrong while a browser is shut down counts.
def shutDown (browser : Nat) : Effect σ Unit := do
  discard (launcher.closeBrowser browser).attempt
  discard (launcher.stop browser).attempt

def closeSession (key : String) : Effect σ Unit := do
  match (← launcher.sessions).active? key with
  | none => return
  | some browser => do
    change launcher (·.remove key)
    shutDown launcher browser

-- A browser that cannot be launched is stopped again.
def startBrowser (headless : Bool) : Effect σ Nat := do
  let browser ← launcher.start
  match ← (launcher.launch browser headless).attempt with
  | .ok () => return browser
  | .error e => do
    launcher.stop browser
    throw e

-- Opens a browser under a key; one that was open there is closed before.
def openSession (key : String) (headless : Bool) : Effect σ Nat := do
  closeSession launcher key
  let browser ← startBrowser launcher headless
  match ← (launcher.openContext browser).attempt with
  | .ok () => do
    change launcher (·.add key browser)
    return browser
  | .error e => do
    shutDown launcher browser
    throw e

def activeBrowser (key : String) : Effect σ Nat := do
  match (← launcher.sessions).active? key with
  | some browser => return browser
  | none => throw (.noSession key)

def enter (key : String) (headless : Bool) : Effect σ Nat := do
  change launcher (·.hold key)
  match ← (openSession launcher key headless).attempt with
  | .ok browser => return browser
  | .error e => do
    change launcher (·.release key)
    throw e

def leave (key : String) : Effect σ Unit := do
  closeSession launcher key
  change launcher (·.release key)

-- Work with a browser of its own, which is closed however the work ends.
def within {α : Type} (key : String) (headless : Bool) (work : Nat → Effect σ α) :
    Effect σ α := do
  let browser ← enter launcher key headless
  let outcome ← (work browser).attempt
  leave launcher key
  match outcome with
  | .ok a => return a
  | .error e => throw e

def noLoop (key : String) : String :=
  "Unable to schedule cleanup for " ++ key ++ ": no running loop"

-- A browser that disconnects, or whose context closes, has its cleanup scheduled, once. Where
-- nothing can be scheduled this is lost.
def noteGone (warn : String → StateM σ Unit) (browser : Nat) (canSchedule : Bool) :
    Effect σ Unit := do
  match (← launcher.sessions).keyOf? browser with
  | none => return
  | some key => do
    change launcher (·.finish browser)
    if canSchedule then change launcher (·.schedule browser key) else warn (noLoop key)

-- The cleanup of a browser, which runs some time after it was scheduled.
def cleanUp (browser : Nat) : Effect σ Unit := do
  match (← launcher.sessions).scheduledKey? browser with
  | none => return
  | some key => do
    change launcher fun s => (s.unschedule browser).forget key browser
    shutDown launcher browser

-- A browser goes away and nothing else happens until it is cleaned up.
def gone (warn : String → StateM σ Unit) (browser : Nat) (canSchedule : Bool) :
    Effect σ Unit := do
  noteGone launcher warn browser canSchedule
  cleanUp launcher browser

end

end Gleaner.Browser
