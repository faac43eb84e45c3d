import Gleaner.Browser.Session
import Gleaner.Catalog.Catalog
import Gleaner.Rehearsal.Script
import Gleaner.Run.Environment
import Gleaner.Sql.Table

namespace Gleaner.Rehearsal

-- A page of a browser and where it is.
structure Tab where
  address : String
  closed : Bool := false
deriving Repr

-- The window of a browser, by its number, and which index of a script each page belongs to.
structure Window where
  browser : Nat
  tabs : List Tab := []
  assigned : List (Nat × Nat) := []
deriving Repr

-- The state of a rehearsal.
structure World where
  clock : Clock := {}
  elements : List Element := []
  pageFaults : List (String × String) := []
  addresses : List (Nat × Option String) := []
  firstPages : List String := ["about:blank"]
  windows : List Window := []
  started : Nat := 0
  sessions : Browser.Sessions := {}
  calls : Array Value := #[]
  values : List (String × Value) := []
  rows : List (String × List Row) := []
  storeFaults : List (String × String) := []
  storeCalls : Array Value := #[]
  warnings : Array String := #[]
  drawn : Nat := 0
  control : Control := {}
  cancelsPaused : Bool := false
  signals : List (Nat × Signal) := []
  performed : Nat := 0
  pauses : Array Nat := #[]
  database : Sql.Database := ⟨[]⟩
  statements : Array (String × List Value) := #[]
  catalog : Catalog := {}

def alphabet : Array Char :=
  "abcdefghijklmnopqrstuvwxyzABCDEFGHIJKLMNOPQRSTUVWXYZ0123456789".toList.toArray

namespace World

def now : StateM World Int := return (← get).clock.now

-- A whole number of seconds, or none where that is too large for a number.
def wholeSeconds (n : Int) : Seconds :=
  if h : (Binary64.ofInt n).isFinite = true then ⟨.ofInt n, h⟩ else ⟨.zero, rfl⟩

def timer : StateM World Seconds := return wholeSeconds (← get).clock.seconds

def warn (message : String) : StateM World Unit :=
  modify fun w => { w with warnings := w.warnings.push message }

-- Characters are drawn in the order of the alphabet.
def draw : StateM World Char := do
  let n := (← get).drawn
  modify fun w => { w with drawn := n + 1 }
  return (alphabet[n % alphabet.size]?).getD 'a'

-- Every call of the page takes its time and is noted.
def note (kind : String) (call : List Value) : StateM World Unit :=
  modify fun w =>
    { w with clock := w.clock.spend kind, calls := w.calls.push (.list (.text kind :: call)) }

def faultOf (faults : List (String × String)) (kind : String) : Effect World Unit :=
  match faults.find? (·.1 == kind) with
  | some (_, message) => throw (if message = "<timeout>" then .timeout "timeout" else .fault message)
  | none => pure ()

def setElement (i : Nat) (e : Element) : StateM World Unit :=
  modify fun w => { w with elements := w.elements.set i e }

-- The first element that answers to some selectors on a page.
def find (selectors : Value) (page : Nat) : Effect World (Option (Nat × Element)) := do
  match (← get).elements.zipIdx.find? (·.1.answers selectors page) with
  | none => return none
  | some (e, i) =>
    if let some message := e.fault then throw (.fault message)
    return some (i, e)

def readVisible (i : Nat) (e : Element) : StateM World Bool := do
  let (visible, rest) := nextReading true e.visible
  setElement i { e with visible := rest }
  return visible

def readText (i : Nat) (e : Element) : StateM World (Option String) := do
  let (text, rest) := nextReading none e.texts
  setElement i { e with texts := rest }
  return text

-- A paused run is resumed at once, or cancelled where that is asked for.
def await (entries : Nat) : StateM World Unit :=
  modify fun w =>
    { w with
      pauses := w.pauses.push entries
      control := if w.cancelsPaused then w.control.cancel else w.control.resume }

def signal (s : Signal) : StateM World Unit :=
  modify fun w =>
    match s with
    | .cancel => { w with control := w.control.cancel }
    | .pause => { w with control := w.control.pause }
    | .resume => { w with control := w.control.resume }
    | .pauseThenCancel => { w with control := w.control.pause, cancelsPaused := true }

end World

-- The environment of a rehearsal over some pages and a store.
def environment (pages : Pages World) (store : DataStore World) : Environment World where
  pages := pages
  store := store
  now := World.now
  timer := World.timer
  draw := World.draw
  warn := World.warn
  control := return (← get).control
  setControl := fun control => modify fun w => { w with control }
  await := World.await
  patience := patience

end Gleaner.Rehearsal
