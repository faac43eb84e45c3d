import Gleaner.Value

-- A rehearsal runs scrapers against pages, a browser and a store that follow a script. All they
-- do is noted, and only they make time go by.
namespace Gleaner.Rehearsal

-- Whole seconds pass; the start is in milliseconds since 1970.
structure Clock where
  start : Int := 1000
  seconds : Int := 0
  costs : List (String × Int) := []
deriving Repr

namespace Clock

def now (c : Clock) : Int := c.start + c.seconds * 1000

-- A call takes a second unless its kind has a cost of its own.
def spend (c : Clock) (kind : String) : Clock :=
  { c with seconds := c.seconds + ((c.costs.find? (·.1 == kind)).map (·.2)).getD 1 }

end Clock

-- An element that pages show. What it says may change from reading to reading.
structure Element where
  selectors : Value
  page : Option Nat := none
  visible : List Bool := []
  texts : List (Option String) := []
  attributes : List (String × Option String) := []
  target : Option String := none
  fault : Option String := none
deriving Repr, Inhabited

-- The next of some readings; the last one stays.
def nextReading {α : Type} (default : α) : List α → α × List α
  | [] => (default, [])
  | [a] => (a, [a])
  | a :: rest => (a, rest)

mutual

-- Whether two values are the same data: the order of fields does not count.
def sameData : Value → Value → Bool
  | .list as, .list bs => sameItems as bs
  | .object as, .object bs => as.length == bs.length && sameFields as bs
  | a, b => a == b

def sameItems : List Value → List Value → Bool
  | [], [] => true
  | a :: as, b :: bs => sameData a b && sameItems as bs
  | _, _ => false

def sameFields : List (String × Value) → List (String × Value) → Bool
  | [], _ => true
  | (k, a) :: as, bs =>
    (match Fields.get? bs k with
      | some b => sameData a b
      | none => false) && sameFields as bs

end

def Element.answers (e : Element) (selectors : Value) (page : Nat) : Bool :=
  sameData e.selectors selectors && e.page.all (· == page)

-- What a call that is counted does to the run.
inductive Signal
  | cancel
  | pause
  | resume
  | pauseThenCancel
deriving DecidableEq, Repr

end Gleaner.Rehearsal
