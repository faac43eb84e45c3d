import Gleaner.Catalog.Record

namespace Gleaner

-- All scrapers, routines and executions that are kept, each list in the order of the numbers.
structure Catalog where
  scrapers : List ScraperRecord := []
  routines : List RoutineRecord := []
  executions : List ExecutionRecord := []
deriving Repr

namespace Catalog

-- One more than the greatest number.
def nextId (ids : List Nat) : Nat := ids.foldl max 0 + 1

def scraper? (c : Catalog) (id : Int) : Option ScraperRecord :=
  c.scrapers.find? fun (s : ScraperRecord) => (s.id : Int) == id

def routine? (c : Catalog) (id : Int) : Option RoutineRecord :=
  c.routines.find? fun (r : RoutineRecord) => (r.id : Int) == id

-- The name belongs to a scraper other than the one with some number.
def isNameTaken (c : Catalog) (name : String) (id : Nat) : Bool :=
  c.scrapers.any fun s => s.name == name && s.id != id

-- Adds a scraper under the next number; the names of scrapers differ.
def addScraper (c : Catalog) (s : Scraper) : Except Failure (Catalog × ScraperRecord) := do
  let r ← ScraperRecord.ofScraper (nextId (c.scrapers.map (·.id))) s
  if c.isNameTaken s.name r.id then throw (.sql (.duplicate "scrapers" "name"))
  .ok ({ c with scrapers := c.scrapers ++ [r] }, r)

def putScraper (c : Catalog) (r : ScraperRecord) : Catalog :=
  { c with scrapers := c.scrapers.map fun s => if s.id = r.id then r else s }

-- Writes a scraper over the one with its number; the names of scrapers differ.
def replaceScraper (c : Catalog) (r : ScraperRecord) : Except Failure (Catalog × Unit) := do
  if c.isNameTaken r.name r.id then throw (.sql (.duplicate "scrapers" "name"))
  .ok (c.putScraper r, ())

-- The routines of a scraper go with it, its executions stay.
def removeScraper (c : Catalog) (id : Nat) : Catalog :=
  { c with
    scrapers := c.scrapers.filter (·.id != id)
    routines := c.routines.filter (·.scraperId != id) }

def addRoutine (c : Catalog) (r : RoutineRecord) : Catalog × RoutineRecord :=
  let r := { r with id := nextId (c.routines.map (·.id)) }
  ({ c with routines := c.routines ++ [r] }, r)

def putRoutine (c : Catalog) (r : RoutineRecord) : Catalog :=
  { c with routines := c.routines.map fun s => if s.id = r.id then r else s }

def removeRoutine (c : Catalog) (id : Nat) : Catalog :=
  { c with routines := c.routines.filter (·.id != id) }

def addExecution (c : Catalog) (e : ExecutionRecord) : Catalog × ExecutionRecord :=
  let e := { e with id := nextId (c.executions.map (·.id)) }
  ({ c with executions := c.executions ++ [e] }, e)

def view (c : Catalog) (r : RoutineRecord) : Except Failure RoutineView :=
  r.view (((c.scraper? r.scraperId).map (·.name)).getD "")

-- The routines in the order of their last change, the latest first.
def recentRoutines (c : Catalog) : List RoutineRecord :=
  c.routines.mergeSort fun a b =>
    a.updatedAt > b.updatedAt || (a.updatedAt == b.updatedAt && a.id ≥ b.id)

private def runsBy (now : Int) (r : RoutineRecord) : Bool :=
  r.status == Status.active.name && r.nextRunAt.any (· ≤ now)

-- The active routines whose next run is not later than some time, the earliest first.
def dueRoutines (c : Catalog) (now : Int) : List RoutineRecord :=
  (c.routines.filter (runsBy now)).mergeSort fun a b => a.nextRunAt.getD 0 ≤ b.nextRunAt.getD 0

-- The executions of a scraper, the latest first.
def executionsOf (c : Catalog) (scraperId : Nat) : List ExecutionRecord :=
  (c.executions.filter (·.scraperId == scraperId)).reverse

end Catalog

end Gleaner
