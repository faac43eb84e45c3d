import Gleaner.Iteration.Context
import Gleaner.Routine.Definition
import Gleaner.Routine.NextRun
import Gleaner.Script.Scraper
import Gleaner.Sql.Cell
import Gleaner.Trace.Iteration

namespace Gleaner

-- A document as the JSON it is kept as. An instant outside the calendar cannot be kept.
def Document.json (d : Document) : Except Failure Value :=
  match Json.encode? (d.toValue .stored) with
  | some v => .ok v
  | none => .error .beyondCalendar

-- What some kept JSON stands for.
def restore (v : Value) : Except Failure Value :=
  (Json.decode v).mapError fun e => .json "" (.refused e)

def ofChecked {α : Type} : Validation.Checked α → Except Failure α
  | .valid a => .ok a
  | .invalid issues => .error (.invalid issues)

-- A scraper as it is kept under its number.
structure ScraperRecord where
  id : Nat
  name : String
  instructions : Value
  dataSources : Value
deriving Repr

namespace ScraperRecord

def ofScraper (id : Nat) (s : Scraper) : Except Failure ScraperRecord := do
  let instructions ← (Document.list (Instruction.documents s.instructions)).json
  let dataSources ← (Document.list (s.dataSources.map DataSource.document)).json
  .ok { id, name := s.name, instructions, dataSources }

-- The scraper that is kept; it is checked again.
def scraper (r : ScraperRecord) : Except Failure StoredScraper := do
  let instructions ← restore r.instructions
  ofChecked (StoredScraper.check (.object [("id", .int r.id), ("name", .text r.name),
    ("instructions", instructions), ("dataSources", r.dataSources)]))

private def bound : Value → Option (String × String)
  | .object fields =>
    match Fields.get? fields "sourceAlias", Fields.get? fields "tableName" with
    | some (.text name), some (.text table) => some (name, table)
    | _, _ => none
  | _ => none

-- The table of each data source; of two with one name the last counts.
def tables (r : ScraperRecord) : List (String × String) :=
  match r.dataSources with
  | .list sources => Fields.ofPairs (sources.filterMap bound)
  | _ => []

end ScraperRecord

-- The iterator that is kept as some JSON, if there is one.
def restoreIterator (v : Value) : Except Failure (Option ExecutionIterator) :=
  if v.isNull then .ok none
  else do
    let v ← restore v
    some <$> ofChecked (ExecutionIterator.check v)

-- A routine as it is kept under its number. Times are in milliseconds since 1970.
structure RoutineRecord where
  id : Nat := 0
  scraperId : Nat := 0
  status : String := Status.active.name
  description : Option String := none
  iterator : Value := .null
  schedule : Value := .null
  failureLimit : Option Int := none
  nextRunAt : Option Int := none
  lastRunAt : Option Int := none
  runs : Int := 0
  failures : Int := 0
  createdAt : Int
  updatedAt : Int := 0
deriving Repr

namespace RoutineRecord

-- The numbers of a routine that are kept outside its schedule and its iterator.
def numbers (r : RoutineRecord) : List Int :=
  [(r.scraperId : Int), r.runs, r.failures, r.createdAt, r.updatedAt] ++
    [r.failureLimit, r.nextRunAt, r.lastRunAt].flatMap Option.toList

-- Numbers that are kept have 64 bits.
def storable (r : RoutineRecord) : Except Failure RoutineRecord :=
  if r.numbers.all Sql.fitsInteger then .ok r else .error (.sql .oversized)

-- The routine with its next run after some time.
def reschedule (r : RoutineRecord) (now : Int) : Except Failure RoutineRecord := do
  let nextRunAt ← nextRunOf (.text r.status) r.schedule now
  { r with nextRunAt }.storable

-- The routine after a draft has been taken over.
def assign (r : RoutineRecord) (draft : RoutineDraft) (now : Int) :
    Except Failure RoutineRecord := do
  let iterator ← draft.iterator.elim (.ok .null) fun it => it.document.json
  { r with
    scraperId := draft.scraperId
    description := draft.description
    iterator
    schedule := draft.schedule.document.toValue .full
    failureLimit := draft.failureLimit.map fun (n : Nat) => n
    updatedAt := now }.reschedule now

def withStatus (r : RoutineRecord) (status : Status) : RoutineRecord :=
  { r with status := status.name }

def isExecuting (r : RoutineRecord) : Bool := r.status == Status.executing.name

private def optionalInt (n : Option Int) : Value := n.elim .null .int

-- The routine as it is shown, with the name of its scraper; it is checked again.
def view (r : RoutineRecord) (scraperName : String) : Except Failure RoutineView := do
  let it ← restoreIterator r.iterator
  ofChecked (RoutineView.check (.object [("id", .int r.id), ("scraperId", .int r.scraperId),
    ("scraperName", .text scraperName),
    ("iterator", it.elim .null fun it => it.document.toValue .stored),
    ("status", .text r.status), ("description", .ofText? r.description),
    ("scheduler", r.schedule),
    ("pauseAfterNumberOfFailedExecutions", optionalInt r.failureLimit),
    ("nextScheduledExecutionAt", optionalInt r.nextRunAt),
    ("lastExecutionAt", optionalInt r.lastRunAt), ("previousExecutionsCount", .int r.runs),
    ("failedExecutionsCount", .int r.failures), ("createdAt", .int r.createdAt),
    ("updatedAt", .int r.updatedAt)]))

end RoutineRecord

-- An execution as it is shown.
structure ExecutionView where
  id : Nat
  scraperId : Nat
  routineId : Nat
  iterator : Option ExecutionIterator
  createdAt : DateTime
  iterations : List IterationRecord
deriving Repr

def ExecutionView.document (e : ExecutionView) : Document :=
  .record [("id", .int e.id), ("scraperId", .int e.scraperId), ("routineId", .int e.routineId),
    ("iterator", .optional ExecutionIterator.document e.iterator),
    ("createdAt", .leaf (.moment e.createdAt)),
    ("iterations", .list (e.iterations.map IterationRecord.document))]

-- The runs of a scraper as they are kept under a number.
structure ExecutionRecord where
  id : Nat
  scraperId : Nat
  routineId : Nat
  iterator : Value
  iterations : List Value
  createdAt : DateTime
deriving Repr

private def restoreRuns : List Value → Except Failure (List IterationRecord)
  | [] => .ok []
  | v :: rest => do
    let r ← ofChecked (IterationRecord.check v)
    .ok (r :: (← restoreRuns rest))

private def restoreAll : List Value → Except Failure (List Value)
  | [] => .ok []
  | v :: rest => do
    let v ← restore v
    .ok (v :: (← restoreAll rest))

def ExecutionRecord.view (e : ExecutionRecord) : Except Failure ExecutionView := do
  let iterator ← restoreIterator e.iterator
  let iterations ← restoreRuns (← restoreAll e.iterations)
  .ok { e with iterator, iterations }

end Gleaner
