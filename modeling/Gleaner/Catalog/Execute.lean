import Gleaner.Catalog.Catalog
import Gleaner.Run.Execution

namespace Gleaner

-- Where a catalog is kept while work is done.
structure Keeper (σ : Type) where
  catalog : StateM σ Catalog
  keep : Catalog → StateM σ Unit

namespace Keeper

variable {σ α : Type} (keeper : Keeper σ)

-- Changes the catalog; a change that fails leaves it as it was.
def change (f : Catalog → Except Failure (Catalog × α)) : Effect σ α := do
  match f (← keeper.catalog) with
  | .ok (c, a) => do
    keeper.keep c
    return a
  | .error e => throw e

def putRoutine (r : RoutineRecord) : Effect σ Unit := do
  keeper.keep ((← keeper.catalog).putRoutine r)

end Keeper

namespace RoutineRecord

-- The status after a run: a routine that ran although it was paused stays paused.
def statusAfter (previous : String) : String :=
  if previous = Status.executing.name then Status.active.name else previous

-- Counts a run. Too many failed runs in a row pause the routine.
def countRun (r : RoutineRecord) (failed : Bool) : RoutineRecord :=
  let r := { r with runs := r.runs + 1, status := statusAfter r.status }
  if failed then
    let r := { r with failures := r.failures + 1 }
    if r.failureLimit.any (· ≤ r.failures) then r.withStatus .pausedByFailures else r
  else { r with failures := 0 }

-- The routine after a run. Its next run comes after the time the run ended.
def finish (r : RoutineRecord) (failed : Bool) (startedAt finishedAt : Int) :
    Except Failure RoutineRecord :=
  { r.countRun failed with lastRunAt := some startedAt, updatedAt := finishedAt }.reschedule
    finishedAt

-- What is written to the log when too many runs have failed.
def pauseWarning? (r : RoutineRecord) (failed : Bool) : Option String :=
  if failed && r.failureLimit.any (· ≤ r.failures + 1) then
    some ("Pausing routine " ++ toString r.id ++ " after " ++ toString (r.failures + 1) ++
      " failed executions")
  else none

end RoutineRecord

def runsJson : List IterationRecord → Except Failure (List Value)
  | [] => .ok []
  | r :: rest => do
    let v ← r.document.json
    .ok (v :: (← runsJson rest))

section

variable {σ : Type} (host : Host σ) (keeper : Keeper σ) (limit : Option Int)

-- Runs what a routine asks for.
def runRoutine (scraper : ScraperRecord) (r : RoutineRecord) :
    Effect σ (List IterationRecord) := do
  let scraper ← Effect.ofExcept id scraper.scraper
  let iterator ← Effect.ofExcept id (restoreIterator r.iterator)
  host.execute limit scraper.instructions iterator

private def clock : Effect σ Int := host.unbound.now

-- Keeps what has been run and the routine as it is now.
def finishRoutine (r : RoutineRecord) (iterations : List IterationRecord)
    (startedAt : Int) (now : Option Int) : Effect σ ExecutionRecord := do
  let failed := iterations.any (·.failed)
  let stored ← Effect.ofExcept id (runsJson iterations)
  if let some message := r.pauseWarning? failed then host.unbound.warn message
  let present ← clock host
  let finishedAt := if now.isNone then max present startedAt else startedAt
  match DateTime.ofEpochMillis? present with
  | none => throw .beyondCalendar
  | some createdAt =>
    keeper.change fun c => do
      let finished ← r.finish failed startedAt finishedAt
      let createdAt := { createdAt with offset := none }
      .ok ((c.putRoutine finished).addExecution
        ⟨0, r.scraperId, r.id, r.iterator, stored, createdAt⟩)

-- Executes a routine. It counts as executing meanwhile, and has its status back if there is nothing
-- to show for it. A time that is given stands for the start and the end.
def executeRoutine (r : RoutineRecord) (now : Option Int) : Effect σ ExecutionRecord := do
  match (← keeper.catalog).scraper? r.scraperId with
  | none => throw (.noScraper r.id)
  | some scraper => do
    let startedAt := now.getD (← clock host)
    keeper.putRoutine (r.withStatus .executing)
    match ← (runRoutine host limit scraper r).attempt with
    | .error e => do
      keeper.putRoutine r
      throw e
    | .ok iterations => finishRoutine host keeper r iterations startedAt now

end

end Gleaner
