import Gleaner.Command.Outcome
import Gleaner.Log
import Gleaner.Service.Endpoints
import Gleaner.Text.Basic

-- The command that runs a stored scraper and prints the record of every run.
namespace Gleaner.ExecuteScraper

-- What the command is called with. The iterator is the text of a file.
structure Options where
  scraperId : Int
  iterator : Option String := none
  output : Option String := none
  headless : Bool := true
deriving Repr

def readIterator : Option String → Except Failure (Option ExecutionIterator)
  | none => .ok none
  | some text => do
    let text := String.ofList (Text.unifyNewlines text.toList)
    let raw ← (Json.load text).mapError (.json text)
    some <$> ofChecked (ExecutionIterator.check raw)

section

variable {σ : Type} (res : Service.Resources σ)

def storedScraper (id : Int) : Effect σ ScraperRecord := do
  if !Sql.fitsInteger id then throw (.sql .oversized)
  match (← res.keeper.catalog).scraper? id with
  | some r => return r
  | none => throw (.scraperNotFound id)

def sessionKey (id : Int) : String := "cli-scraper-" ++ toString id

-- Runs the scraper in a browser of its own.
def work (o : Options) : Effect σ (List IterationRecord) := do
  let iterator ← Effect.ofExcept id (readIterator o.iterator)
  let record ← storedScraper res o.scraperId
  let scraper ← Effect.ofExcept id record.scraper
  Browser.within res.launcher (sessionKey o.scraperId) o.headless fun browser =>
    Host.execute ⟨res.warehouse record.tables, res.environment (res.pages browser)⟩
      res.settings.stepLimit scraper.instructions iterator

def traceText (runs : List IterationRecord) : String :=
  Json.write (some 2) (.list (runs.map fun r => r.document.toValue .full))

-- A failure that is the caller's is told apart from one of the run.
def ofFailure : Failure → Outcome
  | .invalid issues => .refused issues
  | .scraperNotFound id => .reported 1 (Failure.scraperNotFound id).text
  | .unknownSource name => .reported 1 (Failure.unknownSource name).text
  | .noElement message => .reported 1 message
  | e => .reported 2 ("Execution failed: " ++ e.text)

-- What is printed after the runs, and what is written to a file.
def report (o : Options) (runs : List IterationRecord) : Outcome × Option String :=
  let text := traceText runs
  let exit := if runs.any (·.failed) then 3 else 0
  match o.output with
  | some path => ({ exit, stdout := "Trace saved to " ++ path ++ "\n" }, some (text ++ "\n"))
  | none => ({ exit, stdout := text ++ "\n" }, none)

-- The outcome of the command and the text of its output file.
def run (o : Options) : StateM σ (Outcome × Option String) := do
  if (Log.threshold? res.settings.logLevel).isNone then
    return (.raised (.logLevel res.settings.logLevel), none)
  match ← (work res o).run with
  | .ok runs => return report o runs
  | .error e => return (ofFailure e, none)

end

end Gleaner.ExecuteScraper
