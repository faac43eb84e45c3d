import Gleaner.Command.Arguments
import Gleaner.Command.ExecuteScraper
import Gleaner.Command.PrintFilter
import Gleaner.Rehearsal.Service

-- The command line.
namespace Gleaner.CommandLine

def issueLine (i : Validation.Issue) : String :=
  Json.write none (.list (i.path.map Validation.Step.value)) ++ " " ++ i.cause.message

-- Prints what a command leaves behind and gives its status.
def finish (o : Outcome) : IO UInt32 := do
  IO.print o.stdout
  IO.eprint o.stderr
  for i in o.issues do IO.eprintln (issueLine i)
  if let some e := o.unhandled then IO.eprintln (e.kind ++ ": " ++ e.message)
  return UInt32.ofNat o.exit

-- `where FILE [--no-validate]`
def printFilter (file : String) (options : List String) : IO UInt32 := do
  finish (PrintFilter.run (!options.contains "--no-validate") (← IO.FS.readFile file))

-- The scrapers of a file, under the numbers 1, 2 and so on.
def readCatalog (text : String) : Except Failure Catalog := do
  let raw ← (Json.load text).mapError (.json text)
  let scrapers ← ofChecked (Validation.items Scraper.check raw)
  scrapers.foldlM (fun c s => (c.addScraper s).map (·.1)) {}

-- `execute FILE SCRAPER_ID [OPTIONS]` runs a scraper of a file of scrapers in a rehearsal whose
-- pages show nothing.
def execute (file : String) (words : List String) : IO UInt32 := do
  let arguments := do
    let a ← ExecuteScraper.Arguments.read {} words
    pure (← a.scraperId, a)
  match arguments, readCatalog (← IO.FS.readFile file) with
  | .error e, _ => finish (ExecuteScraper.usage e)
  | _, .error e => finish (ExecuteScraper.ofFailure e)
  | .ok (scraperId, a), .ok catalog => do
    let iterator ← a.iterator.mapM fun path => IO.FS.readFile path
    let options : ExecuteScraper.Options :=
      { scraperId, iterator, output := a.output, headless := a.headless }
    let ((outcome, text), _) :=
      ExecuteScraper.run (Rehearsal.resources {}) options { catalog }
    if let some path := a.output then
      if let some text := text then IO.FS.writeFile path text
    finish outcome

def usage : String := "Usage: gleaner where FILE [--no-validate]\n" ++
  "       gleaner execute FILE SCRAPER_ID [OPTIONS]"

end Gleaner.CommandLine

def main (arguments : List String) : IO UInt32 := do
  match arguments with
  | "where" :: file :: options => Gleaner.CommandLine.printFilter file options
  | "execute" :: file :: words => Gleaner.CommandLine.execute file words
  | _ => do
    IO.eprintln Gleaner.CommandLine.usage
    return 2
