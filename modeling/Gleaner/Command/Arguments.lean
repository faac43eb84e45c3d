import Gleaner.Command.Outcome
import Gleaner.Number.Integer
import Gleaner.Text.Basic
import Gleaner.Value.Display

namespace Gleaner.ExecuteScraper

-- What is wrong with the way the command is called.
inductive UsageError
  | missingScraper
  | notInteger (text : String)
  | extra (arguments : List String)
  | noOption (name : String)
  | noArgument (option : String)
  | noValueTaken (option : String)
deriving DecidableEq, Repr

namespace UsageError

def message : UsageError → String
  | missingScraper => "Missing argument 'SCRAPER_ID'."
  | notInteger text => "Invalid value for 'SCRAPER_ID': " ++ Text.quoted text ++
      " is not a valid integer."
  | extra [a] => "Got unexpected extra argument (" ++ a ++ ")"
  | extra arguments => "Got unexpected extra arguments (" ++ Value.joined " " arguments ++ ")"
  | noOption name => "No such option: " ++ name
  | noArgument option => "Option '" ++ option ++ "' requires an argument."
  | noValueTaken option => "Option '" ++ option ++ "' does not take a value."

end UsageError

-- The words of a call, sorted.
structure Arguments where
  positional : List String := []
  iterator : Option String := none
  output : Option String := none
  headless : Bool := true
deriving DecidableEq, Repr

namespace Arguments

private def nameAndValue (word : String) : String × Option String :=
  let (name, value) := Text.cut '=' word.toList
  (String.ofList name, value.map String.ofList)

private def withValue (a : Arguments) (name value : String) : Arguments :=
  if name = "--iterator" then { a with iterator := some value } else { a with output := some value }

-- Reads the words of a call. Behind two hyphens everything is positional.
def read (a : Arguments) : List String → Except UsageError Arguments
  | [] => .ok a
  | word :: rest =>
    let (name, value) := nameAndValue word
    if word = "--" then .ok { a with positional := a.positional ++ rest }
    else if name = "--headless" ∨ name = "--no-headless" then
      if value.isSome then .error (.noValueTaken name)
      else read { a with headless := name = "--headless" } rest
    else if name = "--iterator" ∨ name = "--output" then
      match value with
      | some v => read (a.withValue name v) rest
      | none =>
        match rest with
        | v :: more => read (a.withValue name v) more
        | [] => .error (.noArgument name)
    else if word.startsWith "-" && word ≠ "-" then
      .error (.noOption (if word.startsWith "--" then name else String.ofList (word.toList.take 2)))
    else read { a with positional := a.positional ++ [word] } rest

def scraperId (a : Arguments) : Except UsageError Int :=
  match a.positional with
  | [] => .error .missingScraper
  | id :: rest =>
    match Integer.read id with
    | .error _ => .error (.notInteger id)
    | .ok n => if rest.isEmpty then .ok n else .error (.extra rest)

end Arguments

-- The lines of a box as wide as the terminal, with a message in it.
private def boxed (message : String) : String :=
  let line (n : Nat) := String.ofList (List.replicate n '─')
  "╭─ Error " ++ line 70 ++ "╮\n│ " ++ message ++
    String.ofList (List.replicate (76 - message.length) ' ') ++ " │\n╰" ++ line 78 ++ "╯"

-- A call that cannot be understood ends with the usage of the command.
def usage (e : UsageError) : Outcome :=
  .reported 2 ("Usage: launch [OPTIONS] SCRAPER_ID\nTry 'launch --help' for help.\n" ++
    boxed e.message)

end Gleaner.ExecuteScraper
