import Gleaner.Command.Outcome
import Gleaner.Text.Basic
import Gleaner.Where.Compile
import Gleaner.Where.Filter

-- The command that prints the SQL of a filter written as JSON.
namespace Gleaner.PrintFilter

-- The SQL of the filter in a text, which is checked first if that is asked for.
def compile (validate : Bool) (text : String) : Except Failure String := do
  let text := String.ofList (Text.unifyNewlines text.toList)
  let raw ← (Json.load text).mapError (.json text)
  let raw ← if validate then
      match Filter.check raw with
      | .valid f => pure f.mapping
      | .invalid issues => .error (.invalid issues)
    else pure raw
  (Where.compile raw).mapError .filter

-- Only filters that are refused are reported; every other failure is left unhandled.
def run (validate : Bool) (text : String) : Outcome :=
  match compile validate text with
  | .ok sql => .printed sql
  | .error (.invalid issues) => .refused issues
  | .error e => if e.kind = "WhereSchemaError" then .reported 1 e.text else .raised e

end Gleaner.PrintFilter
