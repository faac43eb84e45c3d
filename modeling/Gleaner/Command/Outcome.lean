import Gleaner.Failure

namespace Gleaner

-- What a command leaves behind: its status, what it prints, what it finds wrong with its input,
-- and a failure it does not deal with.
structure Outcome where
  exit : Nat
  stdout : String := ""
  stderr : String := ""
  issues : List Validation.Issue := []
  unhandled : Option Failure := none

namespace Outcome

def printed (text : String) : Outcome := { exit := 0, stdout := text ++ "\n" }

def refused (issues : List Validation.Issue) : Outcome := { exit := 1, issues }

def reported (exit : Nat) (text : String) : Outcome := { exit, stderr := text ++ "\n" }

def raised (e : Failure) : Outcome := { exit := 1, unhandled := some e }

end Outcome

end Gleaner
