import Gleaner.Json.Dates
import Gleaner.Trace.Entry

namespace Gleaner

-- The entries of a run, and listeners that are told the kind of each entry that is added. Nothing
-- is ever taken out or moved.
structure TraceLog where
  entries : Array Entry := #[]
  listeners : List String := []
  received : List (String × List String) := []

namespace TraceLog

-- A listener may be registered more than once and is then told as often.
def subscribe (log : TraceLog) (name : String) : TraceLog :=
  { log with
    listeners := log.listeners ++ [name]
    received := if log.received.any (·.1 == name) then log.received
      else log.received ++ [(name, [])] }

def unsubscribe (log : TraceLog) (name : String) : TraceLog :=
  { log with listeners := log.listeners.filter (· != name) }

def tell (received : List (String × List String)) (name kind : String) :
    List (String × List String) :=
  received.map fun (n, kinds) => (n, if n == name then kinds ++ [kind] else kinds)

def append (log : TraceLog) (e : Entry) : TraceLog :=
  { log with
    entries := log.entries.push e
    received := log.listeners.foldl (fun received name => tell received name e.kind) log.received }

-- The last entry if it ends a run.
def terminal? (entries : Array Entry) : Option Entry := entries.back?.filter Entry.isTerminal

def succeeded (entries : Array Entry) : Bool :=
  match terminal? entries with
  | some (.success _) => true
  | _ => false

def errorMessage? (entries : Array Entry) : Option String :=
  match terminal? entries with
  | some (.error message _) => some message
  | _ => none

def document (entries : Array Entry) : Document :=
  .list (entries.toList.map Entry.document)

def wire (entries : Array Entry) : Value := (document entries).toValue .wire

-- An entry by its place; a negative place counts from the end.
def at? (entries : Array Entry) (index : Int) : Option Entry :=
  let index := if index < 0 then index + entries.size else index
  if index < 0 then none else entries[index.toNat]?

-- Why a text holds no trace.
inductive ReadError
  | json (e : Json.ReadError IsoError)
  | invalid (issues : List Validation.Issue)

-- The JSON text of a trace.
def toJson (indent : Option Nat) (entries : Array Entry) : Option String :=
  (Json.encode? (wire entries)).map (Json.write indent)

def ofJson (text : String) : Except ReadError (Array Entry) := do
  let v ← (Json.load text).mapError .json
  match Entry.checkAll v with
  | .valid entries => .ok entries.toArray
  | .invalid issues => .error (.invalid issues)

end TraceLog

end Gleaner
