import Gleaner.Iteration.Plan
import Gleaner.Run.Interpreter
import Gleaner.Trace.Iteration
import Gleaner.Trace.Log

namespace Gleaner

-- What scrapers are run with: a store for each row a run may be bound to, and everything else a
-- run touches.
structure Host (σ : Type) where
  warehouse : Warehouse σ
  environment : DataStore σ → Environment σ

namespace Host

variable {σ : Type} (host : Host σ)

def unbound : Environment σ := host.environment (host.warehouse.boundTo none)

def failedMessage (number : Nat) (entries : Array Entry) : String :=
  "Iteration " ++ toString number ++ " failed: " ++ (TraceLog.errorMessage? entries).getD "None"

-- One run, and the time it ended.
def runOnce (limit : Option Int) (script : List Instruction) (number : Nat)
    (context : Option IterationContext) : Effect σ IterationRecord := do
  let env := host.environment (host.warehouse.boundTo context)
  let entries ← run env limit env.patience script #[]
  if !TraceLog.succeeded entries then env.warn (failedMessage number entries)
  match DateTime.ofEpochMillis? (← env.now) with
  | some finishedAt => return ⟨number, entries.toList, finishedAt⟩
  | none => throw .beyondCalendar

def runAll (limit : Option Int) (script : List Instruction) :
    Nat → List (Option IterationContext) → Effect σ (List IterationRecord)
  | _, [] => return []
  | number, context :: rest => do
    let record ← host.runOnce limit script number context
    return record :: (← runAll limit script (number + 1) rest)

-- Runs a script once for each context of an iterator, or once without one. All contexts are known
-- before the first run.
def execute (limit : Option Int) (script : List Instruction)
    (iterator : Option ExecutionIterator) : Effect σ (List IterationRecord) := do
  let contexts ← match iterator with
    | none => pure [none]
    | some it => (·.map some) <$> it.contexts host.warehouse
  host.runAll limit script 1 contexts

end Host

end Gleaner
