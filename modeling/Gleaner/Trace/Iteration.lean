import Gleaner.Trace.Entry

namespace Gleaner

open Validation

-- The record of one run among the runs of an execution.
structure IterationRecord where
  iteration : Nat
  entries : List Entry
  finishedAt : DateTime
deriving Repr

namespace IterationRecord

def check (v : Value) : Checked IterationRecord :=
  model "ScraperExecutionIteration" v fun fields _ =>
    IterationRecord.mk <$> (Int.toNat <$> required fields "iteration" (atLeast 1))
      <*> required fields "executionInfo" Entry.checkAll
      <*> required fields "finishedAt" moment

def document (r : IterationRecord) : Document :=
  .record [("iteration", .int r.iteration), ("executionInfo", .list (r.entries.map Entry.document)),
    ("finishedAt", .leaf (.moment r.finishedAt))]

-- A run has failed unless its last entry reports success.
def failed (r : IterationRecord) : Bool :=
  match r.entries.getLast? with
  | some (.success _) => false
  | _ => true

end IterationRecord

end Gleaner
