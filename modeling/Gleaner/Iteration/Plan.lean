import Gleaner.Iteration.Iterator
import Gleaner.Run.Environment
import Gleaner.Where.Compile

namespace Gleaner

-- How many values a range has.
def Bounds.count (b : Bounds) : Nat := (b.stop + 1 - b.start + (b.step.getD 1 - 1)) / b.step.getD 1

-- The first values of a range.
def Bounds.values (b : Bounds) (most : Nat) : List Nat :=
  (List.range (min most b.count)).map fun i => b.start + i * b.step.getD 1

namespace ExecutionIterator

-- The SQL of the filter of an iterator that has one.
def filterSql? : ExecutionIterator → Except Where.CompileError (Option String)
  | filteredSet _ filter => some <$> Where.compile filter.mapping
  | _ => .ok none

private def rangeContexts (source identifier : String) (values : List Nat) :
    List IterationContext :=
  values.mapIdx fun i (n : Nat) => ⟨i + 1, source, identifier, .int n, none⟩

private def rowContexts (source identifier : String) (rows : List Row) : List IterationContext :=
  rows.mapIdx fun i row =>
    ⟨i + 1, source, identifier, (Fields.get? row identifier).getD .null, some row⟩

section

variable {σ : Type} (store : Warehouse σ)

-- The rows of a set are read once, before anything is run.
def setContexts (it : ExecutionIterator) : Effect σ (List IterationContext) := do
  let sql ← Effect.ofExcept .filter it.filterSql?
  let rows ← store.rows it.source sql
  return rowContexts it.source store.identifierColumn rows

-- What the runs are bound to, in order.
def contexts (it : ExecutionIterator) : Effect σ (List IterationContext) :=
  match it with
  | range source identifier span =>
    return rangeContexts source identifier (span.resolve.values span.resolve.count)
  | _ => it.setContexts store

-- The first of the contexts. Without any asked for, nothing is read.
def preview (it : ExecutionIterator) (limit : Int) : Effect σ (List IterationContext) :=
  if limit ≤ 0 then return []
  else match it with
    | range source identifier span =>
      return rangeContexts source identifier (span.resolve.values limit.toNat)
    | _ => return (← it.setContexts store).take limit.toNat

end

end ExecutionIterator

end Gleaner
