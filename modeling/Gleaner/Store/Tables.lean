import Gleaner.Run.Environment
import Gleaner.Sql.Statement
import Gleaner.Store.Key

namespace Gleaner

-- The data a run reads and writes, kept in the tables of a database. A run that is bound to a row
-- works on this row of its source; otherwise the first row is read, new rows are written and
-- deleting clears the table.
namespace TableStore

variable {σ : Type} (execute : Sql.Statement → Effect σ (List Row))
  (sources : List (String × String))

def table (source : String) : Effect σ String :=
  match sources.find? (·.1 == source) with
  | some (_, table) => pure table
  | none => throw (.unknownSource source)

-- The row of a source that a run is bound to.
def boundRow? (bound : Option IterationContext) (source : String) : Option Sql.Match :=
  bound.bind fun c => if c.source = source then some ⟨c.identifier, c.value⟩ else none

def splitKey (key : String) : Effect σ DataKey :=
  match DataKey.read? key with
  | some k => pure k
  | none => throw (.dataKey key)

def setMany (bound : Option IterationContext) (source : String)
    (values : List (String × Value)) : Effect σ Unit := do
  if values.isEmpty then return
  let table ← table sources source
  match boundRow? bound source with
  | some m => discard (execute (.update table values m))
  | none => discard (execute (.insert table values))

def store (bound : Option IterationContext) : DataStore σ where
  get key := do
    let k ← splitKey key
    let table ← table sources k.source
    let rows ← execute (.first k.column table (boundRow? bound k.source))
    return ((rows.head?.bind List.head?).map (·.2)).getD .null
  set key value := do
    let k ← splitKey key
    setMany execute sources bound k.source [(k.column, value)]
  setMany := setMany execute sources bound
  delete source := do
    let table ← table sources source
    discard (execute (.delete table (boundRow? bound source)))

-- An empty filter is none. The colons of a filter are escaped, so that none of them marks a
-- parameter.
def rows (source : String) (filter : Option String) : Effect σ (List Row) := do
  let table ← table sources source
  execute (.all table ((filter.filter (· ≠ "")).map Sql.Markup.escape))

end TableStore

def tableStore {σ : Type} (execute : Sql.Statement → Effect σ (List Row))
    (sources : List (String × String)) (identifierColumn : String) : Warehouse σ where
  identifierColumn := identifierColumn
  rows := TableStore.rows execute sources
  boundTo := TableStore.store execute sources

end Gleaner
