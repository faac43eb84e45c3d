import Gleaner.Rehearsal.World
import Gleaner.Store.Tables

namespace Gleaner.Rehearsal

-- Carries out a statement on the tables of a rehearsal, after it has been noted.
def execute (s : Sql.Statement) : Effect World (List Row) := do
  modify fun w => { w with statements := w.statements.push (s.text, s.parameters) }
  match (← get).database.execute s with
  | .ok (database, rows) => do
    modify fun w => { w with database }
    return rows
  | .error e => throw (.sql e)

def tableStore (sources : List (String × String)) (identifierColumn : String) :
    Warehouse World :=
  Gleaner.tableStore execute sources identifierColumn

-- A table with rows whose cells are given in the order of its columns; each gets the place in a
-- row it would be stored with.
def tableOf (name : String) (columns : List (String × String)) (rows : List (List Value)) :
    Sql.Table :=
  let columns := columns.map fun (name, declaration) => Sql.Column.declared name declaration
  rows.foldl
    (fun t row =>
      match Sql.cellsOf 1 row with
      | .error _ => t
      | .ok cells =>
        let places := t.columns.zipIdx.map fun (c, i) =>
          if c.isKey then Sql.Table.Place.number else .column i
        match t.insert (places.zip cells) with
        | .ok t => t
        | .error _ => t)
    ⟨name, columns, []⟩

end Gleaner.Rehearsal
