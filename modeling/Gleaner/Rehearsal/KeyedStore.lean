import Gleaner.Rehearsal.World
import Gleaner.Store.Key

namespace Gleaner.Rehearsal

open World

-- A store that holds values by their keys and rows by their sources.
namespace KeyedStore

-- A call is noted with the row it is bound to, takes its time and then fails if it is to.
def call (bound : Option IterationContext) (kind : String) (details : List Value) :
    Effect World Unit := do
  let row := bound.elim [] fun c => [.list [.text c.identifier, c.value]]
  modify fun w =>
    { w with
      clock := w.clock.spend kind
      storeCalls := w.storeCalls.push (.list (.text kind :: details ++ row)) }
  faultOf (← get).storeFaults kind

def put (key : String) (value : Value) : StateM World Unit :=
  modify fun w => { w with values := Fields.set w.values key value }

def store (bound : Option IterationContext) : DataStore World where
  get key := do
    call bound "get" [.text key]
    return (Fields.get? (← MonadState.get).values key).getD .null
  set key value := do
    call bound "set" [.text key, value]
    match DataKey.read? key with
    | none => throw (.dataKey key)
    | some _ => put key value
  setMany source items := do
    call bound "setMany"
      [.text source, .list (items.map fun (c, v) => .list [.text c, v])]
    for (column, value) in items do
      put (source ++ "." ++ column) value
  delete source := do
    call bound "delete" [.text source]
    modify fun w =>
      { w with values := w.values.filter fun (k, _) => !k.startsWith (source ++ ".") }

def rows (source : String) (filter : Option String) : Effect World (List Row) := do
  call none "fetchRows" [.text source, .ofText? filter]
  return (((← get).rows.find? (·.1 == source)).map (·.2)).getD []

def addRow (source : String) (row : Row) : StateM World Unit :=
  modify fun w =>
    { w with
      rows := Fields.set w.rows source
        ((((w.rows.find? (·.1 == source)).map (·.2)).getD []) ++ [row]) }

end KeyedStore

def keyedStore (identifierColumn : String) : Warehouse World where
  identifierColumn := identifierColumn
  rows := KeyedStore.rows
  boundTo := KeyedStore.store

end Gleaner.Rehearsal
