import Gleaner.Sql.Cell
import Gleaner.Sql.Error
import Gleaner.Sql.Expression
import Gleaner.Text.Basic
import Gleaner.Value.Display

namespace Gleaner.Sql

structure Column where
  name : String
  affinity : Affinity
  -- the column that holds the number of the row
  isKey : Bool
  required : Bool
  unique : Bool
deriving DecidableEq, Repr

private def containsPart (part : String) : List Char → Bool
  | [] => part.isEmpty
  | c :: rest => part.toList.isPrefixOf (c :: rest) || containsPart part rest

-- The preference a declared type gives to its column.
def Affinity.ofType (type : String) : Affinity :=
  let cs := type.toList.map Char.toUpper
  if containsPart "INT" cs then .integer
  else if ["CHAR", "CLOB", "TEXT"].any (containsPart · cs) then .text
  else if cs.isEmpty || containsPart "BLOB" cs then .none
  else if ["REAL", "FLOA", "DOUB"].any (containsPart · cs) then .real
  else .numeric

private def words (s : String) : List String :=
  ((Text.pieces ' ' s.toList).filter (!·.isEmpty)).map fun w => String.ofList (w.map Char.toUpper)

-- Words that end the type of a column.
def constraintWords : List String :=
  ["PRIMARY", "NOT", "UNIQUE", "NULL", "DEFAULT", "CHECK", "REFERENCES", "COLLATE"]

-- A column as it is declared: a type, then the constraints.
def Column.declared (name declaration : String) : Column :=
  let ws := words declaration
  let type := Value.joined " " (ws.takeWhile fun w => !constraintWords.contains w)
  let primary := ws.contains "PRIMARY"
  let isKey := primary && type == "INTEGER"
  { name, isKey
    affinity := .ofType type
    required := ws.contains "NOT"
    unique := ws.contains "UNIQUE" || (primary && !isKey) }

-- Rows stand in the order of their numbers.
structure Table where
  name : String
  columns : List Column
  rows : List (Int × List Cell)
deriving Repr

namespace Table

def columnIndex? (t : Table) (name : String) : Option Nat :=
  t.columns.findIdx? fun c => sameName c.name name

def rowNumberNames : List String := ["rowid", "oid", "_rowid_"]

-- What a name means in a table: one of the columns, or the number of the row.
inductive Place
  | column (i : Nat)
  | number
deriving DecidableEq, Repr

def place? (t : Table) (name : String) : Option Place :=
  match t.columnIndex? name with
  | some i => if t.columns[i]?.any (·.isKey) then some .number else some (.column i)
  | none => if rowNumberNames.contains (lowerAscii name) then some .number else none

def read (row : Int × List Cell) : Place → Cell
  | .number => .int row.1
  | .column i => row.2[i]?.getD .null

def affinity (t : Table) : Place → Affinity
  | .number => .integer
  | .column i => (t.columns[i]?.map (·.affinity)).getD .none

-- The cells of a row with the number in the column that holds it.
def shown (t : Table) (row : Int × List Cell) : List Cell :=
  t.columns.mapIdx fun i c => if c.isKey then .int row.1 else row.2[i]?.getD .null

def insertRow (row : Int × List Cell) : List (Int × List Cell) → List (Int × List Cell)
  | [] => [row]
  | r :: rest => if row.1 < r.1 then row :: r :: rest else r :: insertRow row rest

-- One more than the greatest number of a row.
def nextNumber (t : Table) : Int := (t.rows.getLast?.map (·.1)).getD 0 + 1

-- The number a cell gives to its row.
def rowNumber? (c : Cell) : Option Int :=
  match Cell.stored .integer c with
  | .int n => some n
  | _ => none

-- The first rule of the columns that a row breaks, apart from the number of the row.
def firstEmpty? (t : Table) (cells : List Cell) : Option Error :=
  (t.columns.zip cells).findSome? fun (c, cell) =>
    if c.required && !c.isKey && cell == .null then some (.empty t.name c.name) else none

def firstDuplicate? (t : Table) (others : List (Int × List Cell)) (cells : List Cell) :
    Option Error :=
  (t.columns.zipIdx.zip cells).findSome? fun ((c, i), cell) =>
    if c.unique && cell != .null && others.any (fun r =>
        Cell.compare? (r.2[i]?.getD .null) cell == some .eq) then
      some (.duplicate t.name c.name)
    else none

def keyName (t : Table) : String := ((t.columns.find? (·.isKey)).map (·.name)).getD "rowid"

-- Puts a row under a number; the row must keep the rules of the columns.
def put (t : Table) (others : List (Int × List Cell)) (number : Int) (cells : List Cell) :
    Except Error Table :=
  match t.firstEmpty? cells with
  | some e => .error e
  | none =>
    if others.any (·.1 == number) then .error (.duplicate t.name t.keyName)
    else match t.firstDuplicate? others cells with
      | some e => .error e
      | none => .ok { t with rows := insertRow (number, cells) others }

end Table

structure Database where
  tables : List Table
deriving Repr

namespace Database

def find (d : Database) (name : String) : Except Error Table :=
  match d.tables.find? fun t => sameName t.name name with
  | some t => .ok t
  | none => .error (.noTable name)

def replace (d : Database) (t : Table) : Database :=
  { d with tables := d.tables.map fun u => if sameName u.name t.name then t else u }

end Database

end Gleaner.Sql
