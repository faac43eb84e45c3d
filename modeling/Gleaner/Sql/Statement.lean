import Gleaner.Iteration.Context
import Gleaner.Sql.Evaluate

namespace Gleaner.Sql

namespace Markup

-- In the text of a statement a name behind a colon marks a parameter. A colon behind a backslash
-- stands for itself.
def escapeChars (cs : List Char) : List Char :=
  cs.flatMap fun c => if c = ':' then ['\\', ':'] else [c]

def escape (text : String) : String := String.ofList (escapeChars text.toList)

-- The backslashes in front of colons are dropped before a statement is carried out.
def unescapeChars : List Char → List Char
  | [] => []
  | '\\' :: ':' :: rest => ':' :: unescapeChars rest
  | c :: rest => c :: unescapeChars rest

def unescape (text : String) : String := String.ofList (unescapeChars text.toList)

end Markup

-- A column and the value it is compared with.
structure Match where
  column : String
  value : Value

-- What the database is asked to do. Names are given plain; values are handed over apart. A filter is
-- given as it stands in the text that is handed over, in which colons may be escaped.
inductive Statement
  | first (column table : String) (filter : Option Match)
  | all (table : String) (filter : Option String)
  | insert (table : String) (values : List (String × Value))
  | update (table : String) (values : List (String × Value)) (filter : Match)
  | delete (table : String) (filter : Option Match)

namespace Statement

private def matchText (filter : Option Match) : String :=
  filter.elim "" fun m => " WHERE " ++ quotedName m.column ++ " = ?"

private def names (values : List (String × Value)) : List String :=
  values.map fun (c, _) => quotedName c

-- The text of a listing before its colons are read.
def marked (table : String) (filter : Option String) : String :=
  "SELECT * FROM " ++ quotedName table ++ filter.elim "" (" WHERE " ++ ·)

-- What is carried out, with a question mark for each value.
def text : Statement → String
  | first column table filter =>
    "SELECT " ++ quotedName column ++ " FROM " ++ quotedName table ++ matchText filter ++ " LIMIT 1"
  | all table filter => Markup.unescape (marked table filter)
  | insert table values =>
    "INSERT INTO " ++ quotedName table ++ " (" ++ Value.joined ", " (names values) ++
      ") VALUES (" ++ Value.joined ", " (values.map fun _ => "?") ++ ")"
  | update table values filter =>
    "UPDATE " ++ quotedName table ++ " SET " ++
      Value.joined ", " ((names values).map (· ++ " = ?")) ++ matchText (some filter)
  | delete table filter => "DELETE FROM " ++ quotedName table ++ matchText filter

private def matchValue (filter : Option Match) : List Value :=
  filter.toList.map (·.value)

def parameters : Statement → List Value
  | first _ _ filter => matchValue filter
  | all .. => []
  | insert _ values => values.map (·.2)
  | update _ values filter => values.map (·.2) ++ [filter.value]
  | delete _ filter => matchValue filter

end Statement

-- A value as a cell. The position is that of the value among those of a statement.
def Cell.ofValue (position : Nat) : Value → Except Error Cell
  | .null => .ok .null
  | .bool b => .ok (.int (if b then 1 else 0))
  | .int n => if fitsInteger n then .ok (.int n) else .error .oversized
  | .float .nan => .ok .null
  | .float x => .ok (.real x)
  | .text s => .ok (.text s)
  | .moment t => .ok (.text (Value.moment t).display)
  | .day d => .ok (.text d.text)
  | v => .error (.unsupported position v.kindName)

def Cell.value : Cell → Value
  | .null => .null
  | .int n => .int n
  | .real x => .float x
  | .text s => .text s

def cellsOf (position : Nat) : List Value → Except Error (List Cell)
  | [] => .ok []
  | v :: rest => do
    let c ← Cell.ofValue position v
    return c :: (← cellsOf (position + 1) rest)

-- A name that is written without quotes must not be a keyword.
def checkName (name : String) : Except Error Unit :=
  if isPlainName name && isKeyword name then .error (.near name) else .ok ()

def nameExpr (name : String) : Expr := .name [name] (!isPlainName name)

-- The condition of a match on a cell.
def matchExpr (column : String) (c : Cell) : Expr :=
  .compare .equal (nameExpr column) (.cell c)

def Table.chosen (t : Table) (e : Expr) : List (Int × List Cell) :=
  t.rows.filter fun row => e.truth t row = some true

def Table.row (t : Table) (row : Int × List Cell) : Row :=
  (t.columns.map (·.name)).zip ((t.shown row).map Cell.value)

-- The cells of a new row, in the order of the columns, and the cell for its number. Of two cells
-- for one column the first counts, of two for the number the last.
def Table.assembled (t : Table) (values : List (Table.Place × Cell)) : List Cell × Cell :=
  let cell (p : Table.Place) (values : List (Table.Place × Cell)) : Cell :=
    ((values.find? (·.1 == p)).map (·.2)).getD .null
  (t.columns.mapIdx fun i c =>
      if c.isKey then .null else Cell.stored c.affinity (cell (.column i) values),
    cell .number values.reverse)

-- The row after some columns have been given new cells. Of two cells for one column the last
-- counts.
def Table.assigned (t : Table) (row : Int × List Cell) (values : List (Table.Place × Cell)) :
    List Cell × Cell :=
  let cell (p : Table.Place) (old : Cell) : Cell :=
    ((values.reverse.find? (·.1 == p)).map fun v => Cell.stored (t.affinity p) v.2).getD old
  (row.2.mapIdx fun i old => cell (.column i) old, cell .number (.int row.1))

def Table.insert (t : Table) (values : List (Table.Place × Cell)) : Except Error Table :=
  let (cells, key) := t.assembled values
  match key with
  | .null => t.put t.rows t.nextNumber cells
  | c =>
    match Table.rowNumber? c with
    | none => .error .mismatch
    | some n => t.put t.rows n cells

-- Changes some rows one after the other; the rules hold after each of them.
def Table.update (values : List (Table.Place × Cell)) :
    List (Int × List Cell) → Table → Except Error Table
  | [], t => .ok t
  | row :: rest, t => do
    let (cells, key) := t.assigned row values
    match Table.rowNumber? key with
    | none => .error .mismatch
    | some n => do
      let t ← t.put (t.rows.filter (·.1 != row.1)) n cells
      Table.update values rest t

def assignmentPlaces (t : Table) (missing : String → Error) :
    List String → Except Error (List Table.Place)
  | [] => .ok []
  | name :: rest =>
    match t.place? name with
    | none => .error (missing name)
    | some p => do return p :: (← assignmentPlaces t missing rest)

def checkMatch (t : Table) (filter : Option Match) : Except Error Unit :=
  match filter with
  | none => .ok ()
  | some m => (nameExpr m.column).check t

def matchOf (filter : Option Match) (cells : List Cell) : Option Expr :=
  filter.map fun m => matchExpr m.column (cells.headD .null)

def chosenBy (t : Table) (e : Option Expr) : List (Int × List Cell) :=
  e.elim t.rows t.chosen

def checkNames : List String → Except Error Unit
  | [] => .ok ()
  | name :: rest => do
    checkName name
    checkNames rest

-- The names of a statement that are written into its text.
def Statement.writtenNames : Statement → List String
  | .first column table filter => column :: table :: filter.toList.map (·.column)
  | .all table _ => [table]
  | .insert table values => table :: values.map (·.1)
  | .update table values filter => table :: values.map (·.1) ++ [filter.column]
  | .delete table filter => table :: filter.toList.map (·.column)

-- A statement is read as far as its first null character, so its text must not have one.
def Statement.check (s : Statement) : Except Error Unit := do
  if s.text.toList.contains '\x00' then throw .nullCharacter
  checkNames s.writtenNames

-- Carries out a statement: the database after it and the rows it gives. A statement that fails
-- changes nothing. What it names is looked up before its values are taken over.
def Database.execute (d : Database) (s : Statement) : Except Error (Database × List Row) := do
  s.check
  match s with
  | .first column table filter => do
    let t ← d.find table
    (nameExpr column).check t
    checkMatch t filter
    let cells ← cellsOf 1 s.parameters
    let rows := (chosenBy t (matchOf filter cells)).take 1
    .ok (d, rows.map fun row => [(column, ((nameExpr column).value t row).value)])
  | .all table filter => do
    let e ← match filter with
      | none => pure none
      | some filter => some <$> Expr.read (Markup.unescape filter)
    let t ← d.find table
    match e with
    | none => .ok (d, t.rows.map t.row)
    | some e => do
      e.check t
      .ok (d, (t.chosen e).map t.row)
  | .insert table values => do
    let t ← d.find table
    let places ← assignmentPlaces t (.noSuchColumnOf table) (values.map (·.1))
    let cells ← cellsOf 1 s.parameters
    .ok (d.replace (← t.insert (places.zip cells)), [])
  | .update table values filter => do
    let t ← d.find table
    let places ← assignmentPlaces t .noColumn (values.map (·.1))
    checkMatch t (some filter)
    let cells ← cellsOf 1 s.parameters
    let rows := chosenBy t (matchOf (some filter) (cells.drop values.length))
    .ok (d.replace (← t.update (places.zip cells) rows), [])
  | .delete table filter => do
    let t ← d.find table
    checkMatch t filter
    let cells ← cellsOf 1 s.parameters
    let gone := (chosenBy t (matchOf filter cells)).map (·.1)
    .ok (d.replace { t with rows := t.rows.filter fun row => !gone.contains row.1 }, [])

end Gleaner.Sql
