namespace Gleaner.Sql

-- Why a statement is not executed.
inductive Error
  | noTable (name : String)
  | noColumn (name : String)
  | noSuchColumnOf (table column : String)
  | noFunction (name : String)
  | argumentCount (function : String)
  | near (token : String)
  | unrecognized (token : String)
  | incomplete
  | empty (table column : String)
  | duplicate (table column : String)
  | mismatch
  | unsupported (position : Nat) (kind : String)
  | oversized
  | nullCharacter
deriving DecidableEq, Repr

namespace Error

-- Faults of the data as opposed to faults of the statement.
def concernsData : Error → Bool
  | empty .. => true
  | duplicate .. => true
  | mismatch => true
  | _ => false

def text : Error → String
  | noTable name => "no such table: " ++ name
  | noColumn name => "no such column: " ++ name
  | noSuchColumnOf table column => "table " ++ table ++ " has no column named " ++ column
  | noFunction name => "no such function: " ++ name
  | argumentCount function => "wrong number of arguments to function " ++ function ++ "()"
  | near token => "near \"" ++ token ++ "\": syntax error"
  | unrecognized token => "unrecognized token: \"" ++ token ++ "\""
  | incomplete => "incomplete input"
  | empty table column => "NOT NULL constraint failed: " ++ table ++ "." ++ column
  | duplicate table column => "UNIQUE constraint failed: " ++ table ++ "." ++ column
  | mismatch => "datatype mismatch"
  | unsupported position kind =>
    "Error binding parameter " ++ toString position ++ ": type '" ++ kind ++ "' is not supported"
  | oversized => "Python int too large to convert to SQLite INTEGER"
  | nullCharacter => "the query contains a null character"

def kind : Error → String
  | unsupported .. => "ProgrammingError"
  | oversized => "OverflowError"
  | nullCharacter => "ProgrammingError"
  | e => if e.concernsData then "IntegrityError" else "OperationalError"

-- The text with the kind of the fault in front. A number that is too large never gets as far as
-- the database.
def message (e : Error) : String :=
  match e with
  | oversized => e.text
  | _ => "(sqlite3." ++ e.kind ++ ") " ++ e.text

end Error

end Gleaner.Sql
