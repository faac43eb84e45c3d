import Gleaner.Value.Display

namespace Gleaner.Where

-- Why a filter has no SQL text.
inductive CompileError
  | malformed
  | value (kind : String)
  | array (operator : String)
  | range (operator : String)
  | condition (shown : String)
  | conditionKind (kind : String)
  | instant
deriving DecidableEq, Repr

def CompileError.message : CompileError → String
  | malformed => "Invalid where schema"
  | value kind => "Unsupported value type: " ++ kind
  | array operator => operator ++ " condition requires array value"
  | range operator => operator ++ " condition requires range value with from and to properties"
  | condition shown => "Unsupported condition: " ++ shown
  | conditionKind kind => "unhashable type: '" ++ kind ++ "'"
  | instant => "date value out of range"

-- A text as an SQL string: the quote is written twice.
def escapedQuotes (cs : List Char) : List Char :=
  cs.flatMap fun c => if c = '\'' then ['\'', '\''] else [c]

def stringLiteral (s : String) : String :=
  String.ofList ('\'' :: escapedQuotes s.toList ++ ['\''])

-- A moment as text of the UTC clock cut to milliseconds. The year has no zeros in front.
def momentText (t : DateTime) : String :=
  toString t.date.year ++ "-" ++ Text.padded 2 t.date.month ++ "-" ++ Text.padded 2 t.date.day ++
    "T" ++ t.clockText ++ "." ++ Text.padded 3 (t.microsecond / 1000) ++ "Z"

-- A number that is an integer is written as one.
def floatLiteral (x : Binary64) : String :=
  match x.integer? with
  | some n => toString n
  | none => x.text

-- The SQL literal of one value.
def literal : Value → Except CompileError String
  | .text s => .ok (stringLiteral s)
  | .bool b => .ok (if b then "1" else "0")
  | .int n => .ok (toString n)
  | .float x => .ok (floatLiteral x)
  | .moment t =>
    match t.toUtc? with
    | some t => .ok (stringLiteral (momentText t))
    | none => .error .instant
  | v => .error (.value v.kindName)

end Gleaner.Where
