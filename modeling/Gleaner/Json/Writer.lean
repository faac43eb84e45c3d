import Gleaner.Value.Display

namespace Gleaner.Json

-- One UTF-16 unit as an escape.
def unitEscape (n : Nat) : List Char := '\\' :: 'u' :: Text.hexChars 4 n

-- The letter behind a backslash for the control characters that have one.
def shortForm? : Char → Option Char
  | '\x08' => some 'b'
  | '\x0c' => some 'f'
  | c => Text.shortForm? c

-- A character inside a JSON string; all but printable ASCII is escaped, and characters beyond the
-- first plane take two escapes.
def escapedChar (c : Char) : List Char :=
  if c = '"' ∨ c = '\\' then ['\\', c]
  else match shortForm? c with
    | some letter => ['\\', letter]
    | none =>
      let n := c.toNat
      if 32 ≤ n ∧ n < 127 then [c]
      else if n < 65536 then unitEscape n
      else unitEscape (55296 + (n - 65536) / 1024) ++ unitEscape (56320 + (n - 65536) % 1024)

def stringText (s : String) : String :=
  String.ofList ('"' :: s.toList.flatMap escapedChar ++ ['"'])

-- The line end and blanks before an item at a depth; without an indent, items share a line.
def lineBreak (indent : Option Nat) (depth : Nat) : String :=
  match indent with
  | none => ""
  | some n => "\n" ++ String.ofList (List.replicate (n * depth) ' ')

def itemSeparator (indent : Option Nat) (depth : Nat) : String :=
  match indent with
  | none => ", "
  | some _ => "," ++ lineBreak indent depth

mutual

-- The JSON text of a value; moments and days are written as text.
def writeAt (indent : Option Nat) (depth : Nat) : Value → String
  | .null => "null"
  | .bool true => "true"
  | .bool false => "false"
  | .int n => toString n
  | .float x => x.textWith Binary64.jsonLayout
  | .text s => stringText s
  | .moment t => stringText t.text
  | .day d => stringText d.text
  | .list [] => "[]"
  | .list items =>
    "[" ++ lineBreak indent (depth + 1) ++
      Value.joined (itemSeparator indent (depth + 1)) (writeItems indent (depth + 1) items) ++
      lineBreak indent depth ++ "]"
  | .object [] => "\x7b\x7d"
  | .object fields =>
    "\x7b" ++ lineBreak indent (depth + 1) ++
      Value.joined (itemSeparator indent (depth + 1)) (writeFields indent (depth + 1) fields) ++
      lineBreak indent depth ++ "\x7d"

def writeItems (indent : Option Nat) (depth : Nat) : List Value → List String
  | [] => []
  | v :: rest => writeAt indent depth v :: writeItems indent depth rest

def writeFields (indent : Option Nat) (depth : Nat) : List (String × Value) → List String
  | [] => []
  | (k, v) :: rest =>
    (stringText k ++ ": " ++ writeAt indent depth v) :: writeFields indent depth rest

end

-- The JSON text of a value, on one line or with every item on a line of its own.
def write (indent : Option Nat) (v : Value) : String := writeAt indent 0 v

end Gleaner.Json
