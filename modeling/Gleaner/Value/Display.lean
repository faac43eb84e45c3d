import Gleaner.Value
import Gleaner.Number.Shortest
import Gleaner.Text.Quoted
import Gleaner.Time.Written

namespace Gleaner.Value

def joined (separator : String) : List String → String
  | [] => ""
  | [s] => s
  | s :: rest => s ++ separator ++ joined separator rest

-- The name of the kind of a value, as error messages have it.
def kindName : Value → String
  | .null => "NoneType"
  | .bool _ => "bool"
  | .int _ => "int"
  | .float _ => "float"
  | .text _ => "str"
  | .moment _ => "datetime"
  | .day _ => "date"
  | .list _ => "list"
  | .object _ => "dict"

-- A length of time in days, seconds and microseconds, leaving out what is zero.
def durationText (microseconds : Int) : String :=
  let days := Int.fdiv microseconds 86400000000
  let rest := Int.emod microseconds 86400000000
  let parts := [("days", days), ("seconds", rest / 1000000), ("microseconds", rest % 1000000)]
  let shown := (parts.filter (·.2 ≠ 0)).map fun p => p.1 ++ "=" ++ toString p.2
  "datetime.timedelta(" ++ (if shown.isEmpty then "0" else joined ", " shown) ++ ")"

def zoneText (offset : Int) : String :=
  if offset = 0 then "datetime.timezone.utc"
  else "datetime.timezone(" ++ durationText offset ++ ")"

private def momentText (t : DateTime) : String :=
  let tail := if t.microsecond ≠ 0 then [t.second, t.microsecond]
    else if t.second ≠ 0 then [t.second] else []
  let numbers := [t.date.year, t.date.month, t.date.day, t.hour, t.minute] ++ tail
  let zone := match t.offset with
    | none => []
    | some o => ["tzinfo=" ++ zoneText o]
  "datetime.datetime(" ++ joined ", " (numbers.map toString ++ zone) ++ ")"

mutual

-- A value as it stands inside a message: texts are quoted.
def quoted : Value → String
  | .null => "None"
  | .bool true => "True"
  | .bool false => "False"
  | .int n => toString n
  | .float x => x.text
  | .text s => Text.quoted s
  | .moment t => momentText t
  | .day d => "datetime.date(" ++ joined ", " ([d.year, d.month, d.day].map toString) ++ ")"
  | .list items => "[" ++ joined ", " (quotedItems items) ++ "]"
  | .object fields => "\x7b" ++ joined ", " (quotedFields fields) ++ "\x7d"

def quotedItems : List Value → List String
  | [] => []
  | v :: rest => quoted v :: quotedItems rest

def quotedFields : List (String × Value) → List String
  | [] => []
  | (k, v) :: rest => (Text.quoted k ++ ": " ++ quoted v) :: quotedFields rest

end

-- A value as text of its own: a text is itself.
def display : Value → String
  | .text s => s
  | .moment t =>
    t.date.text ++ " " ++ t.clockText ++ t.fractionText ++
      (t.offset.map DateTime.offsetText).getD ""
  | .day d => d.text
  | v => quoted v

end Gleaner.Value
