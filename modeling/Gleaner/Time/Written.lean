import Gleaner.Text.Basic
import Gleaner.Time.Calendar

namespace Gleaner

open Text

-- The ISO form of a day.
def Date.text (d : Date) : String :=
  padded 4 d.year ++ "-" ++ padded 2 d.month ++ "-" ++ padded 2 d.day

namespace DateTime

-- An offset as sign, hours and minutes; seconds and their fraction only where there are some.
def offsetText (offset : Int) : String :=
  let n := offset.natAbs
  let seconds := n / 1000000
  let micro := n % 1000000
  let sign := if offset < 0 then "-" else "+"
  let fraction := if micro = 0 then "" else "." ++ padded 6 micro
  let tail := if seconds % 60 = 0 ∧ micro = 0 then "" else ":" ++ padded 2 (seconds % 60) ++ fraction
  sign ++ padded 2 (seconds / 3600) ++ ":" ++ padded 2 (seconds / 60 % 60) ++ tail

def clockText (t : DateTime) : String :=
  padded 2 t.hour ++ ":" ++ padded 2 t.minute ++ ":" ++ padded 2 t.second

def fractionText (t : DateTime) : String :=
  if t.microsecond = 0 then "" else "." ++ padded 6 t.microsecond

-- The ISO form of a moment: the fraction has six digits or is left out, the offset is left out
-- where there is none.
def text (t : DateTime) : String :=
  t.date.text ++ "T" ++ t.clockText ++ t.fractionText ++ (t.offset.map offsetText).getD ""

-- The form moments have on the wire: as above, with `Z` for the offset zero. The offset has
-- neither seconds nor a fraction.
def wireText (t : DateTime) : String :=
  let zone := match t.offset with
    | none => ""
    | some 0 => "Z"
    | some o =>
      let minutes := o.natAbs / 60000000
      (if o < 0 then "-" else "+") ++ padded 2 (minutes / 60) ++ ":" ++ padded 2 (minutes % 60)
  t.date.text ++ "T" ++ t.clockText ++ t.fractionText ++ zone

end DateTime

end Gleaner
