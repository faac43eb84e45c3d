import Gleaner.Time.Calendar
import Gleaner.Number.Literal

namespace Gleaner

-- Why a text or number is no moment in the strict form `YYYY-MM-DDTHH:MM[:SS[.f]][zone]`.
inductive StampError
  | tooShort
  | extraCharacters
  | separator
  | dateSeparator
  | year
  | month
  | day
  | monthRange
  | dayRange
  | clock
  | early
  | late
  | nan
deriving DecidableEq, Repr

def StampError.reason : StampError → String
  | tooShort => "input is too short"
  | extraCharacters => "unexpected extra characters at the end of the input"
  | separator => "invalid datetime separator, expected `T`, `t`, `_` or space"
  | dateSeparator => "invalid date separator, expected `-`"
  | year => "invalid character in year"
  | month => "invalid character in month"
  | day => "invalid character in day"
  | monthRange => "month value is outside expected range of 1-12"
  | dayRange => "day value is outside expected range"
  | clock => "invalid time"
  | early => "dates before 0000 are not supported as unix timestamps"
  | late => "dates after 9999 are not supported as unix timestamps"
  | nan => "NaN values not permitted"

namespace DateTime.Stamp

-- The bytes of the text as characters, so that its length is counted in bytes.
abbrev Source := List Char

def source (text : String) : Source := text.toUTF8.data.toList.map fun b => Char.ofNat b.toNat

def digit? (c : Char) : Option Nat := if c.isDigit then some (c.toNat - 48) else none

def two? (a b : Char) : Option Nat := do some ((← digit? a) * 10 + (← digit? b))

-- The date in front of a text, and what follows it.
def datePart (s : Source) : Except StampError (Date × Source) :=
  match s with
  | y1 :: y2 :: y3 :: y4 :: h1 :: m1 :: m2 :: h2 :: d1 :: d2 :: rest =>
    match two? y1 y2, two? y3 y4 with
    | some high, some low =>
      if h1 ≠ '-' then .error .dateSeparator
      else match two? m1 m2 with
        | none => .error .month
        | some month =>
          if h2 ≠ '-' then .error .dateSeparator
          else match two? d1 d2 with
            | none => .error .day
            | some day =>
              let year := high * 100 + low
              if month < 1 ∨ 12 < month then .error .monthRange
              else if day < 1 ∨ Date.daysInMonth year month < day then .error .dayRange
              else .ok (⟨year, month, day⟩, rest)
    | _, _ => .error .year
  | _ => .error .tooShort

def date (s : Source) : Except StampError Date := do
  let (d, rest) ← datePart s
  if rest.isEmpty then .ok d else .error .extraCharacters

-- At least one digit; the first six count.
def fraction? (s : Source) : Option (Nat × Source) :=
  let digits := s.takeWhile Char.isDigit
  let first := digits.take 6
  if digits.isEmpty then none
  else
    let value := Integer.ofDigits (first.map fun c => c.toNat - 48)
    some (value * Nat.pow 10 (6 - first.length), s.drop digits.length)

-- The seconds and their fraction, where there are some.
def seconds? (s : Source) : Option (Nat × Nat × Source) :=
  match s with
  | ':' :: a :: b :: rest => do
    let second ← two? a b
    if 59 < second then none
    else match rest with
      | c :: tail =>
        if c = '.' ∨ c = ',' then
          let (micro, rest) ← fraction? tail
          some (second, micro, rest)
        else some (second, 0, rest)
      | [] => some (second, 0, [])
  | ':' :: _ => none
  | _ => some (0, 0, s)

def minutesOffset? (negative : Bool) (h1 h2 m1 m2 : Char) : Option Int := do
  let hours ← two? h1 h2
  let minutes ← two? m1 m2
  if 59 < minutes ∨ 23 < hours then none
  else
    let n : Int := ((hours * 60 + minutes) * 60000000 : Nat)
    some (if negative then -n else n)

-- The sign of a zone, which may also be the minus sign of mathematics; it takes three bytes.
def zoneSign? : Source → Option (Bool × Source)
  | '+' :: rest => some (false, rest)
  | '-' :: rest => some (true, rest)
  | '\xe2' :: '\x88' :: '\x92' :: rest => some (true, rest)
  | _ => none

-- The zone at the end of the text.
def zone? (s : Source) : Option (Option Int) :=
  match s with
  | [] => some none
  | ['Z'] => some (some 0)
  | ['z'] => some (some 0)
  | _ =>
    match zoneSign? s with
    | some (negative, [h1, h2, ':', m1, m2]) => (minutesOffset? negative h1 h2 m1 m2).map some
    | some (negative, [h1, h2, m1, m2]) => (minutesOffset? negative h1 h2 m1 m2).map some
    | _ => none

def isSeparator (c : Char) : Bool := c = 'T' || c = 't' || c = ' ' || c = '_'

def moment? (s : Source) : Option DateTime :=
  match datePart s with
  | .ok (date, sep :: h1 :: h2 :: ':' :: m1 :: m2 :: rest) => do
    let hour ← two? h1 h2
    let minute ← two? m1 m2
    if !isSeparator sep ∨ 23 < hour ∨ 59 < minute then none
    else
      let (second, micro, rest) ← seconds? rest
      let zone ← zone? rest
      some ⟨date, hour, minute, second, micro, zone⟩
  | _ => none

-- Numbers up to this size count seconds, greater ones milliseconds.
def watershed : Nat := 20000000000

-- The UTC moment that a number of seconds or milliseconds since 1970 stands for, with
-- microseconds on top.
def ofNumber (n : Int) (micro : Nat) : Except StampError DateTime :=
  let total := (if n.natAbs ≤ watershed then n * 1000000 else n * 1000) + micro + epoch
  if total < 0 then .error .early
  else if (horizon : Int) ≤ total then .error .late
  else .ok (ofClockMicroseconds total.toNat (some 0))

-- As above for a number with a fraction, which is rounded to microseconds.
def ofFloat (x : Binary64) : Except StampError DateTime :=
  match x.rational? with
  | none => .error (match x with | .nan => .nan | .infinite true => .early | _ => .late)
  | some (n, d) =>
    let fraction := n.natAbs % d
    ofNumber (Int.fdiv n d) ((2 * fraction * 1000000 + d) / (2 * d))

-- A text that is an integer of 64 bits stands for the moment of that number.
def whole? (text : String) : Option (Except StampError DateTime) :=
  let (negative, cs) := Integer.sign text.toList
  match Binary64.takeDigits cs with
  | ([], _) => none
  | (ds, []) =>
    let n := Integer.ofDigits ds
    if Nat.pow 2 63 ≤ n then none else some (ofNumber (if negative then -(n : Int) else n) 0)
  | _ => none

-- So does a text that is a number with a fraction.
def fractional? (text : String) : Option (Except StampError DateTime) :=
  let (_, cs) := Integer.sign text.toList
  match Binary64.takeDigits cs with
  | (_ :: _, '.' :: rest) =>
    if rest.all Char.isDigit then (Binary64.plain? text.toList).map ofFloat else none
  | _ => none

-- Reads a moment; a date alone is the moment its day begins.
def read (text : String) : Except StampError DateTime :=
  let s := source text
  match moment? s with
  | some t => .ok t
  | none =>
    match whole? text with
    | some outcome => outcome
    | none =>
      match (fractional? text).bind Except.toOption with
      | some t => .ok t
      | none => (date s).map ofDate

end DateTime.Stamp

end Gleaner
