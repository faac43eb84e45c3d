import Gleaner.Time.Calendar

namespace Gleaner

-- Why a text is no moment in ISO 8601 form.
inductive IsoError
  | malformed (text : String)
  | offset (microseconds : Int)
  | year (n : Nat)
  | month
  | day
  | hour
  | minute
  | second
deriving DecidableEq, Repr

namespace DateTime.Iso

-- Characters are read by position; beyond the end stands the null character.
abbrev Source := Array Char

def at' (s : Source) (i : Nat) : Char := s.getD i '\x00'

def digit? (c : Char) : Option Nat :=
  if '0' ≤ c ∧ c ≤ '9' then some (c.toNat - '0'.toNat) else none

def isDigit (c : Char) : Bool := (digit? c).isSome

-- A number of exactly `count` digits.
def digits? (s : Source) : Nat → Nat → Nat → Option Nat
  | _, 0, acc => some acc
  | i, count + 1, acc => do
    let d ← digit? (at' s i)
    digits? s (i + 1) count (acc * 10 + d)

def countDigits (s : Source) : Nat → Nat → Nat
  | 0, i => i
  | fuel + 1, i => if isDigit (at' s i) then countDigits s fuel (i + 1) else i

-- Where the date ends. Characters 4 and 5 tell the forms apart; a week date without hyphens is
-- told by the parity of its run of digits, since the digits of the time come in pairs.
def separator? (s : Source) : Option Nat :=
  let len := s.size
  if len = 7 then some 7
  else if at' s 4 = '-' then
    if at' s 5 = 'W' then
      if len < 8 then none
      else if 8 < len ∧ at' s 8 = '-' then
        if len = 9 then none
        else if 10 < len ∧ isDigit (at' s 10) then some 8
        else some 10
      else some 8
    else some 10
  else if at' s 4 = 'W' then
    let stop := countDigits s (len - 7) 7
    if stop < 9 then some stop else if stop % 2 = 0 then some 7 else some 8
  else some 8

-- The Monday of the first week of a year, the week that holds its first Thursday. Day numbers may
-- precede the first day of the calendar.
def firstMonday (year : Nat) : Int :=
  let first : Int := Date.ordinal ⟨year, 1, 1⟩
  let weekday := Int.emod (first + 6) 7
  let monday := first - weekday
  if 3 < weekday then monday + 7 else monday

def hasWeek53 (year : Nat) : Bool :=
  let weekday := Date.weekday ⟨year, 1, 1⟩
  weekday = 3 || (weekday = 2 && Date.isLeap year)

def ofWeek? (year week day : Nat) : Option Date :=
  if year = 0 then none
  else if week = 0 ∨ 53 < week ∨ (week = 53 ∧ !hasWeek53 year) then none
  else if day = 0 ∨ 7 < day then none
  else
    let n := firstMonday year + ((week - 1) * 7 + day - 1 : Nat)
    if n ≤ 0 then none else some (Date.ofOrdinal n.toNat)

-- The date written in the first `len` characters. A month or day out of range is found later.
def date? (s : Source) (len : Nat) : Option Date := do
  let year ← digits? s 0 4 0
  let hyphens := at' s 4 = '-'
  let i := if hyphens then 5 else 4
  if at' s i = 'W' then
    let week ← digits? s (i + 1) 2 0
    let i := i + 3
    if i < len then
      if hyphens ∧ at' s i ≠ '-' then none
      else
        let day ← digits? s (if hyphens then i + 1 else i) 1 0
        ofWeek? year week day
    else ofWeek? year week 1
  else
    let month ← digits? s i 2 0
    let i := i + 2
    if hyphens ∧ at' s i ≠ '-' then none
    else
      let i := if hyphens then i + 1 else i
      let day ← digits? s i 2 0
      if i + 2 = len then some ⟨year, month, day⟩ else none

structure ClockFields where
  hour : Nat := 0
  minute : Nat := 0
  second : Nat := 0
  microsecond : Nat := 0

def ClockFields.set (f : ClockFields) (i value : Nat) : ClockFields :=
  match i with
  | 0 => { f with hour := value }
  | 1 => { f with minute := value }
  | _ => { f with second := value }

-- Up to six digits of a fraction of a second; further ones are dropped. The flag tells whether
-- characters are left.
def fraction? (s : Source) (i stop : Nat) (f : ClockFields) : Option (ClockFields × Bool) := do
  let count := min (stop - i) 6
  let value ← digits? s i count 0
  let after := countDigits s (s.size - (i + count)) (i + count)
  some ({ f with microsecond := value * Nat.pow 10 (6 - count) }, at' s after ≠ '\x00')

-- Hours, minutes and seconds of two digits each, with colons between all of them or none, and a
-- fraction behind a point or comma. `todo` counts the components that may still follow.
def clockFrom? (s : Source) (stop : Nat) : Nat → Nat → Bool → ClockFields →
    Option (ClockFields × Bool)
  | 0, i, _, f => fraction? s i stop f
  | todo + 1, i, colons, f => do
    let value ← digits? s i 2 0
    let f := f.set (2 - todo) value
    let c := at' s (i + 2)
    let colons := if todo = 2 then c = ':' else colons
    if stop ≤ i + 3 then some (f, c ≠ '\x00')
    else if colons ∧ c = ':' then clockFrom? s stop todo (i + 3) colons f
    else if c = '.' ∨ c = ',' then fraction? s (i + 3) stop f
    else if !colons then clockFrom? s stop todo (i + 2) colons f
    else none

def clock? (s : Source) (start stop : Nat) : Option (ClockFields × Bool) :=
  clockFrom? s stop 3 start true {}

def isZone (c : Char) : Bool := c = '+' ∨ c = '-' ∨ c = 'Z'

def findZone (s : Source) : Nat → Nat → Nat
  | 0, i => i
  | fuel + 1, i => if isZone (at' s i) then i else findZone s fuel (i + 1)

-- The clock and the offset behind the separator. An offset below one second counts as zero.
def time? (s : Source) (start : Nat) : Option (ClockFields × Option Int) := do
  let zone := findZone s (s.size - start) start
  let (clock, more) ← clock? s start zone
  if zone = s.size then (if more then none else some (clock, none))
  else if at' s zone = 'Z' then
    if at' s (zone + 1) ≠ '\x00' then none else some (clock, some 0)
  else
    let (z, more) ← clock? s (zone + 1) s.size
    let seconds : Int := (z.hour * 3600 + z.minute * 60 + z.second : Nat)
    let micro : Int := z.microsecond
    if more then none
    else if seconds = 0 then some (clock, some 0)
    else if at' s zone = '-' then some (clock, some (-(seconds * 1000000 + micro)))
    else some (clock, some (seconds * 1000000 + micro))

def fields? (s : Source) : Option (Date × ClockFields × Option Int) := do
  if s.size < 7 then none
  let stop ← separator? s
  let date ← date? s stop
  if stop < s.size then
    let (clock, offset) ← time? s (stop + 1)
    some (date, clock, offset)
  else some (date, {}, none)

def check (date : Date) (clock : ClockFields) (offset : Option Int) :
    Except IsoError DateTime :=
  if (offset.getD 0).natAbs ≥ microsecondsPerDay then .error (.offset (offset.getD 0))
  else if date.year < 1 ∨ 9999 < date.year then .error (.year date.year)
  else if date.month < 1 ∨ 12 < date.month then .error .month
  else if date.day < 1 ∨ Date.daysInMonth date.year date.month < date.day then .error .day
  else if 23 < clock.hour then .error .hour
  else if 59 < clock.minute then .error .minute
  else if 59 < clock.second then .error .second
  else .ok ⟨date, clock.hour, clock.minute, clock.second, clock.microsecond, offset⟩

end DateTime.Iso

-- Reads a moment in any of the ISO 8601 forms: calendar or week dates, with or without hyphens
-- and colons, any one character between date and time.
def DateTime.read (text : String) : Except IsoError DateTime :=
  match Iso.fields? text.toList.toArray with
  | none => .error (.malformed text)
  | some (date, clock, offset) => Iso.check date clock offset

end Gleaner
