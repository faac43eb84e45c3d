namespace Gleaner

-- A day of the Gregorian calendar, continued backwards to the year 1.
structure Date where
  year : Nat
  month : Nat
  day : Nat
deriving DecidableEq, Repr, Inhabited

namespace Date

def isLeap (year : Nat) : Bool :=
  year % 4 = 0 && (year % 100 ≠ 0 || year % 400 = 0)

def daysInMonth (year month : Nat) : Nat :=
  if month = 2 then (if isLeap year then 29 else 28)
  else if month = 4 ∨ month = 6 ∨ month = 9 ∨ month = 11 then 30
  else 31

def daysBeforeYear (year : Nat) : Nat :=
  let y := year - 1
  365 * y + y / 4 - y / 100 + y / 400

-- Days of the year that precede the first of the month.
def daysBeforeMonth (year : Nat) : Nat → Nat
  | 0 => 0
  | 1 => 0
  | month + 1 => daysBeforeMonth year month + daysInMonth year month

-- The number of the day, counting 0001-01-01 as 1.
def ordinal (d : Date) : Nat :=
  daysBeforeYear d.year + daysBeforeMonth d.year d.month + d.day

-- Splits a day number within a year into month and day.
def monthAndDay (year : Nat) : Nat → Nat → Nat → Nat × Nat
  | 0, month, left => (month, left + 1)
  | fuel + 1, month, left =>
    let length := daysInMonth year month
    if left < length then (month, left + 1)
    else monthAndDay year fuel (month + 1) (left - length)

-- The day with a given number: whole cycles of 400, 100, 4 and 1 years are taken off in turn. The
-- last day of a cycle would otherwise count as one more shorter cycle.
def ofOrdinal (n : Nat) : Date :=
  let n := n - 1
  let (n400, n) := (n / 146097, n % 146097)
  let n100 := min (n / 36524) 3
  let n := n - n100 * 36524
  let (n4, n) := (n / 1461, n % 1461)
  let n1 := min (n / 365) 3
  let n := n - n1 * 365
  let year := n400 * 400 + n100 * 100 + n4 * 4 + n1 + 1
  let (month, day) := monthAndDay year 11 1 n
  ⟨year, month, day⟩

-- 0 is Monday.
def weekday (d : Date) : Nat := (d.ordinal + 6) % 7

def isValid (d : Date) : Bool :=
  1 ≤ d.year && d.year ≤ 9999 && 1 ≤ d.month && d.month ≤ 12 && 1 ≤ d.day &&
    d.day ≤ daysInMonth d.year d.month

end Date

-- A moment as a calendar and a clock show it. Without an offset it names no instant of its own;
-- the offset is in microseconds east of Greenwich.
structure DateTime where
  date : Date
  hour : Nat
  minute : Nat
  second : Nat
  microsecond : Nat
  offset : Option Int
deriving DecidableEq, Repr, Inhabited

namespace DateTime

def microsecondsPerDay : Nat := 86400000000

def ofDate (d : Date) : DateTime := ⟨d, 0, 0, 0, 0, none⟩

-- Microseconds on the clock since the start of the year 1, whatever the offset.
def clockMicroseconds (t : DateTime) : Nat :=
  (t.date.ordinal - 1) * microsecondsPerDay +
    ((t.hour * 60 + t.minute) * 60 + t.second) * 1000000 + t.microsecond

def ofClockMicroseconds (n : Nat) (offset : Option Int) : DateTime :=
  let rest := n % microsecondsPerDay
  let seconds := rest / 1000000
  { date := Date.ofOrdinal (n / microsecondsPerDay + 1)
    hour := seconds / 3600
    minute := seconds / 60 % 60
    second := seconds % 60
    microsecond := rest % 1000000
    offset := offset }

-- Microseconds up to the end of the year 9999.
def horizon : Nat := 3652059 * microsecondsPerDay

-- Microseconds of the instant since the start of the year 1 in UTC; a moment without an offset is
-- read as UTC.
def instant (t : DateTime) : Int := (t.clockMicroseconds : Int) - t.offset.getD 0

-- The same instant on a UTC clock, unless it falls outside the years 1 to 9999.
def toUtc? (t : DateTime) : Option DateTime :=
  let n := t.instant
  if 0 ≤ n ∧ n < horizon then some (ofClockMicroseconds n.toNat (some 0)) else none

-- Microseconds from the start of the year 1 to the start of 1970.
def epoch : Nat := 719162 * microsecondsPerDay

-- The UTC moment a number of milliseconds after the start of 1970.
def ofEpochMillis? (n : Int) : Option DateTime :=
  let n := n * 1000 + epoch
  if 0 ≤ n ∧ n < horizon then some (ofClockMicroseconds n.toNat (some 0)) else none

end DateTime

end Gleaner
