import Gleaner.Number.Binary64

namespace Gleaner.Binary64

-- Compares a quotient with a power of ten.
def belowPower (numerator denominator : Nat) : Int → Bool
  | .ofNat n => numerator < denominator * Nat.pow 10 n
  | .negSucc n => numerator * Nat.pow 10 (n + 1) < denominator

-- The least power of ten above a positive quotient; the search starts below it.
def decimalPoint (numerator denominator : Nat) : Int :=
  let binary : Int := (Nat.log2 numerator : Int) - Nat.log2 denominator
  let start : Int := Int.fdiv (binary * 30103) 100000 - 1
  let found := (List.range 5).find? fun (i : Nat) => belowPower numerator denominator (start + i)
  start + (found.getD 5 : Nat)

-- Multiplies a quotient by a power of ten.
def scaleDecimal (numerator denominator : Nat) : Int → Nat × Nat
  | .ofNat n => (numerator * Nat.pow 10 n, denominator)
  | .negSucc n => (numerator, denominator * Nat.pow 10 (n + 1))

-- Whether `digits * 10 ^ -places` rounds to the given magnitude.
def readsBack (exponent : Fin 2047) (fraction : Fin 4503599627370496)
    (digits : Nat) (places : Int) : Bool :=
  let (n, d) := scaleDecimal digits 1 (-places)
  roundMagnitude n d == some (exponent, fraction)

-- The decimal on the grid `10 ^ -places` that reads back and is nearest to the magnitude. Of the
-- two neighbours at equal distance the even one is taken.
def onGrid (exponent : Fin 2047) (fraction : Fin 4503599627370496) (places : Int) : Option Nat :=
  let (n, d) := quotient exponent fraction
  let (n, d) := scaleDecimal n d places
  let low := n / d
  let lowHit := readsBack exponent fraction low places
  let highHit := readsBack exponent fraction (low + 1) places
  let twice := 2 * (n % d)
  let lowNearer := twice < d || (twice == d && low % 2 == 0)
  match lowHit, highHit with
  | true, true => some (if lowNearer then low else low + 1)
  | true, false => some low
  | false, true => some (low + 1)
  | false, false => none

-- The exact digits of a magnitude, which always read back.
def exactDigits (exponent : Fin 2047) (fraction : Fin 4503599627370496) : Nat × Int :=
  match scale exponent with
  | .ofNat n => (significand exponent fraction * Nat.pow 2 n, 0)
  | .negSucc n => (significand exponent fraction * Nat.pow 5 (n + 1), (n + 1 : Nat))

-- The first of the grids with 1, 2, ... 17 digits that has a decimal reading back.
def shortestDigits (exponent : Fin 2047) (fraction : Fin 4503599627370496) : Nat × Int :=
  let (n, d) := quotient exponent fraction
  let point := decimalPoint n d
  let found := (List.range 17).findSome? fun (i : Nat) =>
    let places : Int := (i : Int) + 1 - point
    (onGrid exponent fraction places).map (·, places)
  found.getD (exactDigits exponent fraction)

-- How the text of a number is laid out once its digits are known.
structure Layout where
  -- exponents from `lowest` up to but not including `highest` are written without an exponent
  lowest : Int
  highest : Int
  -- at least this many digits in a written exponent
  exponentDigits : Nat
  infinite : String
  nan : String
  -- whether a single digit in front of an exponent is followed by a point and a zero
  pointed : Bool := false

-- Numbers are positional from 1e-4 up to 1e16, and exponents have a sign and two digits.
def plainLayout : Layout :=
  { lowest := -4, highest := 16, exponentDigits := 2, infinite := "inf", nan := "nan" }

-- The same layout with the words JSON readers know for the values that are no numbers.
def jsonLayout : Layout := { plainLayout with infinite := "Infinity", nan := "NaN" }

def zeros (n : Nat) : List Char := List.replicate n '0'

def dropTrailingZeros (digits : List Char) : List Char :=
  match (digits.reverse.dropWhile (· = '0')).reverse with
  | [] => ['0']
  | rest => rest

-- Digits with the decimal point after the first `point` of them.
def positional (digits : List Char) (point : Int) : List Char :=
  match point with
  | .ofNat n =>
    if n = 0 then '0' :: '.' :: digits
    else if digits.length ≤ n then digits ++ zeros (n - digits.length) ++ ['.', '0']
    else digits.take n ++ '.' :: digits.drop n
  | .negSucc n => '0' :: '.' :: zeros (n + 1) ++ digits

def scientific (layout : Layout) (digits : List Char) (exponent : Int) : List Char :=
  let shown := Nat.toDigits 10 exponent.natAbs
  let padded := zeros (layout.exponentDigits - shown.length) ++ shown
  let mantissa := match digits with
    | [] => []
    | [c] => if layout.pointed then [c, '.', '0'] else [c]
    | c :: rest => c :: '.' :: rest
  mantissa ++ 'e' :: (if exponent < 0 then '-' else '+') :: padded

-- Lays out the decimal `value * 10 ^ -places`.
def Layout.chars (layout : Layout) (value : Nat) (places : Int) : List Char :=
  let all := Nat.toDigits 10 value
  let point : Int := (all.length : Int) - places
  let digits := dropTrailingZeros all
  if layout.lowest ≤ point - 1 ∧ point - 1 < layout.highest then positional digits point
  else scientific layout digits (point - 1)

-- The text of a number whose magnitude is given by some decimal for it.
def textBy (layout : Layout)
    (decimal : Fin 2047 → Fin 4503599627370496 → Nat × Int) : Binary64 → String
  | .nan => layout.nan
  | .infinite negative => if negative then "-" ++ layout.infinite else layout.infinite
  | .finite negative exponent fraction =>
    let shown :=
      if significand exponent fraction = 0 then ['0', '.', '0']
      else
        let (value, places) := decimal exponent fraction
        layout.chars value places
    String.ofList (if negative then '-' :: shown else shown)

-- The text of a number with the fewest digits that read back as the same number.
def textWith (layout : Layout) (x : Binary64) : String := textBy layout shortestDigits x

def text (x : Binary64) : String := textWith plainLayout x

-- A magnitude rounded to a number of digits.
def roundedDigits (count : Nat) (exponent : Fin 2047) (fraction : Fin 4503599627370496) :
    Nat × Int :=
  let (n, d) := quotient exponent fraction
  let places : Int := (count : Int) - decimalPoint n d
  let (n, d) := scaleDecimal n d places
  (divideToEven n d, places)

end Gleaner.Binary64
