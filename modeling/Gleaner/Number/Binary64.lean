namespace Gleaner

-- A binary64 number. A finite one is given by its three fields, so each number has one form:
-- with exponent 0 it is `fraction * 2^-1074`, otherwise `(2^52 + fraction) * 2^(exponent - 1075)`.
inductive Binary64
  | finite (negative : Bool) (exponent : Fin 2047) (fraction : Fin 4503599627370496)
  | infinite (negative : Bool)
  | nan
deriving DecidableEq, Repr, Inhabited

namespace Binary64

def zero : Binary64 := .finite false 0 0

-- The integer significand of a finite magnitude.
def significand (exponent : Fin 2047) (fraction : Fin 4503599627370496) : Nat :=
  if exponent.val = 0 then fraction.val else fraction.val + 4503599627370496

-- The power of two the significand is scaled by.
def scale (exponent : Fin 2047) : Int :=
  if exponent.val = 0 then -1074 else (exponent.val : Int) - 1075

-- A magnitude as an exact quotient of natural numbers.
def quotient (exponent : Fin 2047) (fraction : Fin 4503599627370496) : Nat × Nat :=
  let m := significand exponent fraction
  match scale exponent with
  | .ofNat n => (m * Nat.pow 2 n, 1)
  | .negSucc n => (m, Nat.pow 2 (n + 1))

-- Division to the nearest natural number; a half goes to the even neighbour.
def divideToEven (numerator denominator : Nat) : Nat :=
  let q := numerator / denominator
  let twice := 2 * (numerator % denominator)
  if twice < denominator then q
  else if denominator < twice then q + 1
  else if q % 2 = 0 then q else q + 1

-- Multiplies one side of a quotient by a power of two so that it is scaled by `2 ^ -shift`.
def scaleDown (numerator denominator : Nat) : Int → Nat × Nat
  | .ofNat n => (numerator, denominator * Nat.pow 2 n)
  | .negSucc n => (numerator * Nat.pow 2 (n + 1), denominator)

-- The power of two that leaves 53 bits before the point, and never less than the least one.
def roundingScale (numerator denominator : Nat) : Int :=
  let guess : Int := (Nat.log2 numerator : Int) - Nat.log2 denominator
  let (n, d) := scaleDown numerator denominator guess
  max (if n < d then guess - 53 else guess - 52) (-1074)

-- The magnitude nearest to a positive quotient, or nothing when it is too large.
def roundMagnitude (numerator denominator : Nat) :
    Option (Fin 2047 × Fin 4503599627370496) :=
  if numerator = 0 then some (0, 0)
  else
    let e := roundingScale numerator denominator
    let (n, d) := scaleDown numerator denominator e
    let q := divideToEven n d
    let (q, e) := if q = 9007199254740992 then (4503599627370496, e + 1) else (q, e)
    if q < 4503599627370496 then some (0, Fin.ofNat _ q)
    else if 971 < e then none
    else some (Fin.ofNat _ (e + 1075).toNat, Fin.ofNat _ (q - 4503599627370496))

-- The nearest number to a signed quotient; beyond the largest finite number, an infinity.
def ofQuotient (negative : Bool) (numerator denominator : Nat) : Binary64 :=
  match roundMagnitude numerator denominator with
  | some (exponent, fraction) => .finite negative exponent fraction
  | none => .infinite negative

def ofInt (n : Int) : Binary64 := ofQuotient (n < 0) n.natAbs 1

-- The number nearest to `digits * 10 ^ exponent`. Quotients far outside the range are decided by
-- the length of their digits alone, so that no huge power is computed.
def ofDecimal (negative : Bool) (digits : Nat) (exponent : Int) : Binary64 :=
  if digits = 0 then .finite negative 0 0
  else if 309 ≤ ((3 * Nat.log2 digits / 10 : Nat) : Int) + exponent then .infinite negative
  else if ((Nat.log2 digits / 3 + 1 : Nat) : Int) + exponent ≤ -324 then .finite negative 0 0
  else match exponent with
    | .ofNat n => ofQuotient negative (digits * Nat.pow 10 n) 1
    | .negSucc n => ofQuotient negative digits (Nat.pow 10 (n + 1))

def isFinite : Binary64 → Bool
  | .finite .. => true
  | _ => false

-- The integer a number is equal to, if it is one.
def integer? : Binary64 → Option Int
  | .finite negative exponent fraction =>
    let (n, d) := quotient exponent fraction
    if n % d = 0 then some (if negative then -((n / d : Nat) : Int) else (n / d : Nat)) else none
  | _ => none

-- A finite number as numerator and positive denominator.
def rational? : Binary64 → Option (Int × Nat)
  | .finite negative exponent fraction =>
    let (n, d) := quotient exponent fraction
    some (if negative then -(n : Int) else n, d)
  | _ => none

-- The order of two numbers; nothing compares with the not-a-number.
def compare? : Binary64 → Binary64 → Option Ordering
  | .nan, _ => none
  | _, .nan => none
  | .infinite a, .infinite b =>
    some (if a = b then .eq else if a then .lt else .gt)
  | .infinite a, .finite .. => some (if a then .lt else .gt)
  | .finite .., .infinite b => some (if b then .gt else .lt)
  | .finite sa ea fa, .finite sb eb fb =>
    let (na, da) := quotient ea fa
    let (nb, db) := quotient eb fb
    let a : Int := if sa then -(na * db : Nat) else (na * db : Nat)
    let b : Int := if sb then -(nb * da : Nat) else (nb * da : Nat)
    some (compare a b)

-- Exact comparison with an integer, without rounding the integer first.
def compareInt? : Binary64 → Int → Option Ordering
  | .nan, _ => none
  | .infinite negative, _ => some (if negative then .lt else .gt)
  | .finite negative exponent fraction, n =>
    let (m, d) := quotient exponent fraction
    let a : Int := if negative then -(m : Int) else m
    some (compare a (n * d))

-- The signed numerator of a quotient that is brought over the denominator of another one.
def crossed (negative : Bool) (p q : Nat × Nat) : Int :=
  if negative then -(p.1 * q.2 : Nat) else (p.1 * q.2 : Nat)

-- The number nearest to the difference of two numbers.
def minus : Binary64 → Binary64 → Binary64
  | .nan, _ | _, .nan => .nan
  | .infinite a, .infinite b => if a = b then .nan else .infinite a
  | .infinite a, .finite .. => .infinite a
  | .finite .., .infinite b => .infinite (!b)
  | .finite sa ea fa, .finite sb eb fb =>
    let p := quotient ea fa
    let q := quotient eb fb
    let a := crossed sa p q
    let b := crossed sb q p
    if a = b then .finite (sa && !sb) 0 0 else ofQuotient (a < b) (a - b).natAbs (p.2 * q.2)

-- The number nearest to a positive multiple of a number.
def scaledBy (factor : Nat) : Binary64 → Binary64
  | .finite negative exponent fraction =>
    let (n, d) := quotient exponent fraction
    ofQuotient negative (n * factor) d
  | x => x

def negate : Binary64 → Binary64
  | .finite negative exponent fraction => .finite (!negative) exponent fraction
  | .infinite negative => .infinite (!negative)
  | .nan => .nan

def isNegative : Binary64 → Bool
  | .finite negative .. => negative
  | .infinite negative => negative
  | .nan => false

end Binary64

end Gleaner
