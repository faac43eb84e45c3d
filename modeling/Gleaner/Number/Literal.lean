import Gleaner.Number.Binary64
import Gleaner.Number.Integer

namespace Gleaner.Binary64

-- A decimal literal taken apart: digits before and after the point, and the exponent.
structure Literal where
  whole : List Nat
  fraction : List Nat
  exponent : Int

-- A huge exponent is cut off; the result is an infinity or zero in any case.
def Literal.toBinary64 (negative : Bool) (l : Literal) : Binary64 :=
  ofDecimal negative (Integer.ofDigits (l.whole ++ l.fraction)) (l.exponent - l.fraction.length)

def takeDigits : List Char → List Nat × List Char
  | [] => ([], [])
  | c :: rest =>
    if '0' ≤ c ∧ c ≤ '9' then
      let (ds, tail) := takeDigits rest
      ((c.toNat - 48) :: ds, tail)
    else ([], c :: rest)

def exponent? (cs : List Char) : Option Int :=
  let (negative, cs) := Integer.sign cs
  match takeDigits cs with
  | ([], _) => none
  | (ds, []) => some (if negative then -(Integer.ofDigits ds : Int) else Integer.ofDigits ds)
  | _ => none

-- Digits with an optional point among them and an optional exponent behind.
def literal? (cs : List Char) : Option Literal :=
  let (whole, rest) := takeDigits cs
  let (fraction, rest) := match rest with
    | '.' :: rest => takeDigits rest
    | _ => ([], rest)
  if whole.isEmpty ∧ fraction.isEmpty then none
  else match rest with
    | [] => some ⟨whole, fraction, 0⟩
    | c :: rest =>
      if c = 'e' ∨ c = 'E' then (exponent? rest).map (⟨whole, fraction, ·⟩) else none

-- Low lines stand between two digits only.
def dropLowLines : Char → List Char → Option (List Char)
  | _, [] => some []
  | before, '_' :: c :: rest =>
    if before.isDigit ∧ c.isDigit then (dropLowLines c rest).map (c :: ·) else none
  | _, c :: rest => if c = '_' then none else (dropLowLines c rest).map (c :: ·)

-- A number with an optional sign, or a word for infinity or not-a-number in any case.
def plain? (cs : List Char) : Option Binary64 :=
  let (negative, cs) := Integer.sign cs
  let word := String.ofList (cs.map Char.toLower)
  if word = "inf" ∨ word = "infinity" then some (.infinite negative)
  else if word = "nan" then some .nan
  else (literal? cs).map (·.toBinary64 negative)

-- Reads a number as written by hand: blanks around it, a sign, single low lines between digits,
-- and the words for infinity and not-a-number.
def read? (text : String) : Option Binary64 :=
  (dropLowLines ' ' (Text.trimChars Text.isBlank text.toList)).bind plain?

end Gleaner.Binary64
