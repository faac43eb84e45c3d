import Gleaner.Text.Basic
import Gleaner.Text.Quoted

namespace Gleaner

-- Why a text is no integer.
inductive IntegerError
  | malformed (text : String)
  | tooLong (digits : Nat)
deriving DecidableEq, Repr

namespace IntegerError

def message : IntegerError → String
  | malformed text => "invalid literal for int() with base 10: " ++ Text.quoted text
  | tooLong digits =>
    "Exceeds the limit (4300 digits) for integer string conversion: value has " ++
      Nat.repr digits ++ " digits; use sys.set_int_max_str_digits() to increase the limit"

end IntegerError

namespace Integer

def maximumDigits : Nat := 4300

-- Digits of any script with single low lines between them; the flag tells whether a digit comes
-- right before.
def digits? : List Char → Bool → List Nat → Option (List Nat)
  | [], afterDigit, acc => if afterDigit then some acc.reverse else none
  | c :: rest, afterDigit, acc =>
    if c = '_' then (if afterDigit then digits? rest false acc else none)
    else match Text.decimalValue? c with
      | some d => digits? rest true (d :: acc)
      | none => none

def ofDigits (ds : List Nat) : Nat := ds.foldl (fun n d => n * 10 + d) 0

def sign : List Char → Bool × List Char
  | '-' :: rest => (true, rest)
  | '+' :: rest => (false, rest)
  | cs => (false, cs)

-- Reads a decimal integer with blanks around it, an optional sign and single low lines between
-- digits.
def read (text : String) : Except IntegerError Int :=
  let (negative, cs) := sign (Text.trimChars Text.isBlank text.toList)
  match digits? cs false [] with
  | none => .error (.malformed text)
  | some ds =>
    if maximumDigits < ds.length then .error (.tooLong ds.length)
    else .ok (if negative then -(ofDigits ds : Int) else ofDigits ds)

end Integer

end Gleaner
