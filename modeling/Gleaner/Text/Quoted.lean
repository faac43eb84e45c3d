import Gleaner.Text.Basic
import Gleaner.Text.Printable

namespace Gleaner.Text

def hexDigit (n : Nat) : Char := (Nat.toDigits 16 n).headD '0'

-- The last `width` hexadecimal digits of a number.
def hexChars : Nat → Nat → List Char
  | 0, _ => []
  | width + 1, n => hexChars width (n / 16) ++ [hexDigit (n % 16)]

-- The letter behind a backslash that stands for a line end or a tab.
def shortForm? : Char → Option Char
  | '\n' => some 'n'
  | '\r' => some 'r'
  | '\t' => some 't'
  | _ => none

-- A character given by its code point, with as many digits as it needs.
def codePointForm (c : Char) : List Char :=
  let n := c.toNat
  if n < 256 then '\\' :: 'x' :: hexChars 2 n
  else if n < 65536 then '\\' :: 'u' :: hexChars 4 n
  else '\\' :: 'U' :: hexChars 8 n

-- One character inside quotes: the quote and the backslash are escaped, line ends and tabs have
-- short forms, and a character that cannot be shown is given by its code point.
def quotedChar (quote c : Char) : List Char :=
  if c = quote ∨ c = '\\' then ['\\', c]
  else match shortForm? c with
    | some letter => ['\\', letter]
    | none => if isPrintable c then [c] else codePointForm c

-- A text in quotes: single ones, unless the text holds a single quote and no double one.
def quoted (s : String) : String :=
  let cs := s.toList
  let quote := if cs.contains '\'' ∧ !cs.contains '"' then '"' else '\''
  String.ofList (quote :: cs.flatMap (quotedChar quote) ++ [quote])

end Gleaner.Text
