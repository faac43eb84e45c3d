namespace Gleaner.Text

-- Whether a number lies in one of the ranges, both ends included. The ranges are in increasing
-- order, so half of the remaining ones are dropped at each step.
def inRanges (ranges : Array (Nat × Nat)) (n : Nat) : Bool :=
  go ranges.size 0 ranges.size
where
  go : Nat → Nat → Nat → Bool
    | 0, _, _ => false
    | fuel + 1, low, high =>
      if low < high then
        let middle := (low + high) / 2
        match ranges[middle]? with
        | none => false
        | some (first, last) =>
          if n < first then go fuel low middle
          else if last < n then go fuel (middle + 1) high
          else true
      else false

-- The zeros of the decimal digits of all scripts; the nine other digits follow each of them.
private def zeroDigits : List Nat := [
  48, 1632, 1776, 1984, 2406, 2534, 2662, 2790, 2918, 3046, 3174, 3302, 3430, 3558, 3664, 3792,
  3872, 4160, 4240, 6112, 6160, 6470, 6608, 6784, 6800, 6992, 7088, 7232, 7248, 42528, 43216,
  43264, 43472, 43504, 43600, 44016, 65296, 66720, 68912, 69734, 69872, 69942, 70096, 70384,
  70736, 70864, 71248, 71360, 71472, 71904, 72016, 72784, 73040, 73120, 92768, 92864, 93008,
  120782, 120792, 120802, 120812, 120822, 123200, 123632, 125264, 130032]

-- The value of a decimal digit of any script.
def decimalValue? (c : Char) : Option Nat :=
  if '0' ≤ c ∧ c ≤ '9' then some (c.toNat - 48)
  else if c.toNat < 128 then none
  else (zeroDigits.find? fun z => z ≤ c.toNat && c.toNat ≤ z + 9).map (c.toNat - ·)

def isDecimal (c : Char) : Bool := (decimalValue? c).isSome

-- Characters that separate words: white space and the four ASCII separators.
def isBlank (c : Char) : Bool :=
  let n := c.toNat
  (9 ≤ n && n ≤ 13) || (28 ≤ n && n ≤ 32) || n == 133 || n == 160 || n == 5760 ||
    (8192 ≤ n && n ≤ 8202) || n == 8232 || n == 8233 || n == 8239 || n == 8287 || n == 12288

-- White space without the ASCII separators.
def isSpace (c : Char) : Bool := isBlank c && !(28 ≤ c.toNat && c.toNat ≤ 31)

def trimChars (drop : Char → Bool) (cs : List Char) : List Char :=
  ((cs.dropWhile drop).reverse.dropWhile drop).reverse

-- Drops blank characters at both ends.
def trim (s : String) : String := String.ofList (trimChars isBlank s.toList)

-- The part before the first occurrence of a character, and the part behind it if there is one.
def cut (c : Char) : List Char → List Char × Option (List Char)
  | [] => ([], none)
  | d :: rest =>
    if d = c then ([], some rest)
    else (d :: (cut c rest).1, (cut c rest).2)

-- The part before the last occurrence of a character, if there is one, and the part behind it.
def cutLast (c : Char) (cs : List Char) : Option (List Char) × List Char :=
  let (tail, head) := cut c cs.reverse
  (head.map List.reverse, tail.reverse)

-- The parts between the occurrences of a character.
def pieces (c : Char) : List Char → List (List Char)
  | [] => [[]]
  | d :: rest =>
    if d = c then [] :: pieces c rest
    else match pieces c rest with
      | [] => [[d]]
      | p :: more => (d :: p) :: more

-- The text in which the first occurrence of a part is replaced; the empty part occurs at the start.
def replaceFirst (part value : List Char) : List Char → List Char
  | [] => if part = [] then value else []
  | c :: rest =>
    if part <+: c :: rest then value ++ (c :: rest).drop part.length
    else c :: replaceFirst part value rest

-- Decimal digits with zeros in front up to the given width.
def paddedChars (width n : Nat) : List Char :=
  let digits := Nat.toDigits 10 n
  List.replicate (width - digits.length) '0' ++ digits

def padded (width n : Nat) : String := String.ofList (paddedChars width n)

-- A line ends with a line feed, a carriage return, or both; all become line feeds.
def unifyNewlines : List Char → List Char
  | '\r' :: '\n' :: rest => '\n' :: unifyNewlines rest
  | '\r' :: rest => '\n' :: unifyNewlines rest
  | c :: rest => c :: unifyNewlines rest
  | [] => []

private def hexDigit? (c : Char) : Option Nat :=
  if c.isDigit then some (c.toNat - 48)
  else if 'a' ≤ c ∧ c ≤ 'f' then some (c.toNat - 87)
  else if 'A' ≤ c ∧ c ≤ 'F' then some (c.toNat - 55)
  else none

-- The byte that two digits stand for.
private def byte? (a b : Char) : Option UInt8 := do
  some (UInt8.ofNat ((← hexDigit? a) * 16 + (← hexDigit? b)))

private def bytes (c : Char) : List UInt8 := (String.singleton c).toUTF8.data.toList

-- A percent sign with two digits stands for a byte. Other percent signs stand for themselves.
def percentBytes : List Char → List UInt8
  | '%' :: a :: b :: rest =>
    match byte? a b with
    | some n => n :: percentBytes rest
    | none => bytes '%' ++ percentBytes (a :: b :: rest)
  | c :: rest => bytes c ++ percentBytes rest
  | [] => []

-- A text without its percent signs. It stays as it is if the bytes are no text.
def percentDecoded (s : String) : String :=
  (String.fromUTF8? ⟨(percentBytes s.toList).toArray⟩).getD s

end Gleaner.Text
