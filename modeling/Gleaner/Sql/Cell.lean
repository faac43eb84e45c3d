import Gleaner.Number.Literal
import Gleaner.Number.Shortest
import Gleaner.Sql.Name

namespace Gleaner.Sql

-- What a table holds at one place. Integers have 64 bits.
inductive Cell
  | null
  | int (n : Int)
  | real (x : Binary64)
  | text (s : String)
deriving DecidableEq, Repr, Inhabited

-- What a column prefers to hold.
inductive Affinity
  | text
  | numeric
  | integer
  | real
  | none
deriving DecidableEq, Repr

def Affinity.isNumeric : Affinity → Bool
  | numeric => true
  | integer => true
  | real => true
  | _ => false

def leastInteger : Int := -9223372036854775808

def greatestInteger : Int := 9223372036854775807

def fitsInteger (n : Int) : Bool := leastInteger ≤ n && n ≤ greatestInteger

namespace Cell

-- Reals are written with 15 digits at most.
def realLayout : Binary64.Layout :=
  { lowest := -4, highest := 15, exponentDigits := 2, infinite := "Inf", nan := "", pointed := true }

-- Zero without its sign.
def unsignedZero (x : Binary64) : Binary64 := if x.integer? = some 0 then .ofInt 0 else x

def realText (x : Binary64) : String :=
  (unsignedZero x).textBy realLayout (Binary64.roundedDigits 15)

-- The text of a cell, nothing for null.
def text? : Cell → Option String
  | null => .none
  | int n => some (toString n)
  | real x => some (realText x)
  | text s => some s

def trimmed (s : String) : List Char :=
  ((s.toList.dropWhile isSpace).reverse.dropWhile isSpace).reverse

def unsigned (cs : List Char) : List Char :=
  match cs with
  | '+' :: rest => rest
  | '-' :: rest => rest
  | _ => cs

-- A real that is an integer strictly inside the range of integers becomes one.
def integral (x : Binary64) : Cell :=
  match x.integer? with
  | some n => if leastInteger < n ∧ n < greatestInteger then int n else real x
  | .none => real x

-- The number a text is written for, with blanks around it.
def number? (s : String) : Option Cell :=
  let cs := trimmed s
  let digits := unsigned cs
  let negative := cs.head? = some '-'
  match Binary64.literal? digits with
  | .none => .none
  | some l =>
    let x := l.toBinary64 negative
    if digits.all Char.isDigit then
      let n : Int := digits.foldl (fun n c => n * 10 + (c.toNat - 48 : Nat)) 0
      let n := if negative then -n else n
      some (if fitsInteger n then int n else real x)
    else some (real x)

-- What becomes of a cell that is put into a column.
def stored (a : Affinity) (c : Cell) : Cell :=
  match a, c with
  | .none, c => c
  | .text, int n => text (toString n)
  | .text, real x => text (realText x)
  | .text, c => c
  | .real, c =>
    match (match c with
      | text s => (number? s).getD c
      | c => c) with
    | int n => real (.ofInt n)
    | real x => real (unsignedZero x)
    | c => c
  | _, text s =>
    match number? s with
    | some (real x) => integral x
    | some c => c
    | .none => text s
  | _, real x => integral x
  | _, c => c

-- What becomes of a cell that is compared with something numeric, or with something textual.
def asNumber : Cell → Cell
  | text s => (number? s).getD (text s)
  | c => c

def asText : Cell → Cell
  | int n => text (toString n)
  | real x => text (realText x)
  | c => c

-- Both sides of a comparison: a numeric side makes the other one a number, a textual side makes
-- one that prefers nothing a text.
def aligned (left right : Affinity) (a b : Cell) : Cell × Cell :=
  if left.isNumeric || right.isNumeric then (asNumber a, asNumber b)
  else if left = .text ∨ right = .text then (asText a, asText b)
  else (a, b)

-- The order of two cells that are not null: numbers come before texts.
def compare? : Cell → Cell → Option Ordering
  | null, _ => .none
  | _, null => .none
  | int a, int b => some (compare a b)
  | int a, real y => (y.compareInt? a).map Ordering.swap
  | real x, int b => x.compareInt? b
  | real x, real y => x.compare? y
  | text a, text b => some (if a < b then .lt else if a = b then .eq else .gt)
  | text _, _ => some .gt
  | _, text _ => some .lt

-- The number a text begins with; a text that begins with none counts as zero.
def leadingNumber (s : String) : Cell :=
  let cs := s.toList.dropWhile isSpace
  let candidates := (List.range (cs.length + 1)).reverse.map fun n => String.ofList (cs.take n)
  (candidates.findSome? number?).getD (int 0)

-- A cell where a number is called for.
def counted : Cell → Cell
  | text s => leadingNumber s
  | c => c

def truth? (c : Cell) : Option Bool :=
  match c.counted with
  | int n => some (n ≠ 0)
  | real x => some (x.compareInt? 0 ≠ some .eq)
  | _ => .none

end Cell

end Gleaner.Sql
