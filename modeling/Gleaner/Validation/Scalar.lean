import Gleaner.Number.Literal
import Gleaner.Text.Basic
import Gleaner.Time.Stamp
import Gleaner.Validation.Record

namespace Gleaner.Validation

def text : Value → Checked String
  | .text s => .valid s
  | _ => .fault .notText

def filledText (v : Value) : Checked String :=
  (text v).andThen fun s => if s = "" then .fault .emptyText else .valid s

-- A text of a given form; the form is shown as a pattern in the message.
def shapedText (pattern : String) (hasShape : List Char → Bool) (v : Value) : Checked String :=
  (text v).andThen fun s => if hasShape s.toList then .valid s else .fault (.mismatch pattern)

-- The digits of an integer in a text: single low lines may stand between them, and a point with
-- nothing but zeros may follow.
def integerDigits? (cs : List Char) : Option (List Nat) :=
  let whole := cs.takeWhile (· ≠ '.')
  let tail := (cs.dropWhile (· ≠ '.')).drop 1
  if tail.all (· = '0') ∧ whole.all (fun c => c.isDigit || c = '_') then
    Integer.digits? whole false []
  else none

def integerText? (s : String) : Option Int :=
  let (negative, cs) := Integer.sign (Text.trimChars Text.isSpace s.toList)
  (integerDigits? cs).map fun ds =>
    let n : Int := Integer.ofDigits ds
    if negative then -n else n

-- An integer, also as a truth value, as a number without a fraction or as text.
def integer : Value → Checked Int
  | .int n => .valid n
  | .bool b => .valid (if b then 1 else 0)
  | .float x =>
    if !x.isFinite then .fault .notFinite
    else match x.integer? with
      | some n => .valid n
      | none => .fault .fractional
  | .text s =>
    match integerText? s with
    | some n => .valid n
    | none => .fault .unreadableInteger
  | _ => .fault .notInteger

def atLeast (least : Int) (v : Value) : Checked Int :=
  (integer v).andThen fun n => if n < least then .fault (.below least) else .valid n

-- The upper bound is looked at first.
def between (least greatest : Int) (v : Value) : Checked Int :=
  (integer v).andThen fun n =>
    if greatest < n then .fault (.above greatest)
    else if n < least then .fault (.below least)
    else .valid n

def trueWords : List String := ["true", "t", "yes", "y", "on", "1"]

def falseWords : List String := ["false", "f", "no", "n", "off", "0"]

def truthOfInteger : Int → Checked Bool
  | 0 => .valid false
  | 1 => .valid true
  | _ => .fault .unreadableBoolean

-- A truth value, also as 0 or 1 or as a word in any case.
def boolean : Value → Checked Bool
  | .bool b => .valid b
  | .int n => truthOfInteger n
  | .float x =>
    match x.integer? with
    | some n => truthOfInteger n
    | none => .fault .notBoolean
  | .text s =>
    let word := String.ofList (s.toList.map Char.toLower)
    if trueWords.contains word then .valid true
    else if falseWords.contains word then .valid false
    else .fault .unreadableBoolean
  | _ => .fault .notBoolean

def hasDoubleLowLine : List Char → Bool
  | '_' :: '_' :: _ => true
  | _ :: rest => hasDoubleLowLine rest
  | [] => false

-- A number in a text, with blanks around it. Where it cannot be read as it stands, single low
-- lines inside it are dropped.
def numberText? (s : String) : Option Binary64 :=
  let cs := Text.trimChars Text.isSpace s.toList
  match Binary64.plain? cs with
  | some x => some x
  | none =>
    if cs.head? = some '_' ∨ cs.getLast? = some '_' ∨ hasDoubleLowLine cs then none
    else Binary64.plain? (cs.filter (· ≠ '_'))

-- A number, also as a truth value or as text.
def number : Value → Checked Binary64
  | .float x => .valid x
  | .int n =>
    let x := Binary64.ofInt n
    if x.isFinite then .valid x else .fault .notNumber
  | .bool b => .valid (Binary64.ofInt (if b then 1 else 0))
  | .text s =>
    match numberText? s with
    | some x => .valid x
    | none => .fault .unreadableNumber
  | _ => .fault .notNumber

-- A number that is not below zero; the not-a-number is let through.
def unsignedNumber (v : Value) : Checked Binary64 :=
  (number v).andThen fun x =>
    if x.compareInt? 0 = some .lt then .fault (.below 0) else .valid x

private def readable (cause : String → Cause) : Except StampError DateTime → Checked DateTime
  | .ok t => .valid t
  | .error e => .fault (cause e.reason)

-- A moment, also as a day, as text or as a number of seconds or milliseconds since 1970.
def moment : Value → Checked DateTime
  | .moment t => .valid t
  | .day d => .valid (.ofDate d)
  | .text s => readable .unreadableMoment (DateTime.Stamp.read s)
  | .int n => readable .impossibleMoment (DateTime.Stamp.ofNumber n 0)
  | .float x => readable .impossibleMoment (DateTime.Stamp.ofFloat x)
  | _ => .fault .notMoment

end Gleaner.Validation
