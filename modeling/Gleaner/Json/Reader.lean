import Gleaner.Value
import Gleaner.Number.Literal

namespace Gleaner.Json

-- What is wrong with a text that is no JSON.
inductive Problem
  | byteOrderMark
  | expectedValue
  | expectedName
  | expectedColon
  | expectedComma
  | extraData
  | unterminated
  | controlCharacter
  | escape
  | unicodeEscape
deriving DecidableEq, Repr

def Problem.message : Problem → String
  | byteOrderMark => "Unexpected UTF-8 BOM (decode using utf-8-sig)"
  | expectedValue => "Expecting value"
  | expectedName => "Expecting property name enclosed in double quotes"
  | expectedColon => "Expecting ':' delimiter"
  | expectedComma => "Expecting ',' delimiter"
  | extraData => "Extra data"
  | unterminated => "Unterminated string starting at"
  | controlCharacter => "Invalid control character at"
  | escape => "Invalid \\escape"
  | unicodeEscape => "Invalid \\uXXXX escape"

-- Why a text could not be read. A problem stands at a position of the text; objects are passed to
-- the caller as soon as they are complete, and the caller may refuse them with a cause of type `ε`.
inductive ReadError (ε : Type)
  | syntactic (problem : Problem) (position : Nat)
  | refused (cause : ε)

-- While reading, a problem is placed by the number of characters left.
inductive Failed (ε : Type)
  | syntactic (problem : Problem) (left : Nat)
  | refused (cause : ε)

def isSpace (c : Char) : Bool := c = ' ' || c = '\t' || c = '\n' || c = '\r'

def skipSpace (cs : List Char) : List Char := cs.dropWhile isSpace

def hexValue? (c : Char) : Option Nat :=
  if '0' ≤ c ∧ c ≤ '9' then some (c.toNat - 48)
  else if 'a' ≤ c ∧ c ≤ 'f' then some (c.toNat - 87)
  else if 'A' ≤ c ∧ c ≤ 'F' then some (c.toNat - 55)
  else none

def unit? (a b c d : Char) : Option Nat := do
  let a ← hexValue? a
  let b ← hexValue? b
  let c ← hexValue? c
  let d ← hexValue? d
  some (((a * 16 + b) * 16 + c) * 16 + d)

def isHighUnit (n : Nat) : Bool := 55296 ≤ n && n ≤ 56319

def isLowUnit (n : Nat) : Bool := 56320 ≤ n && n ≤ 57343

def joinUnits (high low : Nat) : Char :=
  Char.ofNat (65536 + (high - 55296) * 1024 + (low - 56320))

-- Half of a pair on its own is no character; the replacement character stands for it.
def unitChar (n : Nat) : Char := if isHighUnit n || isLowUnit n then '\ufffd' else Char.ofNat n

def plainEscape? : Char → Option Char
  | '"' => some '"'
  | '\\' => some '\\'
  | '/' => some '/'
  | 'b' => some '\x08'
  | 'f' => some '\x0c'
  | 'n' => some '\n'
  | 'r' => some '\r'
  | 't' => some '\t'
  | _ => none

-- Reads a string from behind its opening quote; `opening` is the number of characters left at
-- the quote. The characters read so far are in reverse order.
def readString {ε : Type} (opening : Nat) :
    List Char → List Char → Except (Failed ε) (String × List Char)
  | acc, '"' :: rest => .ok (String.ofList acc.reverse, rest)
  | acc, '\\' :: 'u' :: a :: b :: c :: d :: '\\' :: 'u' :: e :: f :: g :: h :: next :: rest =>
    match unit? a b c d with
    | none => .error (.syntactic .unicodeEscape (rest.length + 12))
    | some high =>
      if isHighUnit high then
        match unit? e f g h with
        | none => .error (.syntactic .unicodeEscape (rest.length + 6))
        | some low =>
          if isLowUnit low then readString opening (joinUnits high low :: acc) (next :: rest)
          else readString opening (unitChar high :: acc) ('\\' :: 'u' :: e :: f :: g :: h :: next :: rest)
      else readString opening (unitChar high :: acc) ('\\' :: 'u' :: e :: f :: g :: h :: next :: rest)
  | acc, '\\' :: 'u' :: a :: b :: c :: d :: next :: rest =>
    match unit? a b c d with
    | none => .error (.syntactic .unicodeEscape (rest.length + 6))
    | some n => readString opening (unitChar n :: acc) (next :: rest)
  | _, '\\' :: 'u' :: rest => .error (.syntactic .unicodeEscape (rest.length + 1))
  | acc, '\\' :: c :: rest =>
    match plainEscape? c with
    | some c => readString opening (c :: acc) rest
    | none => .error (.syntactic .escape (rest.length + 2))
  | _, ['\\'] => .error (.syntactic .unterminated opening)
  | acc, c :: rest =>
    if c.toNat < 32 then .error (.syntactic .controlCharacter (rest.length + 1))
    else readString opening (c :: acc) rest
  | _, [] => .error (.syntactic .unterminated opening)
termination_by _ cs => cs.length

def dropWord : List Char → List Char → Option (List Char)
  | [], cs => some cs
  | w :: ws, c :: cs => if w = c then dropWord ws cs else none
  | _ :: _, [] => none

-- The fraction and exponent of a number, each only where digits follow.
def readTail (cs : List Char) : List Nat × Option Int × List Char :=
  let (fraction, cs) := match cs with
    | '.' :: rest => match Binary64.takeDigits rest with
      | ([], _) => ([], cs)
      | (ds, tail) => (ds, tail)
    | _ => ([], cs)
  match cs with
  | c :: rest =>
    if c = 'e' ∨ c = 'E' then
      let (negative, digits) := Integer.sign rest
      match Binary64.takeDigits digits with
      | ([], _) => (fraction, none, cs)
      | (ds, tail) =>
        let n : Int := Integer.ofDigits ds
        (fraction, some (if negative then -n else n), tail)
    else (fraction, none, cs)
  | [] => (fraction, none, cs)

-- Reads a number from its first digit on. A zero in front ends the whole part.
def readNumber {ε : Type} (negative : Bool) (cs : List Char) :
    Except (Failed ε) (Value × List Char) :=
  let (whole, rest) := match cs with
    | '0' :: rest => ([0], rest)
    | _ => Binary64.takeDigits cs
  match readTail rest with
  | ([], none, rest) =>
    let n : Int := Integer.ofDigits whole
    .ok (.int (if negative then -n else n), rest)
  | (fraction, exponent, rest) =>
    .ok (.float ((⟨whole, fraction, exponent.getD 0⟩ : Binary64.Literal).toBinary64 negative), rest)

private def startsDigit : List Char → Bool
  | c :: _ => c.isDigit
  | [] => false

mutual

-- Reads one value. The allowance bounds the nesting: a list or an object inside another takes
-- two, and both begin with a character of their own.
def readValue {ε : Type} (accept : List (String × Value) → Except ε Value) :
    Nat → List Char → Except (Failed ε) (Value × List Char)
  | 0, cs => .error (.syntactic .expectedValue cs.length)
  | fuel + 1, cs =>
    match cs with
    | '"' :: rest => do
      let (s, rest) ← readString cs.length [] rest
      .ok (.text s, rest)
    | '{' :: rest =>
      match skipSpace rest with
      | '}' :: rest => finish accept [] rest
      | rest => readFields accept fuel [] rest
    | '[' :: rest =>
      match skipSpace rest with
      | ']' :: rest => .ok (.list [], rest)
      | rest => readItems accept fuel [] rest
    | '-' :: rest =>
      if startsDigit rest then readNumber true rest
      else match dropWord "Infinity".toList rest with
        | some rest => .ok (.float (.infinite true), rest)
        | none => .error (.syntactic .expectedValue cs.length)
    | _ =>
      if startsDigit cs then readNumber false cs
      else match dropWord "null".toList cs with
        | some rest => .ok (.null, rest)
        | none => match dropWord "true".toList cs with
          | some rest => .ok (.bool true, rest)
          | none => match dropWord "false".toList cs with
            | some rest => .ok (.bool false, rest)
            | none => match dropWord "NaN".toList cs with
              | some rest => .ok (.float .nan, rest)
              | none => match dropWord "Infinity".toList cs with
                | some rest => .ok (.float (.infinite false), rest)
                | none => .error (.syntactic .expectedValue cs.length)

-- Hands a complete object to the caller. Of fields with one name the last counts.
def finish {ε : Type} (accept : List (String × Value) → Except ε Value)
    (fields : List (String × Value)) (rest : List Char) :
    Except (Failed ε) (Value × List Char) :=
  match accept (Fields.ofPairs fields.reverse) with
  | .ok v => .ok (v, rest)
  | .error e => .error (.refused e)

def readItems {ε : Type} (accept : List (String × Value) → Except ε Value) :
    Nat → List Value → List Char → Except (Failed ε) (Value × List Char)
  | 0, _, cs => .error (.syntactic .expectedValue cs.length)
  | fuel + 1, acc, cs => do
    let (v, rest) ← readValue accept fuel cs
    match skipSpace rest with
    | ']' :: rest => .ok (.list (v :: acc).reverse, rest)
    | ',' :: rest => readItems accept fuel (v :: acc) (skipSpace rest)
    | rest => .error (.syntactic .expectedComma rest.length)

def readFields {ε : Type} (accept : List (String × Value) → Except ε Value) :
    Nat → List (String × Value) → List Char → Except (Failed ε) (Value × List Char)
  | 0, _, cs => .error (.syntactic .expectedValue cs.length)
  | fuel + 1, acc, cs =>
    match cs with
    | '"' :: rest => do
      let (name, rest) ← readString cs.length [] rest
      match skipSpace rest with
      | ':' :: rest =>
        let (v, rest) ← readValue accept fuel (skipSpace rest)
        match skipSpace rest with
        | '}' :: rest => finish accept ((name, v) :: acc) rest
        | ',' :: rest => readFields accept fuel ((name, v) :: acc) (skipSpace rest)
        | rest => .error (.syntactic .expectedComma rest.length)
      | rest => .error (.syntactic .expectedColon rest.length)
    | _ => .error (.syntactic .expectedName cs.length)

end

def place {ε : Type} (size : Nat) : Failed ε → ReadError ε
  | .syntactic problem left => .syntactic problem (size - left)
  | .refused cause => .refused cause

-- Reads a text that holds one value and nothing else but white space. Every object is replaced by
-- what the caller makes of its fields.
def readWith {ε : Type} (accept : List (String × Value) → Except ε Value) (text : String) :
    Except (ReadError ε) Value :=
  let cs := text.toList
  if cs.head? = some '\ufeff' then .error (.syntactic .byteOrderMark 0)
  else
    match readValue accept (2 * cs.length + 2) (skipSpace cs) with
    | .error e => .error (place cs.length e)
    | .ok (v, rest) =>
      match skipSpace rest with
      | [] => .ok v
      | rest => .error (.syntactic .extraData (cs.length - rest.length))

-- The line of a position, from 1.
def lineOf (text : String) (position : Nat) : Nat :=
  (text.toList.take position).count '\n' + 1

-- The column of a position, from 1.
def columnOf (text : String) (position : Nat) : Nat :=
  ((text.toList.take position).reverse.takeWhile (· ≠ '\n')).length + 1

def problemText (text : String) (problem : Problem) (position : Nat) : String :=
  problem.message ++ ": line " ++ toString (lineOf text position) ++ " column " ++
    toString (columnOf text position) ++ " (char " ++ toString position ++ ")"

def read (text : String) : Except (ReadError Empty) Value :=
  readWith (fun fields => .ok (.object fields)) text

end Gleaner.Json
