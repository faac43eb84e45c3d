import Gleaner.Sql.Name

namespace Gleaner.Sql

-- The words of an expression. A name in quotes is kept apart from one without.
inductive Token
  | word (name : String)
  | quoted (name : String) (shown : String)
  | string (content : String) (shown : String)
  | number (shown : String)
  | symbol (shown : String)
  | illegal (shown : String)
deriving DecidableEq, Repr

def Token.shown : Token → String
  | word name => name
  | quoted _ shown => shown
  | string _ shown => shown
  | number shown => shown
  | symbol shown => shown
  | illegal shown => shown

def isNameStart (c : Char) : Bool := c.isAlpha || c = '_' || 127 < c.toNat

def isNameChar (c : Char) : Bool := c.isAlphanum || c = '_' || c = '$' || 127 < c.toNat

-- Reads up to a closing mark; a doubled mark stands for itself. Nothing when there is no end.
def readQuoted (mark : Char) : List Char → Option (List Char × List Char)
  | [] => none
  | c :: rest =>
    if c = mark then
      match rest with
      | d :: more =>
        if d = mark then (readQuoted mark more).map fun p => (mark :: p.1, p.2) else some ([], rest)
      | [] => some ([], [])
    else (readQuoted mark rest).map fun p => (c :: p.1, p.2)

def readFraction (cs : List Char) : List Char × List Char :=
  match cs with
  | '.' :: more => ('.' :: (more.span Char.isDigit).1, (more.span Char.isDigit).2)
  | _ => ([], cs)

def readExponent (cs : List Char) : List Char × List Char :=
  match cs with
  | e :: more =>
    if e = 'e' ∨ e = 'E' then
      let (sign, tail) := match more with
        | '+' :: tail => (['+'], tail)
        | '-' :: tail => (['-'], tail)
        | _ => ([], more)
      let (ds, after) := tail.span Char.isDigit
      if ds.isEmpty then ([], cs) else (e :: sign ++ ds, after)
    else ([], cs)
  | [] => ([], [])

-- Digits, a point and digits, and an exponent; then what follows.
def readNumber (cs : List Char) : List Char × List Char :=
  let (whole, rest) := cs.span Char.isDigit
  let (fraction, rest) := readFraction rest
  let (exponent, rest) := readExponent rest
  (whole ++ fraction ++ exponent, rest)

def symbols : List String :=
  ["<=", "<>", "<<", ">=", ">>", "==", "!=", "||", "<", ">", "=", "(", ")", ",", ".", "-", "+", "*",
    "/", "%", "|", "&", "~", ";"]

def symbol? (cs : List Char) : Option (String × List Char) :=
  (symbols.find? fun s => s.toList.isPrefixOf cs).map fun s => (s, cs.drop s.length)

def shownPart (cs rest : List Char) : String :=
  String.ofList (cs.take (cs.length - rest.length))

-- The first word of a text that does not begin with white space, and the rest.
def nextToken (cs : List Char) : Token × List Char :=
  match cs with
  | [] => (.illegal "", [])
  | c :: rest =>
    if isNameStart c then
      (.word (String.ofList (cs.takeWhile isNameChar)), cs.dropWhile isNameChar)
    else if c.isDigit || (c = '.' && rest.head?.any Char.isDigit) then
      let (number, after) := readNumber cs
      if after.head?.any isNameChar then
        let shown := number ++ after.takeWhile isNameChar
        (.illegal (String.ofList shown), after.dropWhile isNameChar)
      else (.number (String.ofList number), after)
    else if c = '\'' then
      match readQuoted c rest with
      | some (content, after) => (.string (String.ofList content) (shownPart cs after), after)
      | none => (.illegal (String.ofList cs), [])
    else if c = '"' || c = '\x60' then
      match readQuoted c rest with
      | some (content, after) => (.quoted (String.ofList content) (shownPart cs after), after)
      | none => (.illegal (String.ofList cs), [])
    else if c = '[' && rest.contains ']' then
      let after := (rest.dropWhile (· ≠ ']')).drop 1
      (.quoted (String.ofList (rest.takeWhile (· ≠ ']'))) (shownPart cs after), after)
    else match symbol? cs with
      | some (s, after) => (.symbol s, after)
      | none => (.illegal (String.ofList [c]), rest)

-- The words of a text, up to one that is none.
def tokens : Nat → List Char → List Token
  | 0, _ => []
  | fuel + 1, cs =>
    match cs.dropWhile isSpace with
    | [] => []
    | c :: rest =>
      match nextToken (c :: rest) with
      | (.illegal shown, _) => [.illegal shown]
      | (t, after) => t :: tokens fuel after

def tokensOf (text : String) : List Token := tokens text.length text.toList

end Gleaner.Sql
