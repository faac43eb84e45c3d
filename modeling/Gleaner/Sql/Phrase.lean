import Gleaner.Sql.Error
import Gleaner.Sql.Token

namespace Gleaner.Sql

inductive Comparator
  | equal | unequal | less | lessEqual | greater | greaterEqual
deriving DecidableEq, Repr

-- The text of an expression put in order, before anything is worked out. The parts of a chain of
-- `AND` or `OR` stand side by side.
inductive Phrase
  | null
  | number (signed : Bool) (shown : String)
  | string (content : String)
  | name (path : List String) (inQuotes : Bool)
  | call (function : String) (arguments : List Phrase)
  | negative (p : Phrase)
  | compare (op : Comparator) (left right : Phrase)
  | like (negated : Bool) (left pattern : Phrase)
  | member (negated : Bool) (left : Phrase) (items : List Phrase)
  | range (negated : Bool) (left low high : Phrase)
  | isNull (negated : Bool) (p : Phrase)
  | not (p : Phrase)
  | all (parts : List Phrase)
  | any (parts : List Phrase)
deriving Repr, Inhabited

-- A chain of one part is that part.
def Phrase.allOf : List Phrase → Phrase
  | [p] => p
  | ps => .all ps

def Phrase.anyOf : List Phrase → Phrase
  | [p] => p
  | ps => .any ps

-- Words that are never names.
def keywords : List String := [
  "add", "all", "alter", "and", "as", "autoincrement", "between", "case", "check", "collate",
  "commit", "constraint", "create", "default", "deferrable", "delete", "distinct", "drop",
  "else", "escape", "except", "exists", "foreign", "from", "group", "having", "in", "index",
  "insert", "intersect", "into", "is", "isnull", "join", "limit", "not", "nothing", "notnull",
  "null", "on", "or", "order", "primary", "references", "returning", "select", "set", "table",
  "then", "to", "transaction", "union", "unique", "update", "using", "values", "when", "where"]

def lowerAscii (s : String) : String := String.ofList (s.toList.map Char.toLower)

def isKeyword (name : String) : Bool := keywords.contains (lowerAscii name)

-- Words that begin an expression of their own kind, though they may be the name of a function or
-- stand behind a point. Three of them ask for the time, which is not given here.
def openings : List String := ["cast", "raise", "current_date", "current_time", "current_timestamp"]

def isOpening (name : String) : Bool := openings.contains (lowerAscii name)

def isWord (name : String) : Token → Bool
  | .word w => lowerAscii w == name
  | _ => false

-- What is wrong where a word cannot stand.
def unexpected : List Token → Error
  | [] => .incomplete
  | .illegal shown :: _ => .unrecognized shown
  | t :: _ => .near t.shown

def expect (shown : String) : List Token → Except Error (Unit × List Token)
  | .symbol s :: rest => if s = shown then .ok ((), rest) else .error (unexpected (.symbol s :: rest))
  | ts => .error (unexpected ts)

def expectWord (name : String) : List Token → Except Error (Unit × List Token)
  | t :: rest => if isWord name t then .ok ((), rest) else .error (unexpected (t :: rest))
  | [] => .error .incomplete

-- Further parts of a name, each behind a point.
def readPath : Nat → List Token → Except Error (List String × List Token)
  | 0, ts => .ok ([], ts)
  | fuel + 1, .symbol "." :: ts =>
    match ts with
    | .word w :: rest =>
      if isKeyword w then .error (unexpected ts)
      else do
        let (path, rest) ← readPath fuel rest
        .ok (w :: path, rest)
    | .quoted w _ :: rest => do
      let (path, rest) ← readPath fuel rest
      .ok (w :: path, rest)
    | _ => .error (unexpected ts)
  | _, ts => .ok ([], ts)

def comparator? : String → Option Comparator
  | "<" => some .less
  | "<=" => some .lessEqual
  | ">" => some .greater
  | ">=" => some .greaterEqual
  | _ => none

def equality? : String → Option Comparator
  | "=" => some .equal
  | "==" => some .equal
  | "!=" => some .unequal
  | "<>" => some .unequal
  | _ => none

-- `OR` binds loosest, then `AND`, then `NOT`, then equality with its relatives, then the order.
mutual

def readDisjunction : Nat → List Token → Except Error (Phrase × List Token)
  | 0, _ => .error .incomplete
  | fuel + 1, ts => do
    let (ps, ts) ← readDisjuncts fuel ts
    .ok (.anyOf ps, ts)

def readDisjuncts : Nat → List Token → Except Error (List Phrase × List Token)
  | 0, _ => .error .incomplete
  | fuel + 1, ts => do
    let (p, ts) ← readConjunction fuel ts
    match ts with
    | t :: rest =>
      if isWord "or" t then do
        let (ps, rest) ← readDisjuncts fuel rest
        .ok (p :: ps, rest)
      else .ok ([p], ts)
    | [] => .ok ([p], ts)

def readConjunction : Nat → List Token → Except Error (Phrase × List Token)
  | 0, _ => .error .incomplete
  | fuel + 1, ts => do
    let (ps, ts) ← readConjuncts fuel ts
    .ok (.allOf ps, ts)

def readConjuncts : Nat → List Token → Except Error (List Phrase × List Token)
  | 0, _ => .error .incomplete
  | fuel + 1, ts => do
    let (p, ts) ← readNegation fuel ts
    match ts with
    | t :: rest =>
      if isWord "and" t then do
        let (ps, rest) ← readConjuncts fuel rest
        .ok (p :: ps, rest)
      else .ok ([p], ts)
    | [] => .ok ([p], ts)

def readNegation : Nat → List Token → Except Error (Phrase × List Token)
  | 0, _ => .error .incomplete
  | fuel + 1, ts =>
    match ts with
    | t :: rest =>
      if isWord "not" t then do
        let (p, rest) ← readNegation fuel rest
        .ok (.not p, rest)
      else readEquality fuel ts
    | [] => .error .incomplete

def readEquality : Nat → List Token → Except Error (Phrase × List Token)
  | 0, _ => .error .incomplete
  | fuel + 1, ts => do
    let (p, ts) ← readOrder fuel ts
    moreEquality fuel p ts

-- Equality, membership, patterns, ranges and tests for null, one after the other.
def moreEquality : Nat → Phrase → List Token → Except Error (Phrase × List Token)
  | 0, _, _ => .error .incomplete
  | fuel + 1, left, ts =>
    match ts with
    | .symbol s :: rest =>
      match equality? s with
      | some op => do
        let (right, rest) ← readOrder fuel rest
        moreEquality fuel (.compare op left right) rest
      | none => .ok (left, ts)
    | t :: rest =>
      if isWord "is" t then
        match rest with
        | n :: null :: more =>
          if isWord "not" n && isWord "null" null then
            moreEquality fuel (.isNull true left) more
          else if isWord "null" n then moreEquality fuel (.isNull false left) (null :: more)
          else .error (unexpected rest)
        | [n] =>
          if isWord "null" n then moreEquality fuel (.isNull false left) []
          else .error (unexpected rest)
        | [] => .error .incomplete
      else if isWord "isnull" t then moreEquality fuel (.isNull false left) rest
      else if isWord "notnull" t then moreEquality fuel (.isNull true left) rest
      else if isWord "not" t then do
        let (p, rest) ← readRelation fuel true left rest
        moreEquality fuel p rest
      else if isWord "in" t || isWord "like" t || isWord "between" t then do
        let (p, rest) ← readRelation fuel false left ts
        moreEquality fuel p rest
      else .ok (left, ts)
    | [] => .ok (left, ts)

-- What may follow `NOT` behind an operand.
def readRelation : Nat → Bool → Phrase → List Token → Except Error (Phrase × List Token)
  | 0, _, _, _ => .error .incomplete
  | fuel + 1, negated, left, ts =>
    match ts with
    | t :: rest =>
      if isWord "in" t then do
        let ((), rest) ← expect "(" rest
        match rest with
        | .symbol ")" :: rest => .ok (.member negated left [], rest)
        | _ => do
          let (items, rest) ← readItems fuel rest
          let ((), rest) ← expect ")" rest
          .ok (.member negated left items, rest)
      else if isWord "like" t then do
        let (pattern, rest) ← readOrder fuel rest
        .ok (.like negated left pattern, rest)
      else if isWord "between" t then do
        let (low, rest) ← readOrder fuel rest
        let ((), rest) ← expectWord "and" rest
        let (high, rest) ← readOrder fuel rest
        .ok (.range negated left low high, rest)
      else if isWord "null" t && negated then .ok (.isNull true left, rest)
      else .error (unexpected ts)
    | [] => .error .incomplete

def readItems : Nat → List Token → Except Error (List Phrase × List Token)
  | 0, _ => .error .incomplete
  | fuel + 1, ts => do
    let (p, ts) ← readDisjunction fuel ts
    match ts with
    | .symbol "," :: rest => do
      let (ps, rest) ← readItems fuel rest
      .ok (p :: ps, rest)
    | _ => .ok ([p], ts)

def readOrder : Nat → List Token → Except Error (Phrase × List Token)
  | 0, _ => .error .incomplete
  | fuel + 1, ts => do
    let (p, ts) ← readOperand fuel ts
    moreOrder fuel p ts

def moreOrder : Nat → Phrase → List Token → Except Error (Phrase × List Token)
  | 0, _, _ => .error .incomplete
  | fuel + 1, left, ts =>
    match ts with
    | .symbol s :: rest =>
      match comparator? s with
      | some op => do
        let (right, rest) ← readOperand fuel rest
        moreOrder fuel (.compare op left right) rest
      | none => .ok (left, ts)
    | _ => .ok (left, ts)

def readOperand : Nat → List Token → Except Error (Phrase × List Token)
  | 0, _ => .error .incomplete
  | fuel + 1, ts =>
    match ts with
    | .number shown :: rest => .ok (.number false shown, rest)
    | .string content _ :: rest => .ok (.string content, rest)
    | .symbol "-" :: .number shown :: rest => .ok (.number true shown, rest)
    | .symbol "-" :: rest => do
      let (p, rest) ← readOperand fuel rest
      .ok (.negative p, rest)
    | .symbol "+" :: rest => readOperand fuel rest
    | .symbol "(" :: .word w :: rest => do
      if lowerAscii w = "select" then
        throw (unexpected (if rest.head?.any (isWord "not") then rest.drop 1 else rest))
      let (p, rest) ← readDisjunction fuel (.word w :: rest)
      let ((), rest) ← expect ")" rest
      .ok (p, rest)
    | .symbol "(" :: rest => do
      let (p, rest) ← readDisjunction fuel rest
      let ((), rest) ← expect ")" rest
      .ok (p, rest)
    | .quoted name _ :: rest => do
      let (path, rest) ← readPath fuel rest
      .ok (.name (name :: path) path.isEmpty, rest)
    | .word name :: .symbol "(" :: rest =>
      if isKeyword name then .error (unexpected (if lowerAscii name = "not" then rest else ts))
      else match rest with
        | .symbol ")" :: rest => .ok (.call name [], rest)
        | _ => do
          let (arguments, rest) ← readItems fuel rest
          let ((), rest) ← expect ")" rest
          .ok (.call name arguments, rest)
    | .word name :: rest =>
      match lowerAscii name with
      | "null" => .ok (.null, rest)
      | "case" => .error (unexpected rest)
      | "exists" => .error (unexpected rest)
      | _ =>
        if isOpening name then .error (unexpected rest)
        else if isKeyword name then .error (unexpected ts)
        else do
          let (path, rest) ← readPath fuel rest
          .ok (.name (name :: path) false, rest)
    | _ => .error (unexpected ts)

end

-- The readers have many rules; their equations are worked out here, once for all uses.
attribute [local simp] readDisjunction readDisjuncts readConjunction readConjuncts readNegation
  readEquality moreEquality readRelation readItems readOrder moreOrder readOperand

-- The phrase of a text. The whole text has to be read.
def Phrase.read (text : String) : Except Error Phrase := do
  let ts := tokensOf text
  let (p, rest) ← readDisjunction (8 * ts.length + 16) ts
  match rest with
  | [] => .ok p
  | ts => .error (unexpected ts)

end Gleaner.Sql
