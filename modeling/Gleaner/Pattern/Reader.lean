import Gleaner.Pattern.Node
import Gleaner.Number.Integer
import Gleaner.Text.Alphanumeric

namespace Gleaner.Pattern

-- The unit of reading: a character, or a backslash with the character behind it.
inductive Token
  | plain (c : Char)
  | escaped (c : Char)
deriving DecidableEq, Repr

namespace Token

def chars : Token → List Char
  | plain c => [c]
  | escaped c => ['\\', c]

def text (t : Token) : String := String.ofList t.chars

def width (t : Token) : Nat := t.chars.length

end Token

-- How far a pattern has been read: the token to come, the index behind it, and what is known of
-- flags and groups. The width of a group is known once it is closed.
structure Reading where
  source : Array Char
  index : Nat := 0
  next : Option Token := none
  flags : Flags := {}
  widths : Array (Option Width) := #[none]
  names : List (String × Nat) := []
  lookbehindGroups : Option Nat := none
  references : List (Nat × Nat) := []

abbrev Read := StateT Reading (Except PatternError)

def Reading.tell (r : Reading) : Nat := r.index - (r.next.map Token.width).getD 0

def failAt {α : Type} (fault : Fault) (position : Option Nat) : Read α := do
  let r ← get
  throw ⟨fault, r.source.toList, position⟩

-- A fault some characters before the token to come.
def fail {α : Type} (fault : Fault) (back : Nat := 0) : Read α := do
  failAt fault (some ((← get).tell - back))

def tell : Read Nat := do return (← get).tell

-- Moves on by one token.
def advance : Read Unit := do
  let r ← get
  match r.source[r.index]? with
  | none => set { r with next := none }
  | some '\\' =>
    match r.source[r.index + 1]? with
    | none => failAt .escapeAtEnd (some (r.source.size - 1))
    | some c => set { r with index := r.index + 2, next := some (.escaped c) }
  | some c => set { r with index := r.index + 1, next := some (.plain c) }

def peek : Read (Option Token) := do return (← get).next

-- The token to come, which is passed.
def take : Read (Option Token) := do
  let t ← peek
  advance
  return t

-- Passes a character if it comes next.
def accept (c : Char) : Read Bool := do
  if (← peek) = some (.plain c) then
    advance
    return true
  else return false

-- Passes at most `n` characters of a kind.
def takeWhile (keep : Char → Bool) : Nat → Read (List Char)
  | 0 => return []
  | n + 1 => do
    match ← peek with
    | some (.plain c) =>
      if keep c then
        advance
        return c :: (← takeWhile keep n)
      else return []
    | _ => return []

def seek (index : Nat) : Read Unit := do
  modify fun r => { r with index := index }
  advance

-- The text up to a terminator, which is passed too.
def takeUntil (terminator : Char) (what : String) : Nat → List Char → Read (List Char)
  | 0, _ => fail (.missing what)
  | fuel + 1, acc => do
    match ← take with
    | none =>
      if acc.isEmpty then fail (.missing what)
      else fail (.unterminatedName (String.ofList [terminator])) acc.length
    | some t =>
      if t = .plain terminator then
        if acc.isEmpty then fail (.missing what) 1 else return acc
      else takeUntil terminator what fuel (acc ++ t.chars)

def nameUntil (terminator : Char) (what : String) : Read (List Char) := do
  takeUntil terminator what ((← get).source.size + 1) []

def isOctal (c : Char) : Bool := '0' ≤ c && c ≤ '7'

def isHex (c : Char) : Bool :=
  c.isDigit || ('a' ≤ c && c ≤ 'f') || ('A' ≤ c && c ≤ 'F')

def hexValue (cs : List Char) : Nat :=
  cs.foldl (fun n c =>
    let d := if c.isDigit then c.toNat - 48 else c.toLower.toNat - 87
    n * 16 + d) 0

def octalValue (cs : List Char) : Nat := cs.foldl (fun n c => n * 8 + (c.toNat - 48)) 0

def decimalValue (cs : List Char) : Nat := cs.foldl (fun n c => n * 10 + (c.toNat - 48)) 0

def category? : Char → Option SetItem
  | 'd' => some (.category .digit false)
  | 'D' => some (.category .digit true)
  | 's' => some (.category .space false)
  | 'S' => some (.category .space true)
  | 'w' => some (.category .word false)
  | 'W' => some (.category .word true)
  | _ => none

def controlEscape? : Char → Option Nat
  | 'a' => some 7
  | 'b' => some 8
  | 'f' => some 12
  | 'n' => some 10
  | 'r' => some 13
  | 't' => some 9
  | 'v' => some 11
  | '\\' => some 92
  | _ => none

private def shownEscape (cs : List Char) : String := String.ofList ('\\' :: cs)

-- An escape of an exact number of hexadecimal digits.
private def hexEscape (c : Char) (count : Nat) : Read Nat := do
  let ds ← takeWhile isHex count
  if ds.length < count then
    fail (.incompleteEscape (shownEscape (c :: ds))) (ds.length + 2)
  else if hexValue ds < 1114112 then return hexValue ds
  else fail (.badEscape (shownEscape (c :: ds))) (ds.length + 2)

private def namedEscape : Read Nat := do
  if !(← accept '{') then fail (.missing "\x7b")
  let name ← nameUntil '}' "character name"
  fail (.unknownCharacter (String.ofList name)) (name.length + 4)

-- Escapes that mean the same inside and outside of sets.
private def commonEscape? (c : Char) : Read (Option Nat) := do
  match c with
  | 'x' => return some (← hexEscape c 2)
  | 'u' => return some (← hexEscape c 4)
  | 'U' => return some (← hexEscape c 8)
  | 'N' => return some (← namedEscape)
  | _ => return none

private def plainEscape (c : Char) : Read Nat := do
  if c.isAlpha || c.isDigit then fail (.badEscape (shownEscape [c])) 2 else return c.toNat

-- An escape inside a set.
def setEscape (c : Char) : Read SetItem := do
  match controlEscape? c with
  | some code => return .char code
  | none =>
    match category? c with
    | some item => return item
    | none =>
      match ← commonEscape? c with
      | some code => return .char code
      | none =>
        if isOctal c then
          let ds := c :: (← takeWhile isOctal 2)
          if 255 < octalValue ds then fail (.octalRange (shownEscape ds)) (ds.length + 1)
          else return .char (octalValue ds)
        else return .char (← plainEscape c)

-- A group may be referred to once it is closed, and not from the lookbehind that holds it.
def checkGroup (index : Nat) : Read Bool := do
  return ((← get).widths[index]?.bind id).isSome

def checkLookbehind (index : Nat) : Read Unit := do
  match (← get).lookbehindGroups with
  | none => return ()
  | some limit =>
    if !(← checkGroup index) then fail .openGroup
    else if limit ≤ index then fail .lookbehindGroup

private def reference (digits : List Char) : Read Node := do
  let index := decimalValue digits
  if index < (← get).widths.size then
    if !(← checkGroup index) then fail .openGroup (digits.length + 1)
    checkLookbehind index
    return .reference index
  else fail (.groupReference index) digits.length

-- Digits behind a backslash: an octal code if there are three, otherwise a group.
private def numericEscape (c : Char) : Read Node := do
  if c = '0' then
    return .char (octalValue (c :: (← takeWhile isOctal 2)))
  match ← takeWhile Char.isDigit 1 with
  | [d] =>
    if isOctal c && isOctal d then
      match ← takeWhile isOctal 1 with
      | [e] =>
        let ds := [c, d, e]
        if 255 < octalValue ds then fail (.octalRange (shownEscape ds)) 4
        else return .char (octalValue ds)
      | _ => reference [c, d]
    else reference [c, d]
  | _ => reference [c]

-- An escape outside of sets.
def escape (c : Char) : Read Node := do
  match c with
  | 'A' => return .anchor .textStart
  | 'Z' => return .anchor .textEnd
  | 'b' => return .anchor .boundary
  | 'B' => return .anchor .notBoundary
  | _ =>
    match category? c with
    | some item => return .set false [item]
    | none =>
      match controlEscape? c with
      | some code => return .char code
      | none =>
        match ← commonEscape? c with
        | some code => return .char code
        | none => if c.isDigit then numericEscape c else return .char (← plainEscape c)

private def codeOf : SetItem → Option Nat
  | .char code => some code
  | _ => none

private def setMember (t : Token) : Read SetItem :=
  match t with
  | .plain c => return .char c.toNat
  | .escaped c => setEscape c

-- The members of a set up to its closing bracket; `here` is the position of the opening one.
def setItems (here : Nat) : Nat → List SetItem → Read (List SetItem)
  | 0, _ => failAt .unterminatedSet (some here)
  | fuel + 1, acc => do
    match ← take with
    | none => failAt .unterminatedSet (some here)
    | some this =>
      if this = .plain ']' && !acc.isEmpty then return acc.reverse
      let first ← setMember this
      if ← accept '-' then
        match ← take with
        | none => failAt .unterminatedSet (some here)
        | some (.plain ']') => return (.char 45 :: first :: acc).reverse
        | some that =>
          let last ← setMember that
          let bad : Fault := .badRange this.text that.text
          match codeOf first, codeOf last with
          | some low, some high =>
            if high < low then fail bad (this.width + 1 + that.width)
            else setItems here fuel (.range low high :: acc)
          | _, _ => fail bad (this.width + 1 + that.width)
      else setItems here fuel (first :: acc)

def repetitionLimit : Nat := 4294967295

-- The bounds in braces, or nothing when the brace stands for itself; `here` is the position
-- behind the brace.
def braces (here : Nat) : Read (Option (Nat × Option Nat)) := do
  if (← peek) = some (.plain '}') then return none
  let size := (← get).source.size
  let low ← takeWhile Char.isDigit size
  let high ← if ← accept ',' then takeWhile Char.isDigit size else pure low
  if !(← accept '}') then
    seek here
    return none
  if repetitionLimit ≤ decimalValue low || repetitionLimit ≤ decimalValue high then
    failAt .repetitionSize none
  let least := decimalValue low
  let greatest := if high.isEmpty then none else some (decimalValue high)
  match greatest with
  | some n => if n < least then failAt .repetitionOrder (some here)
  | none => pure ()
  return some (least, greatest)

private def flag? : Char → Option Flags
  | 'i' => some { ignoreCase := true }
  | 'm' => some { multiline := true }
  | 's' => some { dotAll := true }
  | 'x' => some { verbose := true }
  | 'a' => some { ascii := true }
  | 'u' => some { unicode := true }
  | 't' => some {}
  | 'L' => some {}
  | _ => none

def isFlag (t : Token) : Bool :=
  match t with
  | .plain c => (flag? c).isSome
  | .escaped _ => false

private def join (a b : Flags) : Flags :=
  ⟨a.ignoreCase || b.ignoreCase, a.multiline || b.multiline, a.dotAll || b.dotAll,
    a.verbose || b.verbose, a.ascii || b.ascii, a.unicode || b.unicode⟩

private def meet (a b : Flags) : Bool :=
  (a.ignoreCase && b.ignoreCase) || (a.multiline && b.multiline) || (a.dotAll && b.dotAll) ||
    (a.verbose && b.verbose)

private def badFlag {α : Type} (t : Token) (what : String) : Read α :=
  match t with
  | .plain c =>
    if Text.isAlphanumeric c && !Text.isDecimal c then fail .unknownFlag 1 else fail (.missing what) 1
  | .escaped _ => fail (.missing what) 2

-- Flags that are turned on, from the first one up to the character behind the last.
private def flagsOn : Nat → Flags → Char → Read (Flags × Char)
  | 0, _, _ => fail (.missing "-, : or )")
  | fuel + 1, acc, c => do
    if c = 'L' then fail .localeFlag
    let acc := join acc ((flag? c).getD {})
    if acc.ascii && acc.unicode then fail .classFlags
    match ← take with
    | none => fail (.missing "-, : or )")
    | some t =>
      match t with
      | .plain c =>
        if c = ')' || c = '-' || c = ':' then return (acc, c)
        else if isFlag t then flagsOn fuel acc c
        else badFlag t "-, : or )"
      | _ => badFlag t "-, : or )"

private def flagsOff : Nat → Flags → Char → Read Flags
  | 0, _, _ => fail (.missing ":")
  | fuel + 1, acc, c => do
    if c = 'a' || c = 'u' || c = 'L' then fail .classFlagsOff
    let acc := join acc ((flag? c).getD {})
    match ← take with
    | none => fail (.missing ":")
    | some t =>
      match t with
      | .plain c =>
        if c = ':' then return acc
        else if isFlag t then flagsOff fuel acc c
        else badFlag t ":"
      | _ => badFlag t ":"

-- Inline flags from their first character on. Those for the whole pattern are set at once and
-- give nothing back.
def inlineFlags (c : Char) : Read (Option (Flags × Flags)) := do
  let size := (← get).source.size
  let (add, stop) ← if c = '-' then pure (Flags.none, '-') else flagsOn (size + 1) {} c
  if stop = ')' then
    modify fun r => { r with flags := join r.flags add }
    return none
  if stop = ':' then return some (add, {})
  match ← take with
  | none => fail (.missing "flag")
  | some t =>
    match t with
    | .plain c =>
      if isFlag t then
        let drop ← flagsOff (size + 1) {} c
        if meet add drop then fail .flagOnAndOff 1
        return some (add, drop)
      else badFlag t "flag"
    | _ => badFlag t "flag"

private def isNameStart (c : Char) : Bool :=
  c = '_' || (Text.isAlphanumeric c && !Text.isDecimal c)

def isIdentifier : List Char → Bool
  | [] => false
  | c :: rest => isNameStart c && rest.all Text.isWord

def checkName (name : List Char) : Read Unit :=
  if isIdentifier name then return () else fail (.groupName (String.ofList name)) (name.length + 1)

def openGroup (name : Option (List Char)) : Read Nat := do
  let r ← get
  let index := r.widths.size
  let names ← match name with
    | none => pure r.names
    | some cs =>
      let s := String.ofList cs
      match r.names.find? (·.1 = s) with
      | some (_, previous) => fail (.redefinedGroup s index previous) (cs.length + 1)
      | none => pure ((s, index) :: r.names)
  set { r with widths := r.widths.push none, names := names }
  return index

namespace Width

def zero : Width := ⟨0, some 0⟩

def add (a b : Width) : Width := ⟨a.least + b.least, do some ((← a.greatest) + (← b.greatest))⟩

def either (a b : Width) : Width :=
  ⟨min a.least b.least, do some (max (← a.greatest) (← b.greatest))⟩

def times (w : Width) (least : Nat) (greatest : Option Nat) : Width :=
  ⟨w.least * least,
    match w.greatest, greatest with
    | some 0, _ => some 0
    | some n, some m => some (n * m)
    | _, _ => none⟩

def isFixed (w : Width) : Bool := w.greatest = some w.least

end Width

mutual

def Node.width (groups : Array (Option Width)) : Node → Width
  | .char _ => ⟨1, some 1⟩
  | .any => ⟨1, some 1⟩
  | .set .. => ⟨1, some 1⟩
  | .group _ body => body.width groups
  | .scoped _ _ body => body.width groups
  | .atomic body => body.width groups
  | .reference index => (groups[index]?.bind id).getD .zero
  | .conditional _ present absent => (present.width groups).either (absent.width groups)
  | .repetition _ least greatest body => (body.width groups).times least greatest
  | .sequence items => sequenceWidth groups items
  | .choice items => choiceWidth groups items
  | _ => .zero

def sequenceWidth (groups : Array (Option Width)) : List Node → Width
  | [] => .zero
  | n :: rest => (n.width groups).add (sequenceWidth groups rest)

def choiceWidth (groups : Array (Option Width)) : List Node → Width
  | [] => .zero
  | [n] => n.width groups
  | n :: rest => (n.width groups).either (choiceWidth groups rest)

end

def closeGroup (index : Nat) (body : Node) : Read Unit :=
  modify fun r => { r with widths := r.widths.setIfInBounds index (some (body.width r.widths)) }

private def isBlank (c : Char) : Bool :=
  c = ' ' || c = '\t' || c = '\n' || c = '\r' || c = '\x0b' || c = '\x0c'

private def skipLine : Nat → Read Unit
  | 0 => return ()
  | fuel + 1 => do
    match ← take with
    | none => return ()
    | some (.plain '\n') => return ()
    | _ => skipLine fuel

private def skipComment (start : Nat) : Nat → Read Unit
  | 0 => return ()
  | fuel + 1 => do
    if (← peek).isNone then failAt .unterminatedComment (some start)
    if (← take) = some (.plain ')') then return () else skipComment start fuel

-- What the repetition of an item applies to; `here` is the position of the operator.
def repeated (here : Nat) (greed : Greed) (least : Nat) (greatest : Option Nat) :
    List Node → Read (List Node)
  | [] => failAt .nothingToRepeat (some here)
  | .anchor _ :: _ => failAt .nothingToRepeat (some here)
  | .repetition .. :: _ => failAt .multipleRepeat (some here)
  | item :: rest => return .repetition greed least greatest item :: rest

private def greed : Read Greed := do
  if ← accept '?' then return .lazy
  else if ← accept '+' then return .possessive
  else return .greedy

private def closing (start : Nat) : Read Unit := do
  if !(← accept ')') then failAt .unterminatedGroup (some start)

-- The group a condition asks for, by name or by number.
private def conditionGroup : Read Nat := do
  let name ← nameUntil ')' "group name"
  let shown := String.ofList name
  if isIdentifier name then
    match (← get).names.find? (·.1 = shown) with
    | some (_, index) => return index
    | none => fail (.unknownGroup shown) (name.length + 1)
  else
    match Integer.read shown with
    | .ok (.ofNat 0) => fail .groupNumber (name.length + 1)
    | .ok (.ofNat n) =>
      let position := (← tell) - name.length - 1
      modify fun r =>
        if r.references.any (·.1 = n) then r
        else { r with references := r.references ++ [(n, position)] }
      return n
    | _ => fail (.groupName shown) (name.length + 1)

-- What stands behind an opening parenthesis, once its kind is known.
inductive Opening
  | capture (name : Option (List Char))
  | plain
  | atomic
  | flags (add drop : Flags)
  | look (ahead negated : Bool)
  | condition
  | item (node : Option Node)

private def look (ahead : Bool) : Read Opening := do
  match ← take with
  | none => fail .unexpectedEnd
  | some (.plain '=') => return .look ahead false
  | some (.plain '!') => return .look ahead true
  | some t => fail (.unknownExtension ("<" ++ t.text)) (t.width + 2)

private def namedOpening : Read Opening := do
  if ← accept '<' then
    let name ← nameUntil '>' "group name"
    checkName name
    return .capture (some name)
  else if ← accept '=' then
    let name ← nameUntil ')' "group name"
    checkName name
    let shown := String.ofList name
    match (← get).names.find? (·.1 = shown) with
    | none => fail (.unknownGroup shown) (name.length + 1)
    | some (_, index) =>
      if !(← checkGroup index) then fail .openGroup (name.length + 1)
      checkLookbehind index
      return .item (some (.reference index))
  else
    match ← take with
    | none => fail .unexpectedEnd
    | some t => fail (.unknownExtension ("P" ++ t.text)) (t.width + 2)

-- The kind of a parenthesis; `start` is its position. Flags for the whole pattern have to stand
-- at its start.
def opening (start : Nat) (atStart : Bool) : Read Opening := do
  if !(← accept '?') then return .capture none
  match ← take with
  | none => fail .unexpectedEnd
  | some (.plain 'P') => namedOpening
  | some (.plain ':') => return .plain
  | some (.plain '#') =>
    skipComment start ((← get).source.size + 1)
    return .item none
  | some (.plain '=') => return .look true false
  | some (.plain '!') => return .look true true
  | some (.plain '<') => look false
  | some (.plain '(') => return .condition
  | some (.plain '>') => return .atomic
  | some t =>
    match t with
    | .plain c =>
      if c = '-' || isFlag t then
        match ← inlineFlags c with
        | none => if atStart then return .item none else failAt .globalFlags (some start)
        | some (add, drop) => return .flags add drop
      else fail (.unknownExtension t.text) (t.width + 1)
    | _ => fail (.unknownExtension t.text) (t.width + 1)

private def sequenceOf : List Node → Node
  | [n] => n
  | ns => .sequence ns

mutual

-- Alternatives up to a closing parenthesis or the end.
def readChoice : Nat → Bool → Bool → List Node → Read Node
  | 0, _, _, _ => fail .unterminatedGroup
  | fuel + 1, verbose, top, acc => do
    let items ← readSequence fuel verbose (top && acc.isEmpty) []
    let acc := .sequence items :: acc
    if ← accept '|' then
      let global := (← get).flags.verbose
      readChoice fuel (if top then global else verbose) top acc
    else
      match acc with
      | [n] => return n
      | _ => return .choice acc.reverse

-- Items up to a bar, a closing parenthesis or the end, in reverse order while reading.
def readSequence : Nat → Bool → Bool → List Node → Read (List Node)
  | 0, _, _, _ => fail .unterminatedGroup
  | fuel + 1, verbose, first, acc => do
    match ← peek with
    | none => return acc.reverse
    | some (.plain '|') => return acc.reverse
    | some (.plain ')') => return acc.reverse
    | some this =>
      advance
      match this with
      | .escaped c =>
        let n ← escape c
        readSequence fuel verbose first (n :: acc)
      | .plain c =>
        if verbose && isBlank c then readSequence fuel verbose first acc
        else if verbose && c = '#' then
          skipLine ((← get).source.size + 1)
          readSequence fuel verbose first acc
        else
          let size := (← get).source.size
          match c with
          | '.' => readSequence fuel verbose first (.any :: acc)
          | '^' => readSequence fuel verbose first (.anchor .start :: acc)
          | '$' => readSequence fuel verbose first (.anchor .stop :: acc)
          | '[' =>
            let here := (← tell) - 1
            let negated ← accept '^'
            let items ← setItems here (size + 1) []
            readSequence fuel verbose first (.set negated items :: acc)
          | '*' =>
            let here := (← tell) - 1
            let acc ← repeatLast here 0 none acc
            readSequence fuel verbose first acc
          | '+' =>
            let here := (← tell) - 1
            let acc ← repeatLast here 1 none acc
            readSequence fuel verbose first acc
          | '?' =>
            let here := (← tell) - 1
            let acc ← repeatLast here 0 (some 1) acc
            readSequence fuel verbose first acc
          | '{' =>
            let here ← tell
            match ← braces here with
            | none => readSequence fuel verbose first (.char c.toNat :: acc)
            | some (least, greatest) =>
              let acc ← repeatLast (here - 1) least greatest acc
              readSequence fuel verbose first acc
          | '(' =>
            let start := (← tell) - 1
            match ← opening start (first && acc.isEmpty) with
            | .item none =>
              let global := (← get).flags.verbose
              readSequence fuel (verbose || (first && acc.isEmpty && global)) first acc
            | .item (some n) => readSequence fuel verbose first (n :: acc)
            | kind =>
              let n ← readGroup fuel verbose start kind
              readSequence fuel verbose first (n :: acc)
          | _ => readSequence fuel verbose first (.char c.toNat :: acc)

-- The last item repeated; the operator may be followed by a mark of its greed.
def repeatLast (here least : Nat) (greatest : Option Nat) (acc : List Node) : Read (List Node) := do
  let _ ← repeated here .greedy least greatest acc
  let g ← greed
  repeated here g least greatest acc

-- The inside of a parenthesis and its end.
def readGroup : Nat → Bool → Nat → Opening → Read Node
  | 0, _, start, _ => failAt .unterminatedGroup (some start)
  | fuel + 1, verbose, start, kind => do
    match kind with
    | .capture name =>
      let index ← openGroup name
      let body ← readChoice fuel verbose false []
      closing start
      closeGroup index body
      return .group index body
    | .plain =>
      let body ← readChoice fuel verbose false []
      closing start
      return .scoped {} {} body
    | .atomic =>
      let body ← readChoice fuel verbose false []
      closing start
      return .atomic body
    | .flags add drop =>
      let body ← readChoice fuel ((verbose || add.verbose) && !drop.verbose) false []
      closing start
      return .scoped add drop body
    | .look true negated =>
      let body ← readChoice fuel verbose false []
      closing start
      return .lookAhead negated body
    | .look false negated =>
      let outer := (← get).lookbehindGroups
      modify fun r => { r with lookbehindGroups := some (outer.getD r.widths.size) }
      let body ← readChoice fuel verbose false []
      modify fun r => { r with lookbehindGroups := outer }
      closing start
      return .lookBehind negated (body.width (← get).widths) body
    | .condition =>
      let index ← conditionGroup
      checkLookbehind index
      let present ← readSequence fuel verbose false []
      let hasAbsent ← accept '|'
      let absent ← if hasAbsent then readSequence fuel verbose false [] else pure []
      if hasAbsent && (← peek) = some (.plain '|') then fail .conditionalBranches
      closing start
      return .conditional index (.sequence present) (.sequence absent)
    | .item n => return n.getD (.sequence [])

end

mutual

-- Whether every lookbehind has one width.
def Node.lookbehindsFixed : Node → Bool
  | .lookBehind _ width body => width.isFixed && body.lookbehindsFixed
  | .group _ body => body.lookbehindsFixed
  | .scoped _ _ body => body.lookbehindsFixed
  | .atomic body => body.lookbehindsFixed
  | .lookAhead _ body => body.lookbehindsFixed
  | .conditional _ present absent => present.lookbehindsFixed && absent.lookbehindsFixed
  | .repetition _ _ _ body => body.lookbehindsFixed
  | .sequence items => allFixed items
  | .choice items => allFixed items
  | _ => true

def allFixed : List Node → Bool
  | [] => true
  | n :: rest => n.lookbehindsFixed && allFixed rest

end

private def readWhole : Read Node := do
  advance
  let n ← readChoice (6 * (← get).source.size + 6) (← get).flags.verbose true []
  let r ← get
  if r.flags.ascii && r.flags.unicode then failAt .mixedClasses none
  if r.next.isSome then fail .unbalanced
  match r.references.find? fun (index, _) => r.widths.size ≤ index with
  | some (index, position) => failAt (.groupReference index) (some position)
  | none => pure ()
  if !n.lookbehindsFixed then failAt .lookbehindWidth none
  return n

-- Reads a pattern. The flags it sets for itself are added to the given ones.
def read (source : List Char) (flags : Flags) : Except PatternError (Node × Flags) := do
  let (n, r) ← (readWhole.run { source := source.toArray, flags := flags })
  return (n, r.flags)

end Gleaner.Pattern
