import Gleaner.Text.Quoted

namespace Gleaner.Pattern

-- What changes the meaning of parts of a pattern.
structure Flags where
  ignoreCase : Bool := false
  multiline : Bool := false
  dotAll : Bool := false
  verbose : Bool := false
  ascii : Bool := false
  unicode : Bool := false
deriving DecidableEq, Repr, Inhabited

namespace Flags

def none : Flags := {}

-- The flags of a part that turns some on and some off. Of the flags for the character classes
-- only those turned on last remain.
def combine (base add drop : Flags) : Flags :=
  let classes := add.ascii || add.unicode
  { ignoreCase := (base.ignoreCase || add.ignoreCase) && !drop.ignoreCase
    multiline := (base.multiline || add.multiline) && !drop.multiline
    dotAll := (base.dotAll || add.dotAll) && !drop.dotAll
    verbose := (base.verbose || add.verbose) && !drop.verbose
    ascii := (base.ascii && !classes) || add.ascii
    unicode := (base.unicode && !classes) || add.unicode }

end Flags

inductive Category
  | digit
  | space
  | word
deriving DecidableEq, Repr

-- A member of a character set. Characters are given by code point.
inductive SetItem
  | char (code : Nat)
  | range (low high : Nat)
  | category (c : Category) (negated : Bool)
deriving DecidableEq, Repr

inductive Anchor
  | textStart
  | textEnd
  | start
  | stop
  | boundary
  | notBoundary
deriving DecidableEq, Repr

-- Whether a repetition tries many times first, few times first, or keeps what it took.
inductive Greed
  | greedy
  | lazy
  | possessive
deriving DecidableEq, Repr

-- The least and greatest number of characters a part can take; nothing stands for no bound.
structure Width where
  least : Nat
  greatest : Option Nat
deriving DecidableEq, Repr

-- A pattern. Groups are numbered from 1.
inductive Node
  | char (code : Nat)
  | any
  | set (negated : Bool) (items : List SetItem)
  | anchor (a : Anchor)
  | group (index : Nat) (body : Node)
  | scoped (add drop : Flags) (body : Node)
  | atomic (body : Node)
  | lookAhead (negated : Bool) (body : Node)
  | lookBehind (negated : Bool) (width : Width) (body : Node)
  | reference (index : Nat)
  | conditional (index : Nat) (present absent : Node)
  | repetition (greed : Greed) (least : Nat) (greatest : Option Nat) (body : Node)
  | sequence (items : List Node)
  | choice (items : List Node)
deriving Repr, Inhabited

-- What is wrong with the text of a pattern.
inductive Fault
  | escapeAtEnd
  | incompleteEscape (shown : String)
  | badEscape (shown : String)
  | octalRange (shown : String)
  | missing (what : String)
  | unterminatedName (terminator : String)
  | unknownCharacter (name : String)
  | openGroup
  | lookbehindGroup
  | groupReference (n : Nat)
  | unterminatedSet
  | badRange (low high : String)
  | repetitionSize
  | repetitionOrder
  | nothingToRepeat
  | multipleRepeat
  | unexpectedEnd
  | groupName (name : String)
  | unknownGroup (name : String)
  | redefinedGroup (name : String) (index previous : Nat)
  | unknownExtension (shown : String)
  | unterminatedComment
  | unterminatedGroup
  | groupNumber
  | conditionalBranches
  | unknownFlag
  | localeFlag
  | classFlags
  | classFlagsOff
  | globalFlags
  | flagOnAndOff
  | lookbehindWidth
  | unbalanced
  | mixedClasses
deriving DecidableEq, Repr

def Fault.message : Fault → String
  | escapeAtEnd => "bad escape (end of pattern)"
  | incompleteEscape shown => "incomplete escape " ++ shown
  | badEscape shown => "bad escape " ++ shown
  | octalRange shown => "octal escape value " ++ shown ++ " outside of range 0-0o377"
  | missing what => "missing " ++ what
  | unterminatedName terminator => "missing " ++ terminator ++ ", unterminated name"
  | unknownCharacter name => "undefined character name " ++ Text.quoted name
  | openGroup => "cannot refer to an open group"
  | lookbehindGroup => "cannot refer to group defined in the same lookbehind subpattern"
  | groupReference n => "invalid group reference " ++ toString n
  | unterminatedSet => "unterminated character set"
  | badRange low high => "bad character range " ++ low ++ "-" ++ high
  | repetitionSize => "the repetition number is too large"
  | repetitionOrder => "min repeat greater than max repeat"
  | nothingToRepeat => "nothing to repeat"
  | multipleRepeat => "multiple repeat"
  | unexpectedEnd => "unexpected end of pattern"
  | groupName name => "bad character in group name " ++ Text.quoted name
  | unknownGroup name => "unknown group name " ++ Text.quoted name
  | redefinedGroup name index previous =>
    "redefinition of group name " ++ Text.quoted name ++ " as group " ++ toString index ++
      "; was group " ++ toString previous
  | unknownExtension shown => "unknown extension ?" ++ shown
  | unterminatedComment => "missing ), unterminated comment"
  | unterminatedGroup => "missing ), unterminated subpattern"
  | groupNumber => "bad group number"
  | conditionalBranches => "conditional backref with more than two branches"
  | unknownFlag => "unknown flag"
  | localeFlag => "bad inline flags: cannot use 'L' flag with a str pattern"
  | classFlags => "bad inline flags: flags 'a', 'u' and 'L' are incompatible"
  | classFlagsOff => "bad inline flags: cannot turn off flags 'a', 'u' and 'L'"
  | globalFlags => "global flags not at the start of the expression"
  | flagOnAndOff => "bad inline flags: flag turned on and off"
  | lookbehindWidth => "look-behind requires fixed-width pattern"
  | unbalanced => "unbalanced parenthesis"
  | mixedClasses => "ASCII and UNICODE flags are incompatible"

-- A fault and its place in the text of the pattern; a few faults have none.
structure PatternError where
  fault : Fault
  source : List Char
  position : Option Nat
deriving DecidableEq, Repr

-- The name of a kind of fault.
def PatternError.kind (e : PatternError) : String :=
  match e.fault with
  | .repetitionSize => "OverflowError"
  | .mixedClasses => "ValueError"
  | _ => "error"

-- In a pattern of several lines the line and column are given too.
def PatternError.message (e : PatternError) : String :=
  match e.position with
  | none => e.fault.message
  | some p =>
    let before := e.source.take p
    let shown := e.fault.message ++ " at position " ++ toString p
    if e.source.contains '\n' then
      let column := (before.reverse.takeWhile (· ≠ '\n')).length + 1
      shown ++ " (line " ++ toString (before.count '\n' + 1) ++ ", column " ++ toString column ++ ")"
    else shown

end Gleaner.Pattern
