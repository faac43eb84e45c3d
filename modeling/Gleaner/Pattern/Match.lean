import Gleaner.Pattern.Node
import Gleaner.Text.Alphanumeric
import Gleaner.Text.Basic
import Gleaner.Text.Lowercase

namespace Gleaner.Pattern

-- Where a match stands: a position in the text and the last span of each group.
structure Place where
  position : Nat
  spans : List (Nat × Nat × Nat)
deriving Repr, DecidableEq

def Place.span? (p : Place) (group : Nat) : Option (Nat × Nat) :=
  (p.spans.find? (·.1 == group)).map (·.2)

-- A matcher tries the ways to go on from a place, in order, until what follows succeeds.
abbrev Matcher := Place → (Place → Option Place) → Option Place

def inCategory (ascii : Bool) (c : Char) : Category → Bool
  | .digit => if ascii then c.isDigit else Text.isDecimal c
  | .space =>
    if ascii then c = ' ' || (9 ≤ c.toNat && c.toNat ≤ 13) else Text.isBlank c
  | .word => if ascii then c = '_' || c.isAlphanum else Text.isWord c

-- The characters that count as a given one when case is ignored.
def caseClass (ascii : Bool) (c : Char) : List Char :=
  if ascii then
    let lower := c.toLower
    [lower, lower.toUpper]
  else
    let lowers := Text.caseTwins (Text.lowerChar c)
    lowers ++ lowers.flatMap Text.upperChars

def inItem (flags : Flags) (c : Char) : SetItem → Bool
  | .char code =>
    if flags.ignoreCase then (caseClass flags.ascii c).any (·.toNat == code) else c.toNat == code
  | .range low high =>
    if flags.ignoreCase then
      c.toNat == low || (low ≤ c.toNat && c.toNat ≤ high) ||
        (caseClass flags.ascii c).any fun d => low ≤ d.toNat && d.toNat ≤ high
    else low ≤ c.toNat && c.toNat ≤ high
  | .category category negated =>
    let lower := if flags.ignoreCase && !flags.ascii then Text.lowerChar c else c
    inCategory flags.ascii lower category != negated

def sameChar (flags : Flags) (a b : Char) : Bool :=
  if flags.ignoreCase then
    if flags.ascii then a.toLower == b.toLower else Text.lowerChar a == Text.lowerChar b
  else a == b

section

variable (text : Array Char)

def isWordAt (ascii : Bool) (i : Nat) : Bool :=
  match text[i]? with
  | some c => inCategory ascii c .word
  | none => false

def atBoundary (ascii : Bool) (i : Nat) : Bool :=
  isWordAt text ascii i != (i != 0 && isWordAt text ascii (i - 1))

-- In an empty text no position is a boundary and none is inside.
def holdsAt (flags : Flags) (i : Nat) : Anchor → Bool
  | .textStart => i == 0
  | .textEnd => i == text.size
  | .start => i == 0 || (flags.multiline && text[i - 1]? == some '\n')
  | .stop =>
    i == text.size || (i + 1 == text.size && text[i]? == some '\n') ||
      (flags.multiline && text[i]? == some '\n')
  | .boundary => text.size != 0 && atBoundary text flags.ascii i
  | .notBoundary => text.size != 0 && !atBoundary text flags.ascii i

-- Takes one character of a kind.
def one (keep : Char → Bool) : Matcher := fun p next =>
  match text[p.position]? with
  | some c => if keep c then next { p with position := p.position + 1 } else none
  | none => none

-- Repeats a part at least `least` times and then as often as the bound allows. A repetition that
-- takes no character is not tried twice at one position. The fuel is the number of characters left
-- beyond the least repetitions.
def repeatGreedy (part : Matcher) : Nat → Nat → Option Nat → Option Nat → Matcher
  | 0, _, _, _ => fun p next => next p
  | fuel + 1, least + 1, more, last => fun p next =>
    part p fun q => repeatGreedy part fuel least more last q next
  | fuel + 1, 0, more, last => fun p next =>
    if more = some 0 ∨ last = some p.position then next p
    else
      match part p fun q =>
          repeatGreedy part fuel 0 (more.map (· - 1)) (some p.position) q next with
      | some r => some r
      | none => next p

-- As above, but going on is tried before each further repetition.
def repeatLazy (part : Matcher) : Nat → Nat → Option Nat → Option Nat → Matcher
  | 0, _, _, _ => fun p next => next p
  | fuel + 1, least + 1, more, last => fun p next =>
    part p fun q => repeatLazy part fuel least more last q next
  | fuel + 1, 0, more, last => fun p next =>
    match next p with
    | some r => some r
    | none =>
      if more = some 0 ∨ last = some p.position then none
      else part p fun q =>
        repeatLazy part fuel 0 (more.map (· - 1)) (some p.position) q next

-- As above, but a repetition once made is never given back.
def repeatPossessive (part : Matcher) : Nat → Nat → Option Nat → Option Nat → Place → Option Place
  | 0, _, _, _, p => some p
  | fuel + 1, least + 1, more, last, p =>
    match part p some with
    | some q => repeatPossessive part fuel least more last q
    | none => none
  | fuel + 1, 0, more, last, p =>
    if more = some 0 ∨ last = some p.position then some p
    else
      match part p some with
      | some q => repeatPossessive part fuel 0 (more.map (· - 1)) (some p.position) q
      | none => some p

def takesSpan (flags : Flags) (start stop position : Nat) : Bool :=
  (List.range (stop - start)).all fun i =>
    match text[start + i]?, text[position + i]? with
    | some a, some b => sameChar flags a b
    | _, _ => false

mutual

-- The matcher of a pattern under the flags in force.
def Node.matcher (flags : Flags) : Node → Matcher
  | .char code => one text fun c => inItem flags c (.char code)
  | .any => one text fun c => flags.dotAll || c != '\n'
  | .set negated items => one text fun c => (items.any (inItem flags c)) != negated
  | .anchor a => fun p next => if holdsAt text flags p.position a then next p else none
  | .group index body => fun p next =>
    body.matcher flags p fun q =>
      next { q with spans := (index, p.position, q.position) :: q.spans.filter (·.1 != index) }
  | .scoped add drop body => body.matcher (flags.combine add drop)
  | .atomic body => fun p next =>
    match body.matcher flags p some with
    | some q => next q
    | none => none
  | .lookAhead negated body => fun p next =>
    match body.matcher flags p some with
    | some q => if negated then none else next { q with position := p.position }
    | none => if negated then next p else none
  | .lookBehind negated width body => fun p next =>
    if p.position < width.least then (if negated then next p else none)
    else
      match body.matcher flags { p with position := p.position - width.least } some with
      | some q => if negated then none else next { q with position := p.position }
      | none => if negated then next p else none
  | .reference index => fun p next =>
    match p.span? index with
    | none => none
    | some (start, stop) =>
      if takesSpan text flags start stop p.position then
        next { p with position := p.position + (stop - start) }
      else none
  | .conditional index present absent => fun p next =>
    if (p.span? index).isSome then present.matcher flags p next else absent.matcher flags p next
  | .repetition greed least greatest body => fun p next =>
    let part := body.matcher flags
    let fuel := least + (text.size - p.position) + 2
    let more := greatest.map (· - least)
    match greed with
    | .greedy => repeatGreedy part fuel least more none p next
    | .lazy => repeatLazy part fuel least more none p next
    | .possessive =>
      match repeatPossessive part fuel least more none p with
      | some q => next q
      | none => none
  | .sequence items => sequenceMatcher flags items
  | .choice items => choiceMatcher flags items

def sequenceMatcher (flags : Flags) : List Node → Matcher
  | [] => fun p next => next p
  | n :: rest => fun p next =>
    n.matcher flags p fun q => sequenceMatcher flags rest q next

def choiceMatcher (flags : Flags) : List Node → Matcher
  | [] => fun _ _ => none
  | n :: rest => fun p next =>
    match n.matcher flags p next with
    | some q => some q
    | none => choiceMatcher flags rest p next

end

-- The first match at or behind a position: where it starts and where it ends.
def searchFrom (n : Node) (flags : Flags) : Nat → Nat → Option (Nat × Place)
  | 0, _ => none
  | fuel + 1, start =>
    match n.matcher text flags ⟨start, []⟩ some with
    | some q => some (start, q)
    | none => searchFrom n flags fuel (start + 1)

def search (n : Node) (flags : Flags) : Option (Nat × Place) :=
  searchFrom text n flags (text.size + 1) 0

end

end Gleaner.Pattern
