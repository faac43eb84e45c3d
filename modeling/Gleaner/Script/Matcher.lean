import Gleaner.Document
import Gleaner.Pattern.Match
import Gleaner.Pattern.Reader
import Gleaner.Validation.Scalar

namespace Gleaner

open Validation

-- A regular expression and its flags as they are written down.
structure PatternSource where
  source : String
  flags : String := ""
deriving DecidableEq, Repr

-- What a text is compared with: a text it has to be, or a pattern that occurs in it.
inductive TextMatcher
  | exactly (text : String)
  | containing (pattern : PatternSource)
deriving DecidableEq, Repr

def PatternSource.check (v : Value) : Checked PatternSource :=
  model "SerializableRegex" v fun fields _ =>
    PatternSource.mk <$> required fields "source" text <*> optional fields "flags" "" text

def PatternSource.document (p : PatternSource) : Document :=
  .record [("source", .text p.source), ("flags", .text p.flags)]

def TextMatcher.check (v : Value) : Checked TextMatcher :=
  .firstOf [("str", .exactly <$> text v), ("SerializableRegex", .containing <$> PatternSource.check v)]

def TextMatcher.document : TextMatcher → Document
  | .exactly s => .text s
  | .containing p => p.document

-- Why a matcher cannot be used.
inductive MatcherError
  | flag (c : Char)
  | pattern (e : Pattern.PatternError)
deriving DecidableEq, Repr

def MatcherError.message : MatcherError → String
  | flag c => "Unsupported regular expression flag: " ++ String.ofList [c]
  | pattern e => e.message

-- Flags that have no meaning here but are let through.
def ignoredFlags : List Char := ['g', 'y', 'u', 'd']

def flagsOf : List Char → Except MatcherError Pattern.Flags
  | [] => .ok {}
  | c :: rest => do
    if c = 'i' then return { ← flagsOf rest with ignoreCase := true }
    else if c = 'm' then return { ← flagsOf rest with multiline := true }
    else if c = 's' then return { ← flagsOf rest with dotAll := true }
    else if ignoredFlags.contains c then flagsOf rest
    else .error (.flag c)

-- Whether a pattern occurs in a text.
def PatternSource.occursIn (p : PatternSource) (text : String) : Except MatcherError Bool := do
  let flags ← flagsOf p.flags.toList
  let (n, flags) ← (Pattern.read p.source.toList flags).mapError .pattern
  return (Pattern.search text.toList.toArray n flags).isSome

-- Whether a text fits. A pattern sees a missing text as the empty one; a missing text equals none.
def TextMatcher.test (m : TextMatcher) (text : Option String) : Except MatcherError Bool :=
  match m with
  | .exactly s => .ok (text = some s)
  | .containing p => p.occursIn (text.getD "")

end Gleaner
