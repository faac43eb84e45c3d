import Gleaner.Script.Source
import Gleaner.Where.Filter

namespace Gleaner

open Validation

-- Whole numbers from `start` to `stop` by `step`, both ends included.
structure Bounds where
  start : Nat
  stop : Nat
  step : Option Nat
deriving DecidableEq, Repr

def Bounds.check (v : Value) : Checked Bounds :=
  model "ExecutionRange" v fun fields _ =>
    (Bounds.mk <$> (Int.toNat <$> required fields "start" (atLeast 1))
      <*> (Int.toNat <$> required fields "end" (atLeast 1))
      <*> optional fields "step" none (nullable fun v => Int.toNat <$> atLeast 1 v)).andThen
      fun b =>
        if b.stop < b.start then .fault (.refused "Start must be less than or equal to end")
        else .valid b

def Bounds.document (b : Bounds) : Document :=
  .record [("start", .int b.start), ("end", .int b.stop),
    ("step", .optional (fun n => .int n) b.step)]

-- The values a range runs over; a bare number stands for the range from 1 up to it.
inductive Span
  | bounds (b : Bounds)
  | upTo (n : Nat)
deriving DecidableEq, Repr

namespace Span

def check (v : Value) : Checked Span :=
  .firstOf [("ExecutionRange", bounds <$> Bounds.check v),
    ("constrained-int", (upTo ·.toNat) <$> atLeast 1 v)]

def document : Span → Document
  | bounds b => b.document
  | upTo n => .int n

def resolve : Span → Bounds
  | bounds b => b
  | upTo n => ⟨1, n, none⟩

end Span

-- What the runs of a scraper are bound to: the numbers of a range, all rows of a source, or those
-- that pass a filter.
inductive ExecutionIterator
  | range (source identifier : String) (span : Span)
  | entireSet (source : String)
  | filteredSet (source : String) (filter : Filter)
deriving Repr

namespace ExecutionIterator

def kinds : List String := ["range", "entire-set", "filtered-set"]

def source : ExecutionIterator → String
  | range source .. => source
  | entireSet source => source
  | filteredSet source _ => source

def check (v : Value) : Checked ExecutionIterator :=
  tagged "type" kinds v fun kind fields _ =>
    match kind with
    | "range" =>
      range <$> required fields "dataSourceName" checkSourceName
        <*> required fields "identifier" filledText
        <*> required fields "range" Span.check
    | "entire-set" => entireSet <$> required fields "dataSourceName" checkSourceName
    | _ =>
      filteredSet <$> required fields "dataSourceName" checkSourceName
        <*> required fields "where" Filter.check

def document : ExecutionIterator → Document
  | range source identifier span =>
    .record [("type", .text "range"), ("dataSourceName", .text source),
      ("identifier", .text identifier), ("range", span.document)]
  | entireSet source => .record [("type", .text "entire-set"), ("dataSourceName", .text source)]
  | filteredSet source filter =>
    .record [("type", .text "filtered-set"), ("dataSourceName", .text source),
      ("where", filter.document)]

end ExecutionIterator

end Gleaner
