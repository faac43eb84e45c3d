import Gleaner.Document
import Gleaner.Validation.Scalar

namespace Gleaner

open Validation

-- Runs at a start and then at equal distances, up to an end where there is one. Times are
-- milliseconds since the start of 1970.
structure Schedule where
  interval : Nat
  startAt : Nat
  endAt : Option Nat
deriving DecidableEq, Repr

def checkTimestamp (v : Value) : Checked Nat := Int.toNat <$> atLeast 0 v

namespace Schedule

private def kind (v : Value) : Checked String :=
  match v with
  | .text "interval" => .valid "interval"
  | _ => .fault (.notLiteral "interval")

def check (v : Value) : Checked Schedule :=
  model "IntervalScheduler" v fun fields _ =>
    (fun _ interval startAt endAt => ⟨interval, startAt, endAt⟩)
      <$> optional fields "type" "interval" kind
      <*> (Int.toNat <$> required fields "interval" (atLeast 1))
      <*> required fields "startAt" checkTimestamp
      <*> optional fields "endAt" none (nullable checkTimestamp)

def document (s : Schedule) : Document :=
  .record [("type", .text "interval"), ("interval", .int s.interval),
    ("startAt", .int s.startAt), ("endAt", .optional (fun n => .int n) s.endAt)]

-- The first scheduled point after `now`, if there is one up to the end.
def next? (s : Schedule) (now : Int) : Option Int :=
  let start : Int := s.startAt
  if (s.endAt.map fun e => decide ((e : Int) ≤ now)).getD false then none
  else if now < start then
    if (s.endAt.map fun e => decide ((e : Int) < start)).getD false then none else some start
  else
    let candidate := start + (Int.fdiv (now - start) s.interval + 1) * s.interval
    if (s.endAt.map fun e => decide ((e : Int) < candidate)).getD false then none
    else some candidate

end Schedule

-- What a routine is doing.
inductive Status
  | active
  | executing
  | paused
  | pausedByFailures
deriving DecidableEq, Repr

namespace Status

def name : Status → String
  | active => "active"
  | executing => "executing"
  | paused => "paused"
  | pausedByFailures => "pausedDueToMaxNumberOfFailedExecutions"

def all : List Status := [active, executing, paused, pausedByFailures]

def ofName? (name : String) : Option Status := all.find? (·.name = name)

def members : String :=
  "'active', 'executing', 'paused' or 'pausedDueToMaxNumberOfFailedExecutions'"

def check (v : Value) : Checked Status :=
  match v with
  | .text s =>
    match ofName? s with
    | some status => .valid status
    | none => .fault (.notMember members)
  | _ => .fault (.notMember members)

end Status

-- Only an active routine has a next run.
def Schedule.nextFor? (status : Status) (s : Schedule) (now : Int) : Option Int :=
  match status with
  | .active => s.next? now
  | _ => none

end Gleaner
