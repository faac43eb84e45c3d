import Gleaner.Iteration.Iterator
import Gleaner.Routine.Schedule

namespace Gleaner

open Validation

-- A scraper to be run on a schedule, as it is handed in.
structure RoutineDraft where
  scraperId : Nat
  iterator : Option ExecutionIterator
  description : Option String
  schedule : Schedule
  failureLimit : Option Nat
deriving Repr

namespace RoutineDraft

def checkFields (fields : List (String × Value)) : Checked RoutineDraft :=
  RoutineDraft.mk <$> (Int.toNat <$> required fields "scraperId" (atLeast 1))
    <*> optional fields "iterator" none (nullable ExecutionIterator.check)
    <*> optional fields "description" none (nullable text)
    <*> required fields "scheduler" Schedule.check
    <*> optional fields "pauseAfterNumberOfFailedExecutions" none
      (nullable fun v => Int.toNat <$> atLeast 1 v)

def check (v : Value) : Checked RoutineDraft :=
  model "UpsertRoutine" v fun fields _ => checkFields fields

def fieldDocuments (r : RoutineDraft) : List (String × Document) :=
  [("scraperId", .int r.scraperId),
    ("iterator", .optional ExecutionIterator.document r.iterator),
    ("description", .optional .text r.description),
    ("scheduler", r.schedule.document),
    ("pauseAfterNumberOfFailedExecutions", .optional (fun n => .int n) r.failureLimit)]

def document (r : RoutineDraft) : Document := .record r.fieldDocuments

end RoutineDraft

-- A stored routine as it is shown.
structure RoutineView extends RoutineDraft where
  id : Nat
  scraperName : String
  status : Status
  nextRunAt : Option Nat
  lastRunAt : Option Nat
  runs : Nat
  failures : Nat
  createdAt : Nat
  updatedAt : Nat
deriving Repr

namespace RoutineView

def check (v : Value) : Checked RoutineView :=
  model "Routine" v fun fields _ =>
    RoutineView.mk <$> RoutineDraft.checkFields fields
      <*> (Int.toNat <$> required fields "id" (atLeast 1))
      <*> required fields "scraperName" text
      <*> required fields "status" Status.check
      <*> optional fields "nextScheduledExecutionAt" none (nullable checkTimestamp)
      <*> optional fields "lastExecutionAt" none (nullable checkTimestamp)
      <*> optional fields "previousExecutionsCount" 0 checkTimestamp
      <*> optional fields "failedExecutionsCount" 0 checkTimestamp
      <*> required fields "createdAt" checkTimestamp
      <*> required fields "updatedAt" checkTimestamp

def document (r : RoutineView) : Document :=
  .record (r.toRoutineDraft.fieldDocuments ++
    [("id", .int r.id), ("scraperName", .text r.scraperName), ("status", .text r.status.name),
      ("nextScheduledExecutionAt", .optional (fun n => .int n) r.nextRunAt),
      ("lastExecutionAt", .optional (fun n => .int n) r.lastRunAt),
      ("previousExecutionsCount", .int r.runs), ("failedExecutionsCount", .int r.failures),
      ("createdAt", .int r.createdAt), ("updatedAt", .int r.updatedAt)])

end RoutineView

-- A request for the first iterations that an iterator would produce.
structure PreviewRequest where
  iterator : ExecutionIterator
  dataSources : List (String × String)
  limit : Nat
deriving Repr

namespace PreviewRequest

def check (v : Value) : Checked PreviewRequest :=
  model "ExecutionPlanPreviewRequest" v fun fields _ =>
    PreviewRequest.mk <$> required fields "iterator" ExecutionIterator.check
      <*> optional fields "dataSources" [] (entries text)
      <*> optional fields "limit" 20 (fun v => Int.toNat <$> between 1 500 v)

def document (r : PreviewRequest) : Document :=
  .record [("iterator", r.iterator.document),
    ("dataSources", .entries (r.dataSources.map fun (k, t) => (k, .text t))),
    ("limit", .int r.limit)]

end PreviewRequest

end Gleaner
