import Gleaner.Browser.Session
import Gleaner.Catalog.Execute
import Gleaner.Service.Route
import Gleaner.Settings
import Gleaner.Sql.Cell

namespace Gleaner.Service

open Validation

-- Everything the service works with: where it keeps its catalog, how it starts browsers, the pages
-- of a browser, and the store of some data sources by name and table.
structure Resources (σ : Type) where
  settings : Settings
  keeper : Keeper σ
  launcher : Browser.Launcher σ
  pages : Nat → Pages σ
  warehouse : List (String × String) → Warehouse σ
  environment : Pages σ → DataStore σ → Environment σ
  now : StateM σ Int

-- Work that may be cut short by an answer.
abbrev Handling (σ : Type) := ExceptT Response (Effect σ)

section

variable {σ α : Type} (res : Resources σ)

def answered : Except Response α → Handling σ α
  | .ok a => pure a
  | .error r => throw r

def orUnprocessable : Checked α → Handling σ α
  | .valid a => pure a
  | .invalid issues => throw (.unprocessable issues)

def orFailure : Except Failure α → Handling σ α
  | .ok a => pure a
  | .error e => liftM (throw e : Effect σ α)

-- The body and the number in the path of a request; the body has to be JSON before anything else.
def checkedBody (r : Request) (check : Value → Checked α) : Handling σ α := do
  orUnprocessable (Request.checkBody check (← answered r.bodyValue))

def checkedNumber (name segment : String) : Handling σ Int :=
  orUnprocessable (Request.checkNumber name segment)

def checkedNumberAndBody (r : Request) (name segment : String) (check : Value → Checked α) :
    Handling σ (Int × α) := do
  let body ← answered r.bodyValue
  orUnprocessable (Prod.mk <$> Request.checkNumber name segment <*> Request.checkBody check body)

-- Numbers that go to the database have 64 bits.
def storable (n : Int) : Handling σ Unit :=
  if Sql.fitsInteger n then pure () else orFailure (.error (.sql .oversized))

def catalog : Handling σ Catalog := liftM (liftM res.keeper.catalog : Effect σ Catalog)

def now : Handling σ Int := liftM (liftM res.now : Effect σ Int)

def findScraper (id : Int) : Handling σ ScraperRecord := do
  storable id
  match (← catalog res).scraper? id with
  | some s => return s
  | none => throw (.notFound "Scraper not found")

def findRoutine (id : Int) : Handling σ RoutineRecord := do
  storable id
  match (← catalog res).routine? id with
  | some r => return r
  | none => throw (.notFound "Routine not found")

def change (f : Catalog → Except Failure (Catalog × α)) : Handling σ α :=
  liftM (res.keeper.change f)

def scraperBody (r : ScraperRecord) : Handling σ Value := do
  return (← orFailure r.scraper).document.toValue .full

def routineBody (r : RoutineRecord) : Handling σ Value := do
  return (← orFailure ((← catalog res).view r)).document.toValue .full

def executionBody (e : ExecutionRecord) : Handling σ Value := do
  return (← orFailure e.view).document.toValue .full

def bodies (body : α → Handling σ Value) : List α → Handling σ (List Value)
  | [] => return []
  | a :: rest => do
    let v ← body a
    return v :: (← bodies body rest)

-- The aliases of a scraper differ, and its name is its own.
def checkScraper (s : Scraper) (id : Nat) : Handling σ Unit := do
  if !decide (s.dataSources.map (·.name)).Nodup then
    throw (.detail 422 (.text "Data source aliases must be unique"))
  if (← catalog res).isNameTaken s.name id then throw (.conflict "Scraper name already in use")

def createScraper (r : Request) : Handling σ Response := do
  let s ← checkedBody r Scraper.check
  checkScraper res s 0
  let record ← change res fun c => c.addScraper s
  return .created (← scraperBody record)

def listScrapers (r : Request) : Handling σ Response := do
  let (skip, limit) ← orUnprocessable (Prod.mk <$> r.checkParameter "skip" 0 (atLeast 0)
    <*> r.checkParameter "limit" 50 (between 1 100))
  storable skip
  let page := ((← catalog res).scrapers.drop skip.toNat).take limit.toNat
  return .ok (.list (← bodies scraperBody page))

def showScraper (segment : String) : Handling σ Response := do
  let record ← findScraper res (← checkedNumber "scraper_id" segment)
  return .ok (← scraperBody record)

def updateScraper (r : Request) (segment : String) : Handling σ Response := do
  let (id, s) ← checkedNumberAndBody r "scraper_id" segment Scraper.check
  let record ← findScraper res id
  checkScraper res s record.id
  let record ← orFailure (ScraperRecord.ofScraper record.id s)
  change res fun c => c.replaceScraper record
  return .ok (← scraperBody record)

def deleteScraper (segment : String) : Handling σ Response := do
  let record ← findScraper res (← checkedNumber "scraper_id" segment)
  change res fun c => .ok (c.removeScraper record.id, ())
  return .noContent

def listExecutions (r : Request) (segment : String) : Handling σ Response := do
  let (id, skip, limit) ← orUnprocessable ((·, ·, ·) <$> Request.checkNumber "scraper_id" segment
    <*> r.checkParameter "skip" 0 (atLeast 0) <*> r.checkParameter "limit" 20 (between 1 100))
  let record ← findScraper res id
  storable skip
  let page := (((← catalog res).executionsOf record.id).drop skip.toNat).take limit.toNat
  return .ok (.list (← bodies executionBody page))

def listRoutines (r : Request) : Handling σ Response := do
  let (page, size) ← orUnprocessable (Prod.mk <$> r.checkParameter "page" 0 (atLeast 0)
    <*> r.checkParameter "pageSize" 20 (between 1 100))
  storable (page * size)
  let rest := (← catalog res).recentRoutines.drop (page * size).toNat
  let data ← bodies (routineBody res) (rest.take size.toNat)
  return .ok (.object [("data", .list data), ("page", .int page), ("pageSize", .int size),
    ("hasMore", .bool (decide (size.toNat < rest.length)))])

-- What a data store has against an iterator is the fault of the request.
def fault? : Failure → Option String
  | .filter (.conditionKind _) => none
  | .filter .instant => none
  | .filter e => some e.message
  | .unknownSource name => some (Failure.unknownSource name).text
  | .sql .oversized => none
  | .sql e => some e.text
  | _ => none

def orBadRequest (work : Effect σ α) : Handling σ α := do
  match ← liftM work.attempt with
  | .ok a => return a
  | .error e =>
    match fault? e with
    | some reason => throw (.badRequest reason)
    | none => orFailure (.error e)

-- The first contexts of an iterator; a source without a table is one itself.
def previewPlan (r : Request) : Handling σ Response := do
  let request ← checkedBody r PreviewRequest.check
  let source := request.iterator.source
  let sources := if request.dataSources.any (·.1 == source) then request.dataSources
    else request.dataSources ++ [(source, source)]
  let (sql, contexts) ← orBadRequest do
    let sql ← Effect.ofExcept .filter request.iterator.filterSql?
    return (sql, ← request.iterator.preview (res.warehouse sources) request.limit)
  return .ok (.object [("sql", .ofText? sql),
    ("iterations", .list (contexts.map fun c => c.document.toValue .full))])

def showRoutine (segment : String) : Handling σ Response := do
  let r ← findRoutine res (← checkedNumber "routine_id" segment)
  return .ok (← routineBody res r)

def createRoutine (r : Request) : Handling σ Response := do
  let draft ← checkedBody r RoutineDraft.check
  discard (findScraper res draft.scraperId)
  let now ← now res
  let record : RoutineRecord ← change res fun c => do
    .ok (c.addRoutine (← RoutineRecord.assign { createdAt := now } draft now))
  return .created (← routineBody res record)

def putRoutine (f : RoutineRecord → Except Failure RoutineRecord) (r : RoutineRecord) :
    Handling σ Response := do
  let r : RoutineRecord ← change res fun c => do
    let r ← f r
    .ok (c.putRoutine r, r)
  return .ok (← routineBody res r)

def updateRoutine (r : Request) (segment : String) : Handling σ Response := do
  let (id, draft) ← checkedNumberAndBody r "routine_id" segment RoutineDraft.check
  let record ← findRoutine res id
  discard (findScraper res draft.scraperId)
  let now ← now res
  putRoutine res (·.assign draft now) record

def deleteRoutine (segment : String) : Handling σ Response := do
  let r ← findRoutine res (← checkedNumber "routine_id" segment)
  change res fun c => .ok (c.removeRoutine r.id, ())
  return .noContent

-- A routine that nothing runs at present.
def idleRoutine (segment : String) : Handling σ RoutineRecord := do
  let r ← findRoutine res (← checkedNumber "routine_id" segment)
  if r.isExecuting then throw (.conflict "Routine is currently executing")
  return r

def pauseRoutine (segment : String) : Handling σ Response := do
  let r ← idleRoutine res segment
  let now ← now res
  putRoutine res (fun r => { r.withStatus .paused with updatedAt := now }.reschedule now) r

-- Failures are counted anew after a pause.
def resumeRoutine (segment : String) : Handling σ Response := do
  let r ← idleRoutine res segment
  let now ← now res
  putRoutine res
    (fun r => { r.withStatus .active with failures := 0, updatedAt := now }.reschedule now) r

-- Runs a routine at once in a browser of its own.
def executeNow (segment : String) : Handling σ Response := do
  let r ← idleRoutine res segment
  let sources := match (← catalog res).scraper? r.scraperId with
    | some s => s.tables
    | none => []
  let work (browser : Nat) : Effect σ ExecutionRecord :=
    executeRoutine ⟨res.warehouse sources, res.environment (res.pages browser)⟩ res.keeper
      res.settings.stepLimit r none
  let key := "routine-" ++ toString r.id
  let execution ← orBadRequest (Browser.within res.launcher key res.settings.headless work)
  return .ok (← executionBody execution)

def dispatch (r : Request) : Route → Handling σ Response
  | .health => return .ok (.object [("status", .text "ok")])
  | .scrapers => if r.method = "POST" then createScraper res r else listScrapers res r
  | .scraper id =>
    if r.method = "PUT" then updateScraper res r id
    else if r.method = "DELETE" then deleteScraper res id
    else showScraper res id
  | .executions id => listExecutions res r id
  | .routines => if r.method = "POST" then createRoutine res r else listRoutines res r
  | .preview => previewPlan res r
  | .routine id =>
    if r.method = "PUT" then updateRoutine res r id
    else if r.method = "DELETE" then deleteRoutine res id
    else showRoutine res id
  | .pause id => pauseRoutine res id
  | .resume id => resumeRoutine res id
  | .execute id => executeNow res id

-- The answer to a request. A failure that is nobody's answer goes on.
def respond (r : Request) : Effect σ Response := do
  let outcome ← ExceptT.run (do dispatch res r (← answered (Route.find r.method r.path)))
  match outcome with
  | .ok response => return response
  | .error response => return response

end

end Gleaner.Service
