import Gleaner.Service.Request

namespace Gleaner.Service

-- What the service has. Numbers are still text.
inductive Route
  | health
  | scrapers
  | scraper (id : String)
  | executions (id : String)
  | routines
  | preview
  | routine (id : String)
  | pause (id : String)
  | resume (id : String)
  | execute (id : String)
deriving DecidableEq, Repr

namespace Route

def ofSegments? : List String → Option Route
  | ["health"] => some health
  | ["scrapers"] => some scrapers
  | ["scrapers", id] => if id = "" then none else some (scraper id)
  | ["scrapers", id, "executions"] => if id = "" then none else some (executions id)
  | ["routines"] => some routines
  | ["routines", "execution-plan", "preview"] => some preview
  | ["routines", id] => if id = "" then none else some (routine id)
  | ["routines", id, "pause"] => if id = "" then none else some (pause id)
  | ["routines", id, "resume"] => if id = "" then none else some (resume id)
  | ["routines", id, "execute"] => if id = "" then none else some (execute id)
  | _ => none

def ofChars? (path : List Char) : Option Route :=
  match path with
  | '/' :: rest => ofSegments? ((Text.pieces '/' rest).map String.ofList)
  | _ => none

def methods : Route → List String
  | health => ["GET"]
  | scrapers => ["GET", "POST"]
  | scraper _ => ["GET", "PUT", "DELETE"]
  | executions _ => ["GET"]
  | routines => ["GET", "POST"]
  | preview => ["POST"]
  | routine _ => ["GET", "PUT", "DELETE"]
  | pause _ => ["POST"]
  | resume _ => ["POST"]
  | execute _ => ["POST"]

-- The path without slashes at its end, if it has some.
def withoutSlash? (path : List Char) : Option (List Char) :=
  if path.getLast? = some '/' then some (path.reverse.dropWhile (· = '/')).reverse else none

-- Where a request leads. A path that would lead somewhere without the slash at its end is
-- redirected.
def find (method path : String) : Except Response Route :=
  let path := (Text.percentDecoded path).toList
  match ofChars? path with
  | some route => if route.methods.contains method then .ok route else .error .notAllowed
  | none =>
    match (withoutSlash? path).bind ofChars? with
    | some _ => .error { status := 307 }
    | none => .error (.notFound "Not Found")

end Route

end Gleaner.Service
