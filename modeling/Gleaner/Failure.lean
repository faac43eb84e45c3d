import Gleaner.Json.Dates
import Gleaner.Script.Matcher
import Gleaner.Sql.Error
import Gleaner.Template.Error
import Gleaner.Url.Split
import Gleaner.Where.Literal

namespace Gleaner

-- What can go wrong while a scraper runs.
inductive Failure
  | fault (message : String)
  | timeout (message : String)
  | noElement (message : String)
  | unknownSource (name : String)
  | dataKey (key : String)
  | sql (e : Sql.Error)
  | filter (e : Where.CompileError)
  | token (e : Template.TokenError)
  | url (e : UrlError)
  | matcher (e : MatcherError)
  | action (kind : String)
  | noMarker (name : String)
  | stepLimit (limit : Int)
  | noScraper (routine : Int)
  | scraperNotFound (id : Int)
  | noSession (key : String)
  | status (shown : String)
  | invalid (issues : List Validation.Issue)
  | json (text : String) (e : Json.ReadError IsoError)
  | beyondCalendar
  | logLevel (name : String)
  | unfinished

namespace Failure

-- What a failure says about itself.
def text : Failure → String
  | fault message => message
  | timeout message => message
  | noElement message => message
  | unknownSource name => "Unknown data source: " ++ name
  | dataKey key => "Invalid data key: " ++ key
  | sql e => e.message
  | filter e => e.message
  | token e => e.message
  | url e => e.message
  | matcher e => e.message
  | action kind => "Unsupported page action: " ++ kind
  | noMarker name => "Marker \"" ++ name ++ "\" not found"
  | stepLimit limit => "Maximum number of instruction steps exceeded (" ++ toString limit ++ ")"
  | noScraper routine => "Routine " ++ toString routine ++ " has no scraper"
  | scraperNotFound id => "Scraper " ++ toString id ++ " not found"
  | noSession key => "No active browser session " ++ Text.quoted key
  | status shown => shown ++ " is not a valid RoutineStatus"
  | invalid _ => ""
  | json text (.syntactic problem position) => Json.problemText text problem position
  | json _ (.refused e) => e.message
  | beyondCalendar => "date value out of range"
  | logLevel name => "Unknown level: " ++ Text.quoted name
  | unfinished => ""

-- The kind of a failure; it stands for the text where there is none.
def kind : Failure → String
  | fault _ => "RuntimeError"
  | timeout _ => "TimeoutError"
  | noElement _ => "ElementNotFound"
  | unknownSource _ => "UnknownDataSource"
  | dataKey _ => "ValueError"
  | sql e => e.kind
  | filter (.conditionKind _) => "TypeError"
  | filter .instant => "OverflowError"
  | filter _ => "WhereSchemaError"
  | token _ => "SpecialStringError"
  | url _ => "ValueError"
  | matcher (.flag _) => "ValueError"
  | matcher (.pattern e) => e.kind
  | action _ => "ValueError"
  | noMarker _ => "MarkerNotFound"
  | stepLimit _ => "MaxStepsExceeded"
  | noScraper _ => "RoutineConfigurationError"
  | scraperNotFound _ => "LookupError"
  | noSession _ => "BrowserSessionNotFound"
  | status _ => "ValueError"
  | invalid _ => "ValidationError"
  | json _ (.syntactic ..) => "JSONDecodeError"
  | json .. => "ValueError"
  | beyondCalendar => "OverflowError"
  | logLevel _ => "ValueError"
  | unfinished => "Unfinished"

-- The text of a failure, or its kind where the text is empty.
def message (f : Failure) : String := if f.text = "" then f.kind else f.text

end Failure

-- Work on a state that may fail; what was done before a failure stays done.
abbrev Effect (σ : Type) := ExceptT Failure (StateM σ)

namespace Effect

variable {σ α : Type}

-- The outcome of some work, so that a failure can be looked at.
def attempt (work : Effect σ α) : Effect σ (Except Failure α) := fun s =>
  let (outcome, s) := work s
  (.ok outcome, s)

def ofExcept {ε : Type} (cause : ε → Failure) : Except ε α → Effect σ α
  | .ok a => pure a
  | .error e => throw (cause e)

end Effect

end Gleaner
