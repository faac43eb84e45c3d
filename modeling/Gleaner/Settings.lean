import Gleaner.Number.Integer
import Gleaner.Text.Lowercase
import Gleaner.Validation.Issue

namespace Gleaner

-- What a process is configured with.
structure Settings where
  appName : String := "Web Scraper Engine"
  databaseUrl : String := "sqlite:///./app.db"
  dataStoreUrl : String := "sqlite:///./data-store.db"
  identifierColumn : String := "id"
  logLevel : String := "INFO"
  headless : Bool := true
  navigationTimeout : Int := 30000
  stepLimit : Option Int := none
deriving DecidableEq, Repr

-- Why an environment gives no settings.
inductive SettingsError
  | integer (e : IntegerError)
  | invalid (issues : List Validation.Issue)
deriving Repr

namespace Settings

-- A variable without the blanks around it; an empty one counts as not set.
def trimmed? (env : List (String × String)) (name : String) : Option String :=
  match (env.find? (·.1 == name)).map (fun v => Text.trim v.2) with
  | some "" => none
  | other => other

def affirmations : List String := ["1", "true", "yes", "on"]

def flag (env : List (String × String)) (name : String) (default : Bool) : Bool :=
  match trimmed? env name with
  | some s => affirmations.contains (Text.lowerText s)
  | none => default

private def issue (name : String) (cause : Validation.Cause) (holds : Bool) :
    List Validation.Issue :=
  if holds then [] else [⟨[.key name], cause⟩]

-- What the fields have to satisfy.
def issues (s : Settings) : List Validation.Issue :=
  issue "data_store_identifier_column" .emptyText (s.identifierColumn ≠ "") ++
    issue "navigation_timeout_ms" (.below 1) (1 ≤ s.navigationTimeout) ++
    issue "max_instruction_steps" (.below 1) (s.stepLimit.all (1 ≤ ·))

-- The settings of an environment. Numbers are read before anything is checked.
def read (env : List (String × String)) : Except SettingsError Settings := do
  let setting (name default : String) := ((env.find? (·.1 == name)).map (·.2)).getD default
  let timeout ← (Integer.read (setting "NAVIGATION_TIMEOUT_MS" "30000")).mapError .integer
  let stepLimit ← match trimmed? env "MAX_INSTRUCTION_STEPS" with
    | none => .ok none
    | some s => ((Integer.read s).map some).mapError .integer
  let s : Settings := {
    appName := setting "APP_NAME" "Web Scraper Engine"
    databaseUrl := setting "DATABASE_URL" "sqlite:///./app.db"
    dataStoreUrl := setting "DATA_STORE_URL" "sqlite:///./data-store.db"
    identifierColumn := setting "DATA_STORE_IDENTIFIER_COLUMN" "id"
    logLevel := setting "LOG_LEVEL" "INFO"
    headless := flag env "BROWSER_HEADLESS" true
    navigationTimeout := timeout
    stepLimit := stepLimit }
  match s.issues with
  | [] => .ok s
  | issues => .error (.invalid issues)

end Settings

end Gleaner
