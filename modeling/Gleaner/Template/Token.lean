import Gleaner.Number.Integer
import Gleaner.Script.Source
import Gleaner.Template.Error
import Gleaner.Text.Basic
import Gleaner.Url.Property

namespace Gleaner.Template

-- A token in a text: what is in front of it, what stands between its braces, and the rest.
structure Occurrence where
  before : List Char
  inside : List Char
  after : List Char
deriving DecidableEq, Repr

namespace Occurrence

-- The token as it is written.
def written (o : Occurrence) : List Char := '{' :: '{' :: (o.inside ++ ['}', '}'])

-- The kind of the token, which ends with the first comma, and what follows the comma.
def kind (o : Occurrence) : List Char := (Text.cut ',' o.inside).1

def arguments (o : Occurrence) : List Char := (Text.cut ',' o.inside).2.getD []

end Occurrence

-- A token opens with two braces, directly followed by the first character of its kind, and ends
-- with the first closing brace if another one comes right behind it.
def opensAt? : List Char → Option Occurrence
  | '{' :: '{' :: c :: rest =>
    if c = ',' ∨ c = '}' then none
    else match (c :: rest).dropWhile (· ≠ '}') with
      | '}' :: '}' :: after => some ⟨[], (c :: rest).takeWhile (· ≠ '}'), after⟩
      | _ => none
  | _ => none

-- The first token of a text.
def first? : List Char → Option Occurrence
  | [] => none
  | c :: rest =>
    match opensAt? (c :: rest) with
    | some o => some o
    | none => (first? rest).map fun o => { o with before := c :: o.before }

-- What a token stands for. The index of a page that could not be read is kept to be reported.
inductive Token
  | datum (key : String)
  | random (length : Nat)
  | address (property : Url.Property) (page : Nat) (unreadable : Option String)
deriving DecidableEq, Repr

def defaultLength : Nat := 16

private def stripped (cs : List Char) : String := String.ofList (Text.trimChars Text.isBlank cs)

-- The page an argument names; an argument that names none is handed back.
def readPage (argument : String) : Nat × Option String :=
  if argument = "" then (0, none)
  else match Integer.read argument with
    | .ok n => if n < 0 then (0, some argument) else (n.toNat, none)
    | .error _ => (0, some argument)

def readAddress (arguments : List String) : Except TokenError Token :=
  match arguments with
  | [] => .error .noProperty
  | name :: more =>
    if name = "" then .error .noProperty
    else match Url.Property.ofName? name with
      | none => .error (.property name)
      | some p =>
        let (page, unreadable) := readPage (more.headD "")
        .ok (.address p page unreadable)

def readRandom (arguments : List String) : Except TokenError Token :=
  let argument := arguments.headD ""
  if argument = "" then .ok (.random defaultLength)
  else match Integer.read argument with
    | .ok n => .ok (.random (max n 1).toNat)
    | .error _ => .error (.length argument)

def readDatum (arguments : List String) : Except TokenError Token :=
  let key := arguments.headD ""
  if isDataKey key.toList then .ok (.datum key) else .error .noKey

-- Blanks around the kind and around each argument do not count.
def Occurrence.token (o : Occurrence) : Except TokenError Token :=
  let arguments := if o.arguments.isEmpty then [] else (Text.pieces ',' o.arguments).map stripped
  match stripped o.kind with
  | "DataKey" => readDatum arguments
  | "RandomString" => readRandom arguments
  | "CurrentUrl" => readAddress arguments
  | kind => .error (.kind kind)

end Gleaner.Template
