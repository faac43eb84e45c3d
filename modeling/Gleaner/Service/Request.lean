import Gleaner.Json.Reader
import Gleaner.Text.Basic
import Gleaner.Validation.Scalar

namespace Gleaner.Service

-- What the service is asked for. The path may have escapes.
structure Request where
  method : String
  path : String
  parameters : List (String × String) := []
  body : String := ""
deriving Repr

-- What the service answers.
structure Response where
  status : Nat
  body : Value := .null
deriving Repr

namespace Response

def ok (body : Value) : Response := { status := 200, body }

def created (body : Value) : Response := { status := 201, body }

def noContent : Response := { status := 204 }

-- An answer that says only what is wrong.
def detail (status : Nat) (body : Value) : Response :=
  { status, body := .object [("detail", body)] }

def badRequest (reason : String) : Response := detail 400 (.text reason)

def notFound (what : String) : Response := detail 404 (.text what)

def notAllowed : Response := detail 405 (.text "Method Not Allowed")

def conflict (reason : String) : Response := detail 409 (.text reason)

def unprocessable (issues : List Validation.Issue) : Response :=
  detail 422 (.list (issues.map Validation.Issue.value))

end Response

open Validation

-- Data of a request may be anything that has fields, so what is no model is said to have none.
def Issue.ofRequest (i : Issue) : Issue :=
  match i.cause with
  | .notModel _ => { i with cause := .notFields }
  | _ => i

def Checked.ofRequest {α : Type} : Checked α → Checked α
  | .valid a => .valid a
  | .invalid issues => .invalid (issues.map Issue.ofRequest)

-- A parameter is a name, and a value behind the first equals sign.
private def parameter (cs : List Char) : String × String :=
  let (name, value) := Text.cut '=' cs
  let read (cs : List Char) : String :=
    Text.percentDecoded (String.ofList (cs.map fun c => if c = '+' then ' ' else c))
  (read name, read (value.getD []))

namespace Request

-- A request for a path with parameters behind a question mark.
def ofTarget (method target : String) : Request :=
  let (path, query) := Text.cut '?' (Text.cut '#' target.toList).1
  { method, path := String.ofList path
    parameters := (((query.map (Text.pieces '&')).getD []).filter (!·.isEmpty)).map parameter }

-- The value in the body; a null value counts as none.
def bodyValue (r : Request) : Except Response (Option Value) :=
  if r.body = "" then .ok none
  else match Json.read r.body with
    | .ok .null => .ok none
    | .ok v => .ok (some v)
    | .error (.syntactic _ position) =>
      .error (.unprocessable [⟨[.key "body", .index position], .notJson⟩])
    | .error _ => .error (.badRequest "There was an error parsing the body")

def checkBody {α : Type} (check : Value → Checked α) (body : Option Value) : Checked α :=
  match body with
  | none => .invalid [⟨[.key "body"], .missing⟩]
  | some v => (Checked.ofRequest (check v)).under (.key "body")

-- A number in the path.
def checkNumber (name segment : String) : Checked Int :=
  ((integer (.text segment)).under (.key name)).under (.key "path")

-- A number among the parameters; the last one of a name counts.
def checkParameter (r : Request) (name : String) (default : Int) (check : Value → Checked Int) :
    Checked Int :=
  match r.parameters.reverse.find? (·.1 == name) with
  | none => .valid default
  | some (_, s) => ((check (.text s)).under (.key name)).under (.key "query")

end Request

end Gleaner.Service
