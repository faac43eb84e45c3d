import Gleaner.Run.Session

namespace Gleaner

open Session

section

variable {σ : Type} (env : Environment σ)

def missingDatum (key : String) : String :=
  "External data value not found and no default value provided. Key: " ++ key

-- A datum that is missing or cannot be read gives the default; the reading is recorded.
def resolveDatum (key : String) (default : Option String) :
    Effect (Session σ) (Option String) := do
  let (returned, error) ← match ← inWorld (env.store.get key).attempt with
    | .ok v => pure (v, none)
    | .error e => pure (Value.null, some e.text)
  recordOperation (.get key returned error)
  if !returned.isNull then return some returned.display
  if default.isSome then return default
  observe (env.warn (missingDatum key))
  return none

def missingElement (kind : String) (page : Nat) : String :=
  "Cannot resolve " ++ kind ++ "; element not found on page " ++ toString page

-- An element that is not there gives nothing; every other failure goes on.
def readElement (kind : String) (page : Nat) (read : Effect σ (Option String)) :
    Effect (Session σ) (Option String) := do
  match ← inWorld read.attempt with
  | .ok text => return text
  | .error (.noElement _) => do
    observe (env.warn (missingElement kind page))
    return none
  | .error e => throw e

def Source.resolve (source : Source) : Effect (Session σ) (Option String) := do
  match source with
  | .literal text => return some text
  | .null => return none
  | .currentTimestamp => return some (toString (← observe env.now))
  | .externalData key default => resolveDatum env key default
  | .elementText selectors page => do
    let selectors ← inWorld (selectors.expand env)
    let page := page.getD 0
    readElement env source.kind page (env.pages.textOf page selectors)
  | .elementAttribute selectors name page => do
    let selectors ← inWorld (selectors.expand env)
    let page := page.getD 0
    readElement env source.kind page (env.pages.attributeOf page selectors name)

def resolveAll : List Source → Effect (Session σ) (List (Option String))
  | [] => return []
  | s :: rest => do
    let value ← s.resolve env
    return value :: (← resolveAll rest)

def resolveItems : List BatchItem → Effect (Session σ) (List (String × Value))
  | [] => return []
  | i :: rest => do
    let value ← i.value.resolve env
    return (i.column, .ofText? value) :: (← resolveItems rest)

def Condition.evaluate : Condition → Effect (Session σ) Bool
  | .isVisible selectors page => do
    let selectors ← inWorld (selectors.expand env)
    inWorld (env.pages.isVisible (page.getD 0) selectors)
  | .textEquals source matcher => do
    let value ← source.resolve env
    inWorld (Effect.ofExcept .matcher (matcher.test value))

-- An action with its tokens expanded. Code and the text to be typed stay as they are.
def Action.expand : Action → Effect σ Action
  | .navigate url => return .navigate (← env.expand url)
  | .click selectors waits => return .click (← selectors.expand env) waits
  | .type selectors value clears enters waits =>
    return .type (← selectors.expand env) value clears enters waits
  | .scrollToElement selectors => return .scrollToElement (← selectors.expand env)
  | action => return action

-- The text an action types and the arguments it hands over.
def Action.inputs : Action → Effect (Session σ) (Option String × List (Option String))
  | .type _ value .. => return (← value.resolve env, [])
  | .evaluate _ arguments => return (none, ← resolveAll env arguments)
  | _ => return (none, [])

-- What a failed action reports; an action that fails does not end the run.
def Action.perform (action : Action) (page : Nat) : Effect (Session σ) (Option String) := do
  let action ← inWorld (action.expand env)
  let (value, arguments) ← action.inputs env
  match ← inWorld (env.pages.perform page action value arguments).attempt with
  | .ok () => return none
  | .error e => return some e.message

end

end Gleaner
