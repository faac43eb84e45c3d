import Gleaner.Rehearsal.World

namespace Gleaner.Rehearsal

open World

-- Pages that are told apart by their index only and know no browser.
namespace ScriptedPages

def noElement : Failure := .noElement "no element"

def isVisible (page : Nat) (selectors : Selectors) : Effect World Bool := do
  note "visible" [.int page, selectors.wire]
  match ← find selectors.wire page with
  | none => return false
  | some (i, e) => readVisible i e

def textOf (page : Nat) (selectors : Selectors) : Effect World (Option String) := do
  note "text" [.int page, selectors.wire]
  match ← find selectors.wire page with
  | none => throw noElement
  | some (i, e) => readText i e

def attributeOf (page : Nat) (selectors : Selectors) (name : String) :
    Effect World (Option String) := do
  note "attribute" [.int page, selectors.wire, .text name]
  match ← find selectors.wire page with
  | none => throw noElement
  | some (_, e) => return ((e.attributes.find? (·.1 == name)).bind (·.2))

def address (page : Nat) : Effect World (Option String) :=
  return (((← get).addresses.find? (·.1 == page)).bind (·.2))

def goto (page : Nat) (address : String) : StateM World Unit :=
  modify fun w =>
    { w with addresses := (page, some address) :: w.addresses.filter (·.1 != page) }

-- Gives the signals that belong to this call, by the number of the call.
def signalAll : StateM World Unit := do
  let n := (← get).performed + 1
  modify fun w => { w with performed := n }
  for (m, s) in (← get).signals do
    if m = n then signal s

def perform (page : Nat) (action : Action) (value : Option String)
    (arguments : List (Option String)) : Effect World Unit := do
  note "perform" [.int page, action.document.toValue .wire, .ofText? value,
    .list (arguments.map .ofText?)]
  signalAll
  faultOf (← get).pageFaults action.kind
  match action with
  | .navigate url => goto page url
  | .click selectors _ => do
    if let some (_, e) := ← find selectors.wire page then
      if let some target := e.target then goto page target
  | _ => return

end ScriptedPages

def scriptedPages : Pages World where
  perform := ScriptedPages.perform
  isVisible := ScriptedPages.isVisible
  textOf := ScriptedPages.textOf
  attributeOf := ScriptedPages.attributeOf
  address := ScriptedPages.address

end Gleaner.Rehearsal
