import Gleaner.Failure
import Gleaner.Template.Token
import Gleaner.Text.Basic
import Gleaner.Value.Display

namespace Gleaner.Template

-- What the tokens of a text are expanded with.
structure Context (σ : Type) where
  datum : String → Effect σ Value
  address : Option (Nat → Effect σ (Option String))
  draw : StateM σ Char
  warn : String → StateM σ Unit

section

variable {σ : Type} (context : Context σ)

def drawText : Nat → StateM σ (List Char)
  | 0 => pure []
  | n + 1 => do
    let c ← context.draw
    return c :: (← drawText n)

def addressOf (page : Nat) : Effect σ (Option String) :=
  match context.address with
  | none => pure none
  | some address => address page

-- A part of the address of a page; a page without an address gives the empty text.
def addressText (property : Url.Property) (page : Nat) (address : Option String) : Effect σ String :=
  match address with
  | none => do
    context.warn ("No page found at index " ++ toString page)
    return ""
  | some "" => do
    context.warn ("No page found at index " ++ toString page)
    return ""
  | some address => Effect.ofExcept .url (Url.property address property)

-- The text that takes the place of a token. A datum that is missing gives the empty text.
def resolve : Token → Effect σ String
  | .datum key => do
    match ← context.datum key with
    | .null => return ""
    | v => return v.display
  | .random length => return String.ofList (← drawText context length)
  | .address property page unreadable => do
    if let some shown := unreadable then
      context.warn ("Invalid page index " ++ Text.quoted shown ++
        " in current URL special string; using 0")
    addressText context property page (← addressOf context page)

-- Replaces the first token by its text until there is none left. The text of a token may hold
-- tokens of its own. What is replaced is found by how it is written.
def expandChars : Nat → List Char → Effect σ (List Char)
  | 0, _ => throw .unfinished
  | fuel + 1, text =>
    match first? text with
    | none => return text
    | some o => do
      let token ← Effect.ofExcept .token o.token
      let replacement ← resolve context token
      expandChars fuel (Text.replaceFirst o.written replacement.toList text)

-- More tokens than can be replaced in any time, beyond those a text can have from the start. A text
-- that has more counts as one that never comes to an end.
def limit : Nat := 1_000_000_000_000_000_000

def expand (text : String) : Effect σ String := do
  return String.ofList (← expandChars context (limit + text.length) text.toList)

end

end Gleaner.Template
