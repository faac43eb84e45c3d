import Gleaner.Validation.Issue

namespace Gleaner.Validation

-- The outcome of a check: a value, or everything found wrong, in order.
inductive Checked (α : Type)
  | valid (a : α)
  | invalid (issues : List Issue)
deriving Repr

namespace Checked

variable {α β : Type}

-- Two outcomes are joined without stopping at the first fault.
def ap (f : Checked (α → β)) (x : Unit → Checked α) : Checked β :=
  match f, x () with
  | .valid f, .valid a => .valid (f a)
  | .valid _, .invalid issues => .invalid issues
  | .invalid issues, .valid _ => .invalid issues
  | .invalid issues, .invalid more => .invalid (issues ++ more)

instance : Applicative Checked where
  pure := .valid
  seq := ap

-- A single fault at the place that is checked.
def fault (cause : Cause) : Checked α := .invalid [⟨[], cause⟩]

-- Places the faults of a part below the way to that part.
def under (step : Step) : Checked α → Checked α
  | .valid a => .valid a
  | .invalid issues => .invalid (issues.map fun i => { i with path := step :: i.path })

-- A further check on a value that has passed.
def andThen (c : Checked α) (next : α → Checked β) : Checked β :=
  match c with
  | .valid a => next a
  | .invalid issues => .invalid issues

def toExcept : Checked α → Except (List Issue) α
  | .valid a => .ok a
  | .invalid issues => .error issues

-- The first member that takes the value. If none does, the faults of all of them, each below the
-- label of its member.
def firstOf : List (String × Checked α) → Checked α
  | [] => .invalid []
  | (label, c) :: rest =>
    match c.under (.key label), firstOf rest with
    | .valid a, _ => .valid a
    | .invalid _, .valid a => .valid a
    | .invalid issues, .invalid more => .invalid (issues ++ more)

-- The outcomes of the items of a list, each below its index.
def ofItems : List (Checked α) → Nat → Checked (List α)
  | [], _ => .valid []
  | c :: rest, i => List.cons <$> c.under (.index i) <*> ofItems rest (i + 1)

-- The outcomes of the entries of a dictionary, each below its key.
def ofEntries : List (String × Checked α) → Checked (List (String × α))
  | [] => .valid []
  | (k, c) :: rest => (fun a more => (k, a) :: more) <$> c.under (.key k) <*> ofEntries rest

end Checked

end Gleaner.Validation
