import Gleaner.Failure
import Gleaner.Iteration.Context
import Gleaner.Script.Action
import Gleaner.Template.Expand

namespace Gleaner

-- The pages of a browser, by index.
structure Pages (σ : Type) where
  perform : Nat → Action → Option String → List (Option String) → Effect σ Unit
  isVisible : Nat → Selectors → Effect σ Bool
  textOf : Nat → Selectors → Effect σ (Option String)
  attributeOf : Nat → Selectors → String → Effect σ (Option String)
  address : Nat → Effect σ (Option String)

-- The data a run reads and writes, by keys of the form `source.column`.
structure DataStore (σ : Type) where
  get : String → Effect σ Value
  set : String → Value → Effect σ Unit
  setMany : String → List (String × Value) → Effect σ Unit
  delete : String → Effect σ Unit

-- Data sources whose rows can be listed, and the store that a run bound to one of them sees.
structure Warehouse (σ : Type) where
  identifierColumn : String
  rows : String → Option String → Effect σ (List Row)
  boundTo : Option IterationContext → DataStore σ

-- Whether a run is to stop, or to wait.
structure Control where
  cancelled : Bool := false
  paused : Bool := false
deriving DecidableEq, Repr

namespace Control

-- Who is cancelled does not wait any longer.
def cancel (_ : Control) : Control := ⟨true, false⟩

def pause (c : Control) : Control := { c with paused := true }

def resume (c : Control) : Control := { c with paused := false }

-- Forgets that it was cancelled.
def restart (c : Control) : Control := { c with cancelled := false }

end Control

-- A finite number of seconds.
structure Seconds where
  number : Binary64
  finite : number.isFinite = true
deriving DecidableEq, Repr

-- Enough for every run without a limit that is waited for.
def patience : Nat := 2000000

-- Everything a run can touch.
structure Environment (σ : Type) where
  pages : Pages σ
  store : DataStore σ
  -- Milliseconds since the start of 1970.
  now : StateM σ Int
  -- Seconds since some moment of the past.
  timer : StateM σ Seconds
  draw : StateM σ Char
  warn : String → StateM σ Unit
  control : StateM σ Control
  setControl : Control → StateM σ Unit
  -- Comes back when a paused run may go on; it is told how many entries there are.
  await : Nat → StateM σ Unit
  -- The turns that a run without a limit may take.
  patience : Nat

namespace Environment

variable {σ : Type} (env : Environment σ)

def templates : Template.Context σ where
  datum := env.store.get
  address := some env.pages.address
  draw := env.draw
  warn := env.warn

def expand (text : String) : Effect σ String := Template.expand env.templates text

end Environment

section

variable {σ : Type} (env : Environment σ)

-- Tokens are expanded in texts, never in patterns.
def TextMatcher.expand : TextMatcher → Effect σ TextMatcher
  | .exactly s => return .exactly (← env.expand s)
  | .containing p => return .containing p

def expandMatchers : List (String × TextMatcher) → Effect σ (List (String × TextMatcher))
  | [] => return []
  | (name, m) :: rest => do
    let m ← m.expand env
    return (name, m) :: (← expandMatchers rest)

def Selector.expand : Selector → Effect σ Selector
  | .query q => return .query (← env.expand q)
  | .tagName name => return .tagName name
  | .textContent m => return .textContent (← m.expand env)
  | .attributes ms => return .attributes (← expandMatchers env ms)

def Selectors.expand : Selectors → Effect σ Selectors
  | [] => return []
  | s :: rest => do
    let s ← s.expand env
    return s :: (← Selectors.expand rest)

end

end Gleaner
