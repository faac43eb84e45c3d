import Gleaner.Run.Environment
import Gleaner.Trace.Entry

namespace Gleaner

-- An entry whose instruction is not over yet.
structure OpenEntry where
  index : Nat
  page : Nat
  address : Option String
  started : Seconds
deriving DecidableEq, Repr

-- A list of instructions that is being run, the place of the next one, and the entry of the
-- condition whose branch it is.
structure Frame where
  instructions : List Instruction
  next : Nat
  owner : Option OpenEntry
deriving Repr

-- The entries of the conditions whose branches are being run, the innermost first.
def openEntries (frames : List Frame) : List OpenEntry := frames.filterMap Frame.owner

-- The state of a run: the world, what has been recorded, and the lists being run, the innermost
-- one first.
structure Session (σ : Type) where
  world : σ
  entries : Array Entry
  frames : List Frame
  steps : Nat

namespace Session

variable {σ α : Type}

-- Work on the world only.
def inWorld (work : Effect σ α) : Effect (Session σ) α := fun s =>
  let (outcome, world) := work s.world
  (outcome, { s with world })

def observe (work : StateM σ α) : Effect (Session σ) α := inWorld (monadLift work)

def record (e : Entry) : Effect (Session σ) Unit :=
  modify fun s => { s with entries := s.entries.push e }

def recordOperation (op : Operation) : Effect (Session σ) Unit := record (.operation op)

-- Changes an entry that has been recorded.
def amend (index : Nat) (change : Entry → Entry) : Effect (Session σ) Unit :=
  modify fun s => { s with entries := s.entries.modify index change }

def setFrames (frames : List Frame) : Effect (Session σ) Unit := modify fun s => { s with frames }

end Session

end Gleaner
