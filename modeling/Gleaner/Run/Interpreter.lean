import Gleaner.Run.Resolve
import Gleaner.Script.Jumps

namespace Gleaner

open Session

-- The milliseconds between two readings of the timer; time never runs backwards.
def elapsed (started now : Seconds) : Binary64 :=
  let time := (now.number.minus started.number).scaledBy 1000
  if time.compareInt? 0 = some .lt then .zero else time

namespace Entry

def withDuration (duration : Binary64) : Entry → Entry
  | .instruction info url _ => .instruction info url duration
  | e => e

-- An address that has changed is recorded with the one before.
def withAddress (before after : Option String) : Entry → Entry
  | .instruction info url duration =>
    .instruction info (if after = before then url else some (.changed before after)) duration
  | e => e

def withInfo (change : InstructionInfo → InstructionInfo) : Entry → Entry
  | .instruction info url duration => .instruction (change info) url duration
  | e => e

end Entry

namespace InstructionInfo

def withResult (error : Option String) : InstructionInfo → InstructionInfo
  | .pageAction page action _ _ => .pageAction page action error.isNone error
  | info => info

def withTruth (isMet : Bool) : InstructionInfo → InstructionInfo
  | .condition test _ => .condition test isMet
  | info => info

end InstructionInfo

-- The page an instruction is about.
def Instruction.page : Instruction → Nat
  | .pageAction page _ => page
  | _ => 0

-- The place of the first marker of a name.
def markerIndex? (name : String) (is : List Instruction) : Option Nat :=
  is.findIdx? fun i => i.markerName? == some name

-- The frames a jump leaves, innermost first, and those that stay: the innermost one with the
-- marker goes on behind it.
def land? (name : String) : List Frame → Option (List Frame × List Frame)
  | [] => none
  | f :: rest =>
    match markerIndex? name f.instructions with
    | some i => some ([], { f with next := i + 1 } :: rest)
    | none => (land? name rest).map fun (left, staying) => (f :: left, staying)

section

variable {σ : Type} (env : Environment σ)

-- Closes an entry with the time it took and the address its page has now.
def close (opened : OpenEntry) : Effect (Session σ) Unit := do
  let address ← inWorld (env.pages.address opened.page)
  let now ← observe env.timer
  amend opened.index fun e =>
    (e.withDuration (elapsed opened.started now)).withAddress opened.address address

def closeAll : List OpenEntry → Effect (Session σ) Unit
  | [] => return
  | opened :: rest => do
    close env opened
    closeAll rest

-- Gives the entries that are still open the time they took so far, the outermost first.
def settle : List OpenEntry → Effect (Session σ) Unit
  | [] => return
  | opened :: rest => do
    settle rest
    let now ← observe env.timer
    amend opened.index fun e => e.withDuration (elapsed opened.started now)

private def failure? : Except Failure Unit → Option String
  | .ok _ => none
  | .error e => some e.text

-- Does what an instruction says. Conditions, markers and jumps only say what comes next.
def act (opened : OpenEntry) : Instruction → Effect (Session σ) Unit
  | .pageAction page action => do
    let error ← action.perform env page
    amend opened.index (·.withInfo (·.withResult error))
  | .saveData key source => do
    let value := Value.ofText? (← source.resolve env)
    let outcome ← inWorld (env.store.set key value).attempt
    recordOperation (.set key value (failure? outcome))
  | .saveDataBatch source items => do
    let values ← resolveItems env items
    let outcome ← inWorld (env.store.setMany source values).attempt
    recordOperation (.setMany source values (failure? outcome))
  | .deleteData source => do
    let outcome ← inWorld (env.store.delete source).attempt
    recordOperation (.delete source (failure? outcome))
  | _ => return

-- Finds out which of two branches is taken, and records it.
def chooseBranch (opened : OpenEntry) (test : Condition) (consequent : List Instruction)
    (alternative : Option (List Instruction)) : Effect (Session σ) (List Instruction) := do
  let isMet ← test.evaluate env
  amend opened.index (·.withInfo (·.withTruth isMet))
  return if isMet then consequent else alternative.getD []

-- Runs an instruction as far as it goes at once. A condition starts a branch and stays open until
-- that is left; the result says whether the instruction stays open.
def dispatch (opened : OpenEntry) : Instruction → Effect (Session σ) Bool
  | .condition test consequent alternative => do
    let branch ← chooseBranch env opened test consequent alternative
    setFrames (⟨branch, 0, some opened⟩ :: (← get).frames)
    return true
  | .jump name => do
    match land? name (← get).frames with
    | none => throw (.noMarker name)
    | some (left, staying) => do
      setFrames staying
      closeAll env (openEntries left)
      return false
  | i => do
    act env opened i
    return false

-- Records an instruction that starts.
def openEntry (i : Instruction) : Effect (Session σ) OpenEntry := do
  let address ← inWorld (env.pages.address i.page)
  let started ← observe env.timer
  let opened : OpenEntry := ⟨(← get).entries.size, i.page, address, started⟩
  record (.instruction (.ofInstruction i) (address.map .same) Binary64.zero)
  return opened

-- Runs an instruction that has started. Its entry is closed however it ends, unless it stays open.
def carryOut (opened : OpenEntry) (i : Instruction) : Effect (Session σ) Unit := do
  match ← (dispatch env opened i).attempt with
  | .ok true => return
  | .ok false => close env opened
  | .error e => do
    close env opened
    throw e

-- Records an instruction and runs it.
def execute (i : Instruction) : Effect (Session σ) Unit := do
  let opened ← openEntry env i
  carryOut env opened i

-- Waits while the run is paused; the result says whether it goes on.
def checkpoint : Effect (Session σ) Bool := do
  if (← observe env.control).paused then
    observe (env.await (← get).entries.size)
  return !(← observe env.control).cancelled

-- How the lists of a run come to an end without a failure.
inductive Ending
  | completed
  | cancelled
deriving DecidableEq, Repr

-- Counts an instruction; those beyond the limit are not run.
def countStep (limit : Option Int) : Effect (Session σ) Unit := do
  modify fun s => { s with steps := s.steps + 1 }
  if let some most := limit then
    if most < (← get).steps then throw (.stepLimit most)

-- Takes the next instruction from the innermost list; a list that is used up is left. The result
-- is there when the run is over.
def turn (limit : Option Int) : Effect (Session σ) (Option Ending) := do
  match (← get).frames with
  | [] => return some .completed
  | f :: rest => do
    if !(← checkpoint env) then return some .cancelled
    match f.instructions[f.next]? with
    | none => do
      setFrames rest
      closeAll env f.owner.toList
      return none
    | some i => do
      setFrames ({ f with next := f.next + 1 } :: rest)
      countStep limit
      execute env i
      return none

-- One turn after the other.
def loop (limit : Option Int) : Nat → Effect (Session σ) Ending
  | 0 => throw .unfinished
  | fuel + 1 => do
    match ← turn env limit with
    | some ending => return ending
    | none => loop limit fuel

-- What is left to do when the lists have ended and some entries are open. A failure becomes the
-- last entry; a cancelled run has no last entry of its own.
def conclude (started : Seconds) (inside : List OpenEntry) (outcome : Except Failure Ending) :
    Effect (Session σ) Unit := do
  match outcome with
  | .ok .completed => do
    record (.success (elapsed started (← observe env.timer)))
  | .ok .cancelled => settle env inside
  | .error .unfinished => throw .unfinished
  | .error e => do
    settle env inside
    record (.error e.message (elapsed started (← observe env.timer)))

-- The turns a run may take. A limit for the instructions is one for the turns: each instruction
-- takes one turn and leaving a list another. Only a run without a limit depends on the fuel.
def turnLimit (limit : Option Int) (fuel : Nat) : Nat :=
  match limit with
  | some most => 2 * most.toNat + 4
  | none => fuel

-- Runs a script and gives the entries, behind those there are already. A failed instruction is
-- recorded and never raised; only a run that exceeds the fuel is.
def run (limit : Option Int) (fuel : Nat) (script : List Instruction) (entries : Array Entry) :
    Effect σ (Array Entry) := fun world =>
  let work : Effect (Session σ) Unit := do
    observe (do env.setControl (← env.control).restart)
    let started ← observe env.timer
    let outcome ← (loop env limit (turnLimit limit fuel)).attempt
    conclude env started (openEntries (← get).frames) outcome
  let (outcome, s) := work ⟨world, entries, [⟨script, 0, none⟩], 0⟩
  (outcome.map fun _ => s.entries, s.world)

end

end Gleaner
