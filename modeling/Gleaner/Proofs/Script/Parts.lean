import Gleaner.Script.Instruction
import Gleaner.Script.Matcher
import Gleaner.Store.Key

namespace Gleaner

namespace Instruction

mutual

-- An instruction and those inside of its branches.
def parts : Instruction → List Instruction
  | .condition test consequent alternative =>
    .condition test consequent alternative ::
      (partsOfList consequent ++ partsOfBranch alternative)
  | i => [i]

def partsOfList : List Instruction → List Instruction
  | [] => []
  | i :: rest => parts i ++ partsOfList rest

def partsOfBranch : Option (List Instruction) → List Instruction
  | none => []
  | some is => partsOfList is

end

theorem self_mem_parts (i : Instruction) : i ∈ i.parts := by
  cases i <;> exact List.mem_cons_self

theorem mem_partsOfList {is : List Instruction} {i part : Instruction} (hi : i ∈ is)
    (hp : part ∈ i.parts) : part ∈ partsOfList is := by
  induction is with
  | nil => cases hi
  | cons first rest ih =>
    rw [partsOfList, List.mem_append]
    rcases List.mem_cons.mp hi with rfl | hi
    · exact .inl hp
    · exact .inr (ih hi)

theorem mem_parts_of_branch {test : Condition} {consequent chosen : List Instruction}
    {alternative : Option (List Instruction)} {part : Instruction}
    (hb : chosen = consequent ∨ chosen = alternative.getD []) (hp : part ∈ partsOfList chosen) :
    part ∈ (condition test consequent alternative).parts := by
  rw [parts, List.mem_cons, List.mem_append]
  rcases hb with rfl | rfl
  · exact .inr (.inl hp)
  · cases alternative with
    | none => cases hp
    | some is => exact .inr (.inr hp)

-- The data source an instruction writes to and the columns it writes there. A key that names no
-- column is never written.
def writes? : Instruction → Option (String × List String)
  | saveData key _ => (DataKey.read? key).map fun k => (k.source, [k.column])
  | saveDataBatch source items => some (source, items.map BatchItem.column)
  | deleteData source => some (source, [])
  | _ => none

end Instruction

open Instruction

-- Nothing in a script writes to another data source.
def WritesOnly (source : String) (script : List Instruction) : Prop :=
  ∀ i ∈ partsOfList script, ∀ w ∈ i.writes?, w.1 = source

instance (source : String) (script : List Instruction) : Decidable (WritesOnly source script) :=
  inferInstanceAs (Decidable (∀ i ∈ partsOfList script, ∀ w ∈ i.writes?, w.1 = source))

def writtenColumns (script : List Instruction) : List String :=
  (partsOfList script).flatMap fun i => i.writes?.elim [] (·.2)

theorem mem_writtenColumns {script : List Instruction} {i : Instruction}
    {w : String × List String} {column : String} (hi : i ∈ partsOfList script)
    (hw : w ∈ i.writes?) (hc : column ∈ w.2) : column ∈ writtenColumns script := by
  refine List.mem_flatMap.mpr ⟨i, hi, ?_⟩
  rw [Option.mem_def.mp hw]
  exact hc

-- The texts in which tokens are expanded when a part of a script is run.
def TextMatcher.texts : TextMatcher → List String
  | .exactly s => [s]
  | .containing _ => []

def Selector.texts : Selector → List String
  | .query q => [q]
  | .tagName _ => []
  | .textContent m => m.texts
  | .attributes ms => ms.flatMap fun m => m.2.texts

def Selectors.texts (selectors : Selectors) : List String := selectors.flatMap Selector.texts

def Source.texts : Source → List String
  | .elementText selectors _ => selectors.texts
  | .elementAttribute selectors _ _ => selectors.texts
  | _ => []

-- The sources of what an action types or hands over.
def Action.sources : Action → List Source
  | .type _ value .. => [value]
  | .evaluate _ arguments => arguments
  | _ => []

def Action.texts : Action → List String
  | .navigate url => [url]
  | .click selectors _ => selectors.texts
  | .type selectors .. => selectors.texts
  | .scrollToElement selectors => selectors.texts
  | _ => []

def Condition.texts : Condition → List String
  | .isVisible selectors _ => selectors.texts
  | .textEquals source _ => source.texts

namespace Instruction

-- The texts of an instruction itself; those of its branches are texts of other instructions.
def texts : Instruction → List String
  | .pageAction _ action => action.texts ++ action.sources.flatMap Source.texts
  | .condition test .. => test.texts
  | .saveData _ source => source.texts
  | .saveDataBatch _ items => items.flatMap fun item => item.value.texts
  | _ => []

-- The pattern an instruction looks for in a text.
def pattern? : Instruction → Option PatternSource
  | .condition (.textEquals _ (.containing p)) .. => some p
  | _ => none

end Instruction

-- Whether a pattern and its flags can be read.
def PatternSource.compiles (p : PatternSource) : Bool :=
  match flagsOf p.flags.toList with
  | .ok flags => (Pattern.read p.source.toList flags).isOk
  | .error _ => false

theorem PatternSource.occursIn_ok {p : PatternSource} (h : p.compiles = true) (text : String) :
    ∃ found, p.occursIn text = .ok found := by
  unfold compiles at h
  unfold occursIn
  cases hf : flagsOf p.flags.toList with
  | error e =>
    rw [hf] at h
    cases h
  | ok flags =>
    rw [hf] at h
    cases hr : Pattern.read p.source.toList flags with
    | error e =>
      dsimp only at h
      rw [hr] at h
      cases h
    | ok node =>
      refine ⟨(Pattern.search text.toList.toArray node.1 node.2).isSome, ?_⟩
      change ((Pattern.read p.source.toList flags).mapError _ >>= _) = _
      rw [hr]
      rfl

end Gleaner
