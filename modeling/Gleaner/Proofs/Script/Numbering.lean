import Gleaner.Proofs.Script.Parts
import Gleaner.Run.Interpreter
import Gleaner.Script.Jumps

namespace Gleaner

-- A list around a place, and where it goes on once what stands there is over.
structure Scope where
  instructions : List Instruction
  next : Nat

-- A jump at its place in a script, with the lists around that place, the innermost first.
structure Occurrence where
  name : String
  scopes : List Scope

-- No list around the jump has its marker.
def Occurrence.isLost (o : Occurrence) : Bool :=
  !o.scopes.any fun scope => (Instruction.markers scope.instructions).contains o.name

namespace Instruction

mutual

-- The jumps of an instruction, where the innermost of the given scopes is its own list.
def jumpsIn (scopes : List Scope) : Instruction → List Occurrence
  | .jump name => [⟨name, scopes⟩]
  | .condition _ consequent alternative =>
    jumpsFrom scopes consequent 0 consequent ++ jumpsOfBranch scopes alternative
  | _ => []

-- The jumps of a list from a place on.
def jumpsFrom (around : List Scope) (is : List Instruction) (place : Nat) :
    List Instruction → List Occurrence
  | [] => []
  | i :: rest =>
    jumpsIn (⟨is, place + 1⟩ :: around) i ++ jumpsFrom around is (place + 1) rest

def jumpsOfBranch (around : List Scope) : Option (List Instruction) → List Occurrence
  | none => []
  | some is => jumpsFrom around is 0 is

end

-- The jumps of a script, in the order of the text.
def jumps (script : List Instruction) : List Occurrence := jumpsFrom [] script 0 script

theorem markers_contains (name : String) (is : List Instruction) :
    (markers is).contains name = is.any fun i => i.markerName? == some name := by
  induction is with
  | nil => rfl
  | cons i rest ih =>
    rw [List.any_cons, ← ih]
    cases hm : i.markerName? with
    | none =>
      rw [markers, List.filterMap_cons_none hm]
      rfl
    | some other =>
      rw [markers, List.filterMap_cons_some hm, List.contains_cons, Bool.beq_comm]
      rfl

-- The markers the check has collected are those of the lists around a place.
def Collected (visible : List String) (scopes : List Scope) : Prop :=
  ∀ name, visible.contains name =
    scopes.any fun scope => (markers scope.instructions).contains name

theorem Collected.inside {visible : List String} {around : List Scope}
    (h : Collected visible around) (is : List Instruction) (next : Nat) :
    Collected (markers is ++ visible) (⟨is, next⟩ :: around) := by
  intro name
  rw [List.contains_append, h, List.any_cons]

theorem collected_nil : Collected [] [] := fun _ => rfl

-- The names of the jumps that are lost.
def lostNames (os : List Occurrence) : List String := (os.filter (·.isLost)).map (·.name)

theorem lostNames_nil : lostNames [] = [] := rfl

theorem lostNames_singleton (o : Occurrence) :
    lostNames [o] = if o.isLost then [o.name] else [] := by
  unfold lostNames
  rw [List.filter_cons, List.filter_nil]
  split <;> rfl

theorem lostNames_append (os ps : List Occurrence) :
    lostNames (os ++ ps) = lostNames os ++ lostNames ps := by
  simp [lostNames]

mutual

theorem unresolvedIn_eq {visible : List String} {around : List Scope} {is : List Instruction}
    (h : Collected visible around) (next : Nat) : (i : Instruction) →
    unresolvedIn (markers is ++ visible) i = lostNames (jumpsIn (⟨is, next⟩ :: around) i)
  | .jump name => by
    rw [unresolvedIn, jumpsIn, lostNames_singleton, Occurrence.isLost, h.inside is next name]
    cases (List.any _ _) <;> rfl
  | .condition _ consequent alternative => by
    rw [unresolvedIn, jumpsIn, lostNames_append,
      unresolvedList_eq (h.inside is next) consequent 0 consequent,
      unresolvedBranch_eq (h.inside is next) alternative]
  | .pageAction .. => by simp only [unresolvedIn, jumpsIn, lostNames_nil]
  | .saveData .. => by simp only [unresolvedIn, jumpsIn, lostNames_nil]
  | .saveDataBatch .. => by simp only [unresolvedIn, jumpsIn, lostNames_nil]
  | .deleteData .. => by simp only [unresolvedIn, jumpsIn, lostNames_nil]
  | .marker .. => by simp only [unresolvedIn, jumpsIn, lostNames_nil]

theorem unresolvedList_eq {visible : List String} {around : List Scope}
    (h : Collected visible around) (is : List Instruction) (place : Nat) :
    (rest : List Instruction) →
    unresolvedList (markers is ++ visible) rest = lostNames (jumpsFrom around is place rest)
  | [] => by rw [unresolvedList, jumpsFrom]; rfl
  | i :: rest => by
    rw [unresolvedList, jumpsFrom, lostNames_append, unresolvedIn_eq h (place + 1) i,
      unresolvedList_eq h is (place + 1) rest]

theorem unresolvedBranch_eq {visible : List String} {around : List Scope}
    (h : Collected visible around) : (branch : Option (List Instruction)) →
    unresolvedBranch visible branch = lostNames (jumpsOfBranch around branch)
  | none => by rw [unresolvedBranch, jumpsOfBranch]; rfl
  | some is => by rw [unresolvedBranch, jumpsOfBranch, unresolvedList_eq h is 0 is]

end

-- The check before a script is stored reports the lost jumps, one by one and in order.
theorem unresolvedJumps_eq (script : List Instruction) :
    unresolvedJumps script = lostNames (jumps script) := by
  rw [unresolvedJumps, jumps, ← unresolvedList_eq collected_nil, List.append_nil]

-- The jumps of an element are jumps of its list.
theorem mem_jumpsFrom {around : List Scope} {is rest : List Instruction} {place k : Nat}
    {i : Instruction} {o : Occurrence} (hi : rest[k]? = some i)
    (ho : o ∈ jumpsIn (⟨is, place + k + 1⟩ :: around) i) :
    o ∈ jumpsFrom around is place rest := by
  induction rest generalizing place k with
  | nil => cases hi
  | cons first rest ih =>
    rw [jumpsFrom, List.mem_append]
    cases k with
    | zero =>
      cases hi
      exact .inl ho
    | succ k =>
      have : place + (k + 1) + 1 = place + 1 + k + 1 := by omega
      rw [this] at ho
      exact .inr (ih hi ho)

end Instruction

section

open Instruction

-- The instructions of a script are numbered in the order of the text, a condition before those of
-- its branches: `partsOfList` lists them in that order.

-- A list of a script, and the number of its first instruction.
structure Block where
  instructions : List Instruction
  start : Nat

namespace Block

-- The number of the instruction at a place of the list. At its end, it is the next number that is
-- not one of the list.
def number (b : Block) (place : Nat) : Nat :=
  b.start + (partsOfList (b.instructions.take place)).length

-- The branch of a condition at a place of the list.
def branch (b : Block) (place : Nat) (consequent : List Instruction)
    (alternative : Option (List Instruction)) : Bool → Block
  | true => ⟨consequent, b.number place + 1⟩
  | false => ⟨alternative.getD [], b.number place + 1 + (partsOfList consequent).length⟩

end Block

-- The number of the marker a jump goes to: the first one of its name in the innermost of the lists
-- around the jump that has one.
def target? (name : String) : List Block → Option Nat
  | [] => none
  | b :: around =>
    match markerIndex? name b.instructions with
    | some place => some (b.number place)
    | none => target? name around

namespace Instruction

mutual

-- The jumps of an instruction with a given number in the first of the given lists, each with its
-- own number and that of its target, if it has one.
def leapsIn (around : List Block) (number : Nat) : Instruction → List (Nat × Option Nat)
  | .jump name => [(number, target? name around)]
  | .condition _ consequent alternative =>
    leapsFrom (⟨consequent, number + 1⟩ :: around) (number + 1) consequent ++
      leapsOfBranch around (number + 1 + (partsOfList consequent).length) alternative
  | _ => []

-- Those of some instructions that follow each other, from a number on.
def leapsFrom (around : List Block) (number : Nat) : List Instruction → List (Nat × Option Nat)
  | [] => []
  | i :: rest => leapsIn around number i ++ leapsFrom around (number + i.parts.length) rest

def leapsOfBranch (around : List Block) (number : Nat) :
    Option (List Instruction) → List (Nat × Option Nat)
  | none => []
  | some is => leapsFrom (⟨is, number⟩ :: around) number is

end

-- The jumps of a script.
def leaps (script : List Instruction) : List (Nat × Option Nat) := leapsFrom [⟨script, 0⟩] 0 script

end Instruction

-- Every jump that has a target stands before it in the text.
def OnlyForward (script : List Instruction) : Prop :=
  ∀ leap ∈ leaps script, ∀ target ∈ leap.2, leap.1 < target

instance (script : List Instruction) : Decidable (OnlyForward script) :=
  inferInstanceAs (Decidable (∀ leap ∈ leaps script, ∀ target ∈ leap.2, leap.1 < target))

namespace Instruction

theorem partsOfList_append (is js : List Instruction) :
    partsOfList (is ++ js) = partsOfList is ++ partsOfList js := by
  induction is with
  | nil => rfl
  | cons i rest ih => simp only [List.cons_append, partsOfList, ih, List.append_assoc]

-- An instruction is the first of its parts.
theorem parts_eq_cons (i : Instruction) : ∃ inside, i.parts = i :: inside := by
  cases i <;> exact ⟨_, rfl⟩

theorem partsOfBranch_eq (alternative : Option (List Instruction)) :
    partsOfBranch alternative = partsOfList (alternative.getD []) := by
  cases alternative <;> rfl

-- What stands at a place, between what comes before and what comes after.
theorem partsOfList_split {is : List Instruction} {place : Nat} {i : Instruction}
    (hi : is[place]? = some i) :
    partsOfList is =
      partsOfList (is.take place) ++ i.parts ++ partsOfList (is.drop (place + 1)) := by
  obtain ⟨hlt, rfl⟩ := List.getElem?_eq_some_iff.mp hi
  have hsplit : is.take place ++ is[place] :: is.drop (place + 1) = is := by
    rw [← List.drop_eq_getElem_cons hlt, List.take_append_drop]
  rw [List.append_assoc, ← partsOfList, ← partsOfList_append, hsplit]

-- The jumps of an element are jumps of its list.
theorem mem_leapsFrom {around : List Block} {is : List Instruction} {number place : Nat}
    {i : Instruction} {leap : Nat × Option Nat} (hi : is[place]? = some i)
    (hleap : leap ∈ leapsIn around (number + (partsOfList (is.take place)).length) i) :
    leap ∈ leapsFrom around number is := by
  induction is generalizing number place with
  | nil => cases hi
  | cons first rest ih =>
    rw [leapsFrom, List.mem_append]
    cases place with
    | zero =>
      cases hi
      exact .inl hleap
    | succ place =>
      rw [List.take_succ_cons, partsOfList, List.length_append, ← Nat.add_assoc] at hleap
      exact .inr (ih hi hleap)

end Instruction

namespace Block

variable {b : Block} {place : Nat} {i : Instruction}

@[simp] theorem number_zero (b : Block) : b.number 0 = b.start := rfl

theorem number_succ (hi : b.instructions[place]? = some i) :
    b.number (place + 1) = b.number place + i.parts.length := by
  rw [number, number, List.take_add_one, hi, partsOfList_append, List.length_append, Nat.add_assoc]
  simp [partsOfList]

theorem number_lt_succ (hi : b.instructions[place]? = some i) :
    b.number place < b.number (place + 1) := by
  obtain ⟨inside, hparts⟩ := parts_eq_cons i
  rw [number_succ hi, hparts, List.length_cons]
  omega

theorem number_end (hn : b.instructions[place]? = none) :
    b.number place = b.start + (partsOfList b.instructions).length := by
  rw [number, List.take_of_length_le (List.getElem?_eq_none_iff.mp hn)]

-- A branch comes behind its condition and ends before what follows that.
theorem lt_branch_start (b : Block) (place : Nat) (consequent : List Instruction)
    (alternative : Option (List Instruction)) (isMet : Bool) :
    b.number place < (b.branch place consequent alternative isMet).start := by
  cases isMet <;> simp only [branch] <;> omega

theorem branch_end_le {test : Condition} {consequent : List Instruction}
    {alternative : Option (List Instruction)}
    (hi : b.instructions[place]? = some (.condition test consequent alternative)) (isMet : Bool) :
    (b.branch place consequent alternative isMet).start +
        (partsOfList (b.branch place consequent alternative isMet).instructions).length ≤
      b.number (place + 1) := by
  rw [number_succ hi, parts, partsOfBranch_eq]
  cases isMet <;> simp only [branch, List.length_cons, List.length_append] <;> omega

-- The list is part of a script, and numbered as such.
def IsPart (script : List Instruction) (b : Block) : Prop :=
  ∃ before after, partsOfList script = before ++ partsOfList b.instructions ++ after ∧
    before.length = b.start

theorem isPart_script (script : List Instruction) : IsPart script ⟨script, 0⟩ :=
  ⟨[], [], by simp, rfl⟩

theorem IsPart.branch {script : List Instruction} (h : b.IsPart script) {test : Condition}
    {consequent : List Instruction} {alternative : Option (List Instruction)}
    (hi : b.instructions[place]? = some (.condition test consequent alternative)) (isMet : Bool) :
    (b.branch place consequent alternative isMet).IsPart script := by
  obtain ⟨before, after, hparts, hstart⟩ := h
  rw [partsOfList_split hi, parts, partsOfBranch_eq] at hparts
  let first := before ++ partsOfList (b.instructions.take place) ++
    [.condition test consequent alternative]
  cases isMet with
  | true =>
    refine ⟨first, partsOfList (alternative.getD []) ++
      partsOfList (b.instructions.drop (place + 1)) ++ after, ?_, ?_⟩
    · rw [hparts]
      simp [first, Block.branch]
    · simp only [first, Block.branch, number, List.length_append, hstart, List.length_singleton]
  | false =>
    refine ⟨first ++ partsOfList consequent,
      partsOfList (b.instructions.drop (place + 1)) ++ after, ?_, ?_⟩
    · rw [hparts]
      simp [first, Block.branch]
    · simp only [first, Block.branch, number, List.length_append, hstart, List.length_singleton]

theorem IsPart.end_le {script : List Instruction} (h : b.IsPart script) :
    b.start + (partsOfList b.instructions).length ≤ (partsOfList script).length := by
  obtain ⟨before, after, hparts, hstart⟩ := h
  rw [hparts, ← hstart, List.length_append, List.length_append]
  omega

theorem IsPart.number_le {script : List Instruction} (h : b.IsPart script) (place : Nat) :
    b.number place ≤ (partsOfList script).length := by
  refine Nat.le_trans ?_ h.end_le
  have hsplit := congrArg (fun is => (partsOfList is).length)
    (List.take_append_drop place b.instructions)
  simp only [partsOfList_append, List.length_append] at hsplit
  rw [number]
  omega

-- The instruction at a place has its number.
theorem IsPart.getElem?_number {script : List Instruction} (h : b.IsPart script)
    (hi : b.instructions[place]? = some i) : (partsOfList script)[b.number place]? = some i := by
  obtain ⟨before, after, hparts, hstart⟩ := h
  obtain ⟨inside, hfirst⟩ := parts_eq_cons i
  have hlength : b.number place = (before ++ partsOfList (b.instructions.take place)).length := by
    rw [List.length_append, hstart, number]
  rw [hparts, partsOfList_split hi, hfirst, hlength]
  simp only [List.append_assoc, List.cons_append]
  rw [← List.append_assoc, List.getElem?_append_right (Nat.le_refl _), Nat.sub_self]
  rfl

end Block

end

end Gleaner
