import Gleaner.Script.Instruction

namespace Gleaner.Instruction

def markerName? : Instruction → Option String
  | .marker name => some name
  | _ => none

-- The markers of a list, in order.
def markers (is : List Instruction) : List String := is.filterMap markerName?

mutual

-- The names of the jumps below an instruction that reach no marker, when the given ones can be
-- seen from the list it stands in.
def unresolvedIn (visible : List String) : Instruction → List String
  | .jump name => if visible.contains name then [] else [name]
  | .condition _ consequent alternative =>
    unresolvedList (markers consequent ++ visible) consequent ++
      unresolvedBranch visible alternative
  | _ => []

def unresolvedList (visible : List String) : List Instruction → List String
  | [] => []
  | i :: rest => unresolvedIn visible i ++ unresolvedList visible rest

def unresolvedBranch (visible : List String) : Option (List Instruction) → List String
  | none => []
  | some is => unresolvedList (markers is ++ visible) is

end

-- The names of the jumps of a script that reach no marker. A jump sees the markers of its own
-- list and of every enclosing one, never those of the other branch.
def unresolvedJumps (is : List Instruction) : List String := unresolvedList (markers is) is

end Gleaner.Instruction
