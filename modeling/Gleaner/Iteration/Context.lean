import Gleaner.Document

namespace Gleaner

-- A row of a table, by the names of its columns.
abbrev Row := List (String × Value)

-- The row, or the number of a range, that one run is bound to.
structure IterationContext where
  iteration : Nat
  source : String
  identifier : String
  value : Value
  row : Option Row
deriving Repr

namespace IterationContext

def document (c : IterationContext) : Document :=
  .record [("iteration", .int c.iteration), ("dataSourceName", .text c.source),
    ("identifier", .text c.identifier), ("value", .leaf c.value),
    ("row", .optional (fun r => .leaf (.object r)) c.row)]

end IterationContext

end Gleaner
