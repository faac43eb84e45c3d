import Gleaner.Catalog.Execute
import Gleaner.Rehearsal.World

namespace Gleaner.Rehearsal

-- The catalog of a rehearsal.
def keeper : Keeper World where
  catalog := return (← get).catalog
  keep catalog := modify fun w => { w with catalog }

end Gleaner.Rehearsal
