import Gleaner.Rehearsal.Browser
import Gleaner.Rehearsal.Keeper
import Gleaner.Rehearsal.Tables
import Gleaner.Service.Endpoints

namespace Gleaner.Rehearsal

-- What the service works with in a rehearsal.
def resources (settings : Settings) : Service.Resources World where
  settings := settings
  keeper := keeper
  launcher := Browser.launcher
  pages browser := browserPages browser settings.navigationTimeout
  warehouse sources := tableStore sources settings.identifierColumn
  environment := environment
  now := World.now

end Gleaner.Rehearsal
