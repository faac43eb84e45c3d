import Gleaner.Settings

namespace Gleaner

-- Lines of a log have a level, the request and the execution they belong to, and a name.
namespace Log

def levels : List (String × Int) :=
  [("CRITICAL", 50), ("FATAL", 50), ("ERROR", 40), ("WARN", 30), ("WARNING", 30), ("INFO", 20),
    ("DEBUG", 10), ("NOTSET", 0)]

-- The least level that is written, by its name.
def threshold? (name : String) : Option Int := (levels.find? (·.1 == name)).map (·.2)

def shownLevels : List (Int × String) :=
  [(50, "CRITICAL"), (40, "ERROR"), (30, "WARNING"), (20, "INFO"), (10, "DEBUG"), (0, "NOTSET")]

def levelName (level : Int) : String :=
  ((shownLevels.find? (·.1 == level)).map (·.2)).getD ("Level " ++ toString level)

-- The name under which the lines of one run stand.
def executionId (scraper : String) (iteration : Option Int) : String :=
  "scraper-" ++ scraper ++ (iteration.elim "" fun n => "#" ++ toString n)

-- A line, unless its level is too low. Levels up to zero are never written.
def line? (threshold level : Int) (request execution : Option String) (name message : String) :
    Option String :=
  if level ≤ 0 ∨ level < threshold then none
  else some (levelName level ++ " | " ++ request.getD "-" ++ " | " ++ execution.getD "-" ++
    " | " ++ name ++ " | " ++ message)

end Log

end Gleaner
