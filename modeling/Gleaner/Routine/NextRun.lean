import Gleaner.Failure
import Gleaner.Routine.Schedule

namespace Gleaner

-- The next run of a routine given by the data that are stored of it. The schedule is looked at
-- only if the routine is active.
def nextRunOf (status schedule : Value) (now : Int) : Except Failure (Option Int) :=
  match status.text?.bind Status.ofName? with
  | none => .error (.status status.quoted)
  | some .active =>
    match Schedule.check schedule with
    | .valid s => .ok (s.next? now)
    | .invalid issues => .error (.invalid issues)
  | some _ => .ok none

end Gleaner
