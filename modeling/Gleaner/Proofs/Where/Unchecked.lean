import Gleaner.Command.PrintFilter
import Gleaner.Proofs.Json.RoundTrip
import Gleaner.Proofs.Validation.Found
import Gleaner.Proofs.Where.Theorems

namespace Gleaner

open Validation Where

namespace Where

-- The field that tells whether a group is negated, where it is one of truth values.
def negation (fields : List (String × Value)) : Bool :=
  ((Fields.get? fields "negate").map isSet).getD false

section

variable {fields : List (String × Value)} {items : List Value}

theorem compile_conjunction (hcondition : Fields.get? fields "condition" = none)
    (hand : Fields.get? fields "and" = some (.list items)) :
    compile (.object fields) =
      (compileAll items).map (groupText " AND " "1=1" (negation fields)) := by
  rw [compile, hcondition]
  dsimp only
  split
  · next children hsome =>
    cases hand.symm.trans hsome
    cases compileAll items <;> rfl
  · next hother hsome =>
    cases hand.symm.trans hsome
    exact absurd rfl (hother items)
  · next hnone => cases hand.symm.trans hnone

theorem compile_disjunction (hcondition : Fields.get? fields "condition" = none)
    (hand : Fields.get? fields "and" = none)
    (hor : Fields.get? fields "or" = some (.list items)) :
    compile (.object fields) =
      (compileAll items).map (groupText " OR " "1=0" (negation fields)) := by
  rw [compile, hcondition]
  dsimp only
  split
  · next hsome => cases hand.symm.trans hsome
  · next hsome => cases hand.symm.trans hsome
  · split
    · next children hsome =>
      cases hor.symm.trans hsome
      cases compileAll items <;> rfl
    · next hother => exact absurd hor (hother items)

end

end Where

namespace Filter

section

variable {fields : List (String × Value)}

end

section

variable {fields : List (String × Value)} {key : String} {children : List Filter}

end

end Filter

end Gleaner
