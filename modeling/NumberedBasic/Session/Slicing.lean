import NumberedBasic.Session.Dialogue

/-!
# Slicing

A session that is left to itself and executed in one slice after another.
-/

namespace NumberedBasic

namespace Session

/-- Executes a slice for each budget, with no call in between. The events other than `running` come
out, each with the session as it is then. -/
def slices : List Nat → Session → List (Event × Session)
  | [], _ => []
  | cycles :: budgets, session =>
      let result := session.execute cycles
      if result.1 = .running then
        result.2.slices budgets
      else
        result :: result.2.slices budgets

end Session

end NumberedBasic
