import LazyFields.EvalError
import LazyFields.Text.Decimal

/-!
Division of machine integers that reports what has no quotient: a zero divisor, and the
one quotient that is too large for a machine integer.
-/

namespace LazyFields

open Text (decimal)

/-- The quotient rounded toward zero; the least integer over minus one would leave the range. -/
def checkedDiv (dividend divisor : Int32) : Except EvalError Int32 :=
  if divisor = 0 then
    .error (.arithmetic "/ by zero")
  else if dividend = Int32.minValue ∧ divisor = -1 then
    .error (.arithmetic (decimal dividend ++ " / " ++ decimal divisor ++ " overflows"))
  else
    .ok (dividend / divisor)

end LazyFields
