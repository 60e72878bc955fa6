import AngleCalc.FixedPoint.Machin

/-!
# The number e

The series of the inverse factorials in integers. Each term is the term before
it divided by the next natural number and rounded down; the sum ends where the
terms vanish.
-/

namespace AngleCalc
namespace FixedPoint

/-- The sum of the terms from the index `k + 1` on, of which the first is `term`. -/
def factorialTail (term k : Nat) : Nat :=
  if _ : term = 0 then 0
  else term + factorialTail (term / (k + 2)) (k + 1)
termination_by term
decreasing_by
  rename_i hterm
  exact Nat.div_lt_self (Nat.pos_of_ne_zero hterm) (by omega)

/-- The sum of the inverse factorials in units of `1 / scale`, each rounded down.
The terms of index zero and one are both the unit itself. -/
def inverseFactorials (scale : Nat) : Nat :=
  scale + factorialTail scale 0

def euler (digits : Nat) : Nat :=
  inverseFactorials (unit (digits + guardDigits)) / unit guardDigits

end FixedPoint
end AngleCalc
