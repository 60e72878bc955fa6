/-!
# The order of magnitude of a rational

The exponent of the leading decimal digit. The numbers of digits of numerator
and denominator determine it up to one, and one comparison decides.
-/

namespace AngleCalc
namespace Decimal

/-- How many decimal digits `n` has; zero has one. -/
def digitCount (n : Nat) : Nat :=
  (Nat.toDigits 10 n).length

/-- The exponent of the leading digit of a positive rational, or one more. -/
def exponentGuess (x : Rat) : Int :=
  (digitCount x.num.natAbs : Int) - (digitCount x.den : Int)

def leadingExponent (x : Rat) : Int :=
  let guess := exponentGuess x
  if x < (10 : Rat) ^ guess then guess - 1 else guess

end Decimal
end AngleCalc
