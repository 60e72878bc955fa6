import AngleCalc.Binary64.Shortest
import AngleCalc.Decimal.Text
import AngleCalc.FixedPoint.Root

/-!
# Powers and square roots

A power with a small integer exponent is exact, by repeated squaring. The
exponent is small if it is at most `maxExponent` and the result needs at most
`maxBits` bits. Any other power is computed in double precision. A square root
is rounded down to `workingDigits` digits after the point.
-/

namespace AngleCalc

/-- Digits after the point of the built-in constants and of square roots. -/
def workingDigits : Nat := 60

namespace Power

def maxExponent : Nat := 1024

def maxBits : Nat := 65536

/-- Repeated squaring: `acc` times `n` factors `base`. A factor is taken for each odd
exponent, and the exponent is halved as the base is squared, unless it is used up. -/
def powerLoop (acc base : Rat) (n : Nat) : Rat :=
  if n = 0 then acc
  else
    powerLoop (if n % 2 = 1 then acc * base else acc)
      (if 0 < n / 2 then base * base else base) (n / 2)
termination_by n

def natPower (x : Rat) (n : Nat) : Rat :=
  powerLoop 1 x n

def bitSize (x : Rat) : Nat :=
  max (FixedPoint.bitLength x.num.natAbs) (FixedPoint.bitLength x.den)

/-- Whether `n` is a signed 64-bit integer. -/
def isWord (n : Int) : Bool :=
  decide (Int64.minValue.toInt ≤ n) && decide (n ≤ Int64.maxValue.toInt)

/-- The product of two 64-bit numbers, or the largest one if it is too large for 64 bits. -/
def saturatingProduct (m n : Nat) : Nat :=
  if m * n < UInt64.size then m * n else UInt64.size - 1

def isExact (x : Rat) (n : Int) : Bool :=
  isWord n && decide (n.natAbs ≤ maxExponent) &&
    decide (saturatingProduct n.natAbs (bitSize x) ≤ maxBits)

def intPower (x : Rat) (n : Int) : Except Failure Rat :=
  let size := natPower x n.natAbs
  if 0 ≤ n then .ok size
  else if size = 0 then .error .divisionByZero
  else .ok size⁻¹

def floatPower (x y : Rat) : Except Failure Rat :=
  let result := Float.pow (Binary64.ofRat x) (Binary64.ofRat y)
  if result.isNaN then
    .error (.undefinedCall (Decimal.toText x ++ "^" ++ Decimal.toText y))
  else Binary64.toRat result

def power (x y : Rat) : Except Failure Rat :=
  if y.den = 1 ∧ isExact x y.num = true then intPower x y.num else floatPower x y

def squareRoot (x : Rat) : Except Failure Rat :=
  if x < 0 then .error (.undefinedCall ("sqrt(" ++ Decimal.toText x ++ ")"))
  else .ok (FixedPoint.toRat (FixedPoint.squareRoot x workingDigits) workingDigits)

end Power
end AngleCalc
