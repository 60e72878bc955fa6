/-!
# Fixed-point numbers

A fixed-point number is an integer that counts units of the last place: with
`digits` digits after the point, `n` stands for `n` divided by ten to the power
`digits`. This module rounds a rational to such a number, reads it back as a
rational, and writes it with a decimal point.
-/

namespace AngleCalc

/-- The nearest integer, a half going away from zero. -/
def roundHalfAway (x : Rat) : Int :=
  if x < 0 then -(1 / 2 - x).floor else (x + 1 / 2).floor

namespace FixedPoint

/-- How many units of the last place make one. The number of digits is cut to a word of 32 bits,
so from `2 ^ 32` digits on the powers of ten start over again. -/
def unit (digits : Nat) : Nat :=
  Nat.pow 10 (digits % UInt32.size)

/-- The power of ten with an exponent of either sign, whose size is cut in the same way. -/
def tenPower (exponent : Int) : Rat :=
  if exponent < 0 then (unit exponent.natAbs : Rat)⁻¹ else unit exponent.natAbs

/-- The fixed-point number nearest to `x`, a half going away from zero. -/
def nearest (x : Rat) (digits : Nat) : Int :=
  roundHalfAway (x * (unit digits : Rat))

def toRat (n : Int) (digits : Nat) : Rat :=
  mkRat n (unit digits)

/-!
## Decimal text
-/

def paddedDigits (width n : Nat) : List Char :=
  (Nat.toDigits 10 n).leftpad width '0'

def magnitudeChars (n digits : Nat) : List Char :=
  if digits = 0 then Nat.toDigits 10 n
  else
    Nat.toDigits 10 (n / unit digits) ++
      '.' :: paddedDigits digits (n % unit digits)

def chars (n : Int) (digits : Nat) : List Char :=
  (if n < 0 then ['-'] else []) ++ magnitudeChars n.natAbs digits

/-- The text of a fixed-point number: a sign if it is negative, and exactly
`digits` digits after the point. -/
def text (n : Int) (digits : Nat) : String :=
  String.ofList (chars n digits)

end FixedPoint
end AngleCalc
