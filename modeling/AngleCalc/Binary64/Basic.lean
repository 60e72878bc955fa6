/-!
# Binary64

A double is read as the number it stands for, and a rational is rounded to a
double, both in exact integer arithmetic on the bits of the double. The nearest
double is taken, and of two equally near ones the one with an even significand.
-/

namespace AngleCalc
namespace Binary64

def fractionBits : Nat := 52

def leastExponent : Int := -1074

def infinityCode : Nat := 0x7FF0000000000000

def signCode : Nat := 0x8000000000000000

/-- What a double stands for: a finite one is a significand times a power of two. -/
inductive Reading where
  | nan
  | infinite (negative : Bool)
  | finite (negative : Bool) (significand : Nat) (exponent : Int)
deriving DecidableEq, Repr

/-- What the bits of a double without its sign stand for. -/
def readSize (negative : Bool) (size : Nat) : Reading :=
  let biased := size >>> fractionBits
  let fraction := size % (1 <<< fractionBits)
  if infinityCode < size then .nan
  else if size = infinityCode then .infinite negative
  else if biased = 0 then .finite negative fraction leastExponent
  else .finite negative ((1 <<< fractionBits) + fraction) (leastExponent + biased - 1)

def read (x : Float) : Reading :=
  let code := x.toBits.toNat
  if signCode ≤ code then readSize true (code - signCode) else readSize false code

/-!
## From a rational
-/

/-- The quotient of two natural numbers rounded to the nearest integer, a half
going to the even one. -/
def roundHalfEven (num den : Nat) : Nat :=
  let quotient := num / den
  let twice := 2 * (num % den)
  if den < twice ∨ (twice = den ∧ quotient % 2 = 1) then quotient + 1 else quotient

/-- `n` times two to the power `e`, or `n` itself where `e` is negative. -/
def shiftUp (n : Nat) (e : Int) : Nat :=
  n <<< e.toNat

/-- The exponent of the largest power of two that is at most the quotient of two
positive numbers. -/
def binaryExponent (num den : Nat) : Int :=
  let guess := (num.log2 : Int) - (den.log2 : Int)
  if shiftUp num (-guess) < shiftUp den guess then guess - 1 else guess

/-- The bits of the double nearest to the quotient of two positive numbers. The
carry of a significand that rounds up to a power of two runs into the exponent. -/
def nearestCode (num den : Nat) : Nat :=
  let exponent := binaryExponent num den - fractionBits
  let quantum := if exponent < leastExponent then leastExponent else exponent
  let significand := roundHalfEven (shiftUp num (-quantum)) (shiftUp den quantum)
  let code := ((quantum - leastExponent).toNat <<< fractionBits) + significand
  if code < infinityCode then code else infinityCode

/-- The double nearest to `x`. A negative number that is too small becomes the
negative zero. -/
def ofRat (x : Rat) : Float :=
  let code := if x.num = 0 then 0 else nearestCode x.num.natAbs x.den
  Float.ofBits (UInt64.ofNat (if x.num < 0 then signCode + code else code))

end Binary64
end AngleCalc
