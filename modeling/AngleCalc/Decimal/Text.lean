import AngleCalc.FixedPoint.Basic

/-!
# Decimal text of a rational

A rational is written with a chosen number of digits after the point, rounded,
or in its canonical form: exactly if its expansion ends within
`canonicalDigits` places, and rounded to that many places if it does not, in
both cases without trailing zeros.
-/

namespace AngleCalc
namespace Decimal

/-- The most digits after the point that a canonical text has. -/
def canonicalDigits : Nat := 78

/-!
## The length of an expansion
-/

/-- Divide `n` by `p` for as long as it is a multiple. The result holds how often
that was possible, counted on from `count`, and what is left. -/
def divideOut (p n count : Nat) : Nat × Nat :=
  if _ : 1 < p ∧ 0 < n ∧ n % p = 0 then divideOut p (n / p) (count + 1) else (count, n)
termination_by n
decreasing_by
  rename_i h
  exact Nat.div_lt_self h.2.1 h.1

/-- How many digits the expansion of `x` has after the point, if it ends. -/
def terminatingDigits? (x : Rat) : Option Nat :=
  let (twos, odd) := divideOut 2 x.den 0
  let (fives, rest) := divideOut 5 odd 0
  if rest = 1 then some (max twos fives) else none

/-!
## Writing
-/

def toFixed (x : Rat) (digits : Nat) : String :=
  FixedPoint.text (FixedPoint.nearest x digits) digits

def dropTrailing (c : Char) (cs : List Char) : List Char :=
  (cs.reverse.dropWhile (fun d => d == c)).reverse

/-- Remove the zeros at the end of a fraction and then the point, if it comes
last. A negative zero loses its sign; a text without a point stays as it is. -/
def trimFractionChars (cs : List Char) : List Char :=
  if '.' ∈ cs then
    let trimmed := dropTrailing '.' (dropTrailing '0' cs)
    if trimmed = ['-', '0'] then ['0'] else trimmed
  else cs

def trimFraction (text : String) : String :=
  String.ofList (trimFractionChars text.toList)

def canonicalPlaces (x : Rat) : Nat :=
  match terminatingDigits? x with
  | some digits => if digits ≤ canonicalDigits then digits else canonicalDigits
  | none => canonicalDigits

def toText (x : Rat) : String :=
  trimFraction (toFixed x (canonicalPlaces x))

end Decimal
end AngleCalc
