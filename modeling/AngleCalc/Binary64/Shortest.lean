import AngleCalc.Binary64.Basic
import AngleCalc.Failure
import AngleCalc.Decimal.Magnitude

/-!
# The shortest decimal of a double

A double stands for the rational of the shortest decimal that rounds back to it.
Among several of that length the nearest one is taken, and the larger of two
equally near ones. The grids of decimals are tried from the coarsest one on; on
each, only the two neighbours of the exact value have to be looked at.
-/

namespace AngleCalc
namespace Binary64

/-- The nearest multiple of `step` to the positive number `x` that `admits` holds
of, among the two multiples next to `x`. -/
def gridNeighbour? (admits : Rat -> Bool) (x step : Rat) : Option Rat :=
  let below := ((x / step).floor : Rat) * step
  let above := below + step
  match admits below, admits above with
  | true, true => some (if x - below < above - x then below else above)
  | true, false => some below
  | false, true => some above
  | false, false => none

def roundsTo (significand : Nat) (exponent : Int) (y : Rat) : Bool :=
  let x := (significand : Rat) * (2 : Rat) ^ exponent
  let gapBelow :=
    if significand = 1 <<< fractionBits ∧ leastExponent < exponent then exponent - 2
    else exponent - 1
  let low := x - (2 : Rat) ^ gapBelow
  let high := x + (2 : Rat) ^ (exponent - 1)
  if significand % 2 = 0 then decide (low ≤ y) && decide (y ≤ high)
  else decide (low < y) && decide (y < high)

/-- The shortest decimal that rounds to the positive double
`significand * 2 ^ exponent`. Seventeen digits are always enough. -/
def shortest (significand : Nat) (exponent : Int) : Rat :=
  let x := (significand : Rat) * (2 : Rat) ^ exponent
  let leading := Decimal.leadingExponent x
  let candidate := (List.range 17).findSome? fun (place : Nat) =>
    gridNeighbour? (roundsTo significand exponent) x ((10 : Rat) ^ (leading - (place : Int)))
  candidate.getD x

/-- The rational that stands for a double. A double that is not finite has none. -/
def toRat (x : Float) : Except Failure Rat :=
  match read x with
  | .nan => .error (.undefinedCall "NaN")
  | .infinite negative => .error (.undefinedCall (if negative then "-inf" else "inf"))
  | .finite negative significand exponent =>
      let value := if significand = 0 then 0 else shortest significand exponent
      .ok (if negative then -value else value)

end Binary64
end AngleCalc
