import AngleCalc.Decimal.Magnitude
import AngleCalc.FixedPoint.Basic

/-!
# Engineering notation

Very large and very small values are displayed as a mantissa between one and
ten, with six digits after the point, and a power of ten. The exponent is first
guessed from the numbers of digits, and then the mantissa is divided or multiplied
by ten for as long as it is not in its range. A mantissa that rounds up to ten
becomes one, with the next exponent.
-/

namespace AngleCalc
namespace Display

def mantissaDigits : Nat := 6

/-- Values of a larger size are displayed in engineering notation. -/
def largestPlain : Rat := 9999999999999

/-- Values of a smaller size, other than zero, are displayed in engineering
notation. -/
def smallestPlain : Rat := FixedPoint.tenPower (-8)

def needsEngineering (x : Rat) : Bool :=
  decide (x ≠ 0) && (decide (largestPlain < x.abs) || decide (x.abs < smallestPlain))

/-!
## Scaling
-/

structure Scaled where
  mantissa : Rat
  exponent : Int
deriving DecidableEq, Repr

namespace Scaled

/-- The same number with a tenth of the mantissa. -/
def tenth (scaled : Scaled) : Scaled :=
  ⟨scaled.mantissa / 10, scaled.exponent + 1⟩

/-- The same number with ten times the mantissa. -/
def tenfold (scaled : Scaled) : Scaled :=
  ⟨scaled.mantissa * 10, scaled.exponent - 1⟩

theorem floor_lt_floor {x y : Rat} (hx : 1 ≤ x) (hy : 10 * y ≤ x) :
    y.floor.toNat < x.floor.toNat := by
  have hone : 1 ≤ x.floor := Rat.le_floor_iff.mpr (by simpa using hx)
  have hlower := Rat.floor_le y
  have hupper := Rat.lt_floor_add_one x
  have hlt : y.floor < x.floor := by
    apply Rat.intCast_lt_intCast.mp
    have hcast : ((1 : Int) : Rat) ≤ x.floor := Rat.intCast_le_intCast.mpr hone
    grind
  omega

def lower (scaled : Scaled) : Scaled :=
  if 10 ≤ scaled.mantissa then lower scaled.tenth else scaled
termination_by scaled.mantissa.floor.toNat
decreasing_by
  rename_i h
  exact floor_lt_floor (by grind) (by grind [tenth])

/-- Multiply the mantissa by ten for as long as it is below one. Only a positive
mantissa reaches one. -/
def raise (scaled : Scaled) : Scaled :=
  if 0 < scaled.mantissa ∧ scaled.mantissa < 1 then raise scaled.tenfold else scaled
termination_by scaled.mantissa⁻¹.floor.toNat
decreasing_by
  rename_i h
  have hpos : 0 < scaled.mantissa⁻¹ := Rat.inv_pos.mpr h.left
  have hself : scaled.mantissa * scaled.mantissa⁻¹ = 1 :=
    Rat.mul_inv_cancel _ (Rat.ne_of_gt h.left)
  have hle : scaled.mantissa * scaled.mantissa⁻¹ ≤ 1 * scaled.mantissa⁻¹ :=
    Rat.mul_le_mul_of_nonneg_right (Rat.le_of_lt h.right) (Rat.le_of_lt hpos)
  have hten : 10 * scaled.tenfold.mantissa⁻¹ = scaled.mantissa⁻¹ := by grind [tenfold]
  exact floor_lt_floor (by grind) (by grind)

/-- A positive rational with the guessed exponent. The mantissa is not normalised. -/
def guess (x : Rat) : Scaled :=
  ⟨x * FixedPoint.tenPower (-Decimal.exponentGuess x), Decimal.exponentGuess x⟩

end Scaled

/-!
## Text
-/

def mantissaExponent (x : Rat) : Nat × Int :=
  let scaled := (Scaled.guess x).lower.raise
  let mantissa := (FixedPoint.nearest scaled.mantissa mantissaDigits).natAbs
  if FixedPoint.unit (mantissaDigits + 1) ≤ mantissa then (mantissa / 10, scaled.exponent + 1)
  else (mantissa, scaled.exponent)

/-- The characters of an exponent: its mark, its sign and at least two digits. -/
def exponentChars (exponent : Int) : List Char :=
  'e' :: (if exponent < 0 then '-' else '+') ::
    FixedPoint.paddedDigits 2 exponent.natAbs

def engineering (x : Rat) : String :=
  let (mantissa, exponent) := if x = 0 then (0, 0) else mantissaExponent x.abs
  String.ofList
    ((if x < 0 then ['-'] else []) ++
      FixedPoint.magnitudeChars mantissa mantissaDigits ++ exponentChars exponent)

end Display
end AngleCalc
