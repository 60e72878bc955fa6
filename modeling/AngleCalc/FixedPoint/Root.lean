import AngleCalc.FixedPoint.Basic

/-!
# Square roots

Newton's iteration on integers, started above the root, decreases until it
reaches the floor of the root. What it reaches is then moved up or down, should it
not be the floor. Applied to a rational scaled by a square power of ten this gives
the square root as a fixed-point number, rounded down.
-/

namespace AngleCalc
namespace FixedPoint

/-- How many binary digits `n` has; zero has none. -/
def bitLength (n : Nat) : Nat :=
  if n = 0 then 0 else n.log2 + 1

/-- A power of two above the square root of `target / den`. -/
def newtonStart (target den : Nat) : Nat :=
  1 <<< (bitLength (target / den) / 2 + 1)

/-- The mean of `y` and of `target / den` divided by `y`, rounded down. -/
def newtonStep (target den y : Nat) : Nat :=
  (y + target / (den * y)) / 2

/-- Newton's iteration towards the square root of `target / den`, down from `y`
for as long as it decreases. Zero is not divided by: the iteration ends there. -/
def newtonDescent (target den y : Nat) : Nat :=
  if y = 0 then 0
  else if newtonStep target den y < y then newtonDescent target den (newtonStep target den y)
  else y
termination_by y

def raiseToRoot (target den y : Nat) : Nat :=
  if 0 < den ∧ (y + 1) * (y + 1) * den ≤ target then raiseToRoot target den (y + 1) else y
termination_by target - y
decreasing_by
  rename_i h
  have hlt : y < target :=
    calc
      y < y + 1 := Nat.lt_succ_self y
      _ ≤ (y + 1) * (y + 1) := Nat.le_mul_of_pos_right (y + 1) (Nat.succ_pos y)
      _ ≤ (y + 1) * (y + 1) * den := Nat.le_mul_of_pos_right _ h.left
      _ ≤ target := h.right
  omega

def lowerToRoot (target den y : Nat) : Nat :=
  if target < y * y * den then lowerToRoot target den (y - 1) else y
termination_by y
decreasing_by
  rename_i h
  have hpos : y ≠ 0 := by
    intro hzero
    simp [hzero] at h
  omega

def floorRoot (target den : Nat) : Nat :=
  lowerToRoot target den
    (raiseToRoot target den (newtonDescent target den (newtonStart target den)))

/-- The numerator of `x` on the scale of the squares of fixed-point numbers. -/
def radicand (x : Rat) (digits : Nat) : Nat :=
  x.num.toNat * unit (2 * digits)

def squareRoot (x : Rat) (digits : Nat) : Nat :=
  if x.num = 0 then 0 else floorRoot (radicand x digits) x.den

end FixedPoint
end AngleCalc
