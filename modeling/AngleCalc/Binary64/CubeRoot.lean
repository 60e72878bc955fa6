import AngleCalc.Binary64.Basic

/-!
# Cube roots of doubles

The double nearest to the cube root of a double. The root is found in integers,
one binary digit after the other, with more digits than a double has. Half a unit
of the last place then stands for a rest, so that rounding the digits rounds the
root itself.
-/

namespace AngleCalc
namespace Binary64

/-- The binary digits of a cube root that are computed at least. -/
def rootBits : Nat := 54

/-- The largest number whose cube is at most `n`, of those that agree with `root`
up to the last `bits` binary digits. -/
def floorCubeRoot (n : Nat) : Nat -> Nat -> Nat
  | 0, root => root
  | bits + 1, root =>
      let next := root + (1 <<< bits)
      floorCubeRoot n bits (if next * next * next ≤ n then next else root)

/-- The cube root of the positive number `significand * 2 ^ exponent`, or, where it
has more binary digits than are computed, the midpoint of the two numbers of so
many digits that enclose it. -/
def nearCubeRoot (significand : Nat) (exponent : Int) : Rat :=
  let places := (3 * rootBits + 2 - exponent) / 3
  let n := significand <<< (exponent + 3 * places).toNat
  let root := floorCubeRoot n (n.log2 / 3 + 1) 0
  let rest := if root * root * root = n then 0 else 1
  ((2 * root + rest : Nat) : Rat) * (2 : Rat) ^ (-places - 1)

def cubeRoot (x : Float) : Float :=
  match read x with
  | .finite negative significand exponent =>
      if significand = 0 then x
      else
        let root := nearCubeRoot significand exponent
        ofRat (if negative then -root else root)
  | _ => x

end Binary64
end AngleCalc
