import AngleCalc.Binary64.CubeRoot
import AngleCalc.Power

/-!
# Elementary functions

The functions of one argument. Angles are in degrees: they are turned into
radians before a trigonometric function and back into degrees after an inverse
one. Absolute value, rounding and square root are exact or correctly rounded
down; the others go through double precision, and a double that is not finite is
an undefined result.
-/

namespace AngleCalc

inductive Elementary where
  | ln
  | abs
  | cos
  | sin
  | tan
  | acos
  | asin
  | atan
  | sqrt
  | cbrt
  | ceil
  | floor
deriving DecidableEq, Repr

namespace Elementary

def name : Elementary -> String
  | ln => "ln"
  | abs => "abs"
  | cos => "cos"
  | sin => "sin"
  | tan => "tan"
  | acos => "acos"
  | asin => "asin"
  | atan => "atan"
  | sqrt => "sqrt"
  | cbrt => "cbrt"
  | ceil => "ceil"
  | floor => "floor"

def all : List Elementary :=
  [ln, abs, cos, sin, tan, acos, asin, atan, sqrt, cbrt, ceil, floor]

def givesAngle (name : String) : Bool :=
  name == "asin" || name == "acos" || name == "atan"

/-!
## Values
-/

def radiansPerDegree : Float :=
  0.017453292519943295769236907684886127134428718885417

def degreesPerRadian : Float :=
  57.295779513082320876798154814105170332405472466564

def viaDouble (function : Elementary) (compute : Float -> Float) (x : Rat) :
    Except Failure Rat :=
  match Binary64.toRat (compute (Binary64.ofRat x)) with
  | .ok value => .ok value
  | .error _ =>
      .error (.undefinedCall (function.name ++ "(" ++ Decimal.toText x ++ ")"))

def apply (function : Elementary) (x : Rat) : Except Failure Rat :=
  match function with
  | ln => viaDouble ln Float.log x
  | abs => .ok x.abs
  | cos => viaDouble cos (fun v => Float.cos (v * radiansPerDegree)) x
  | sin => viaDouble sin (fun v => Float.sin (v * radiansPerDegree)) x
  | tan => viaDouble tan (fun v => Float.tan (v * radiansPerDegree)) x
  | acos => viaDouble acos (fun v => Float.acos v * degreesPerRadian) x
  | asin => viaDouble asin (fun v => Float.asin v * degreesPerRadian) x
  | atan => viaDouble atan (fun v => Float.atan v * degreesPerRadian) x
  | sqrt => Power.squareRoot x
  | cbrt => viaDouble cbrt Binary64.cubeRoot x
  | ceil => .ok (x.ceil : Rat)
  | floor => .ok (x.floor : Rat)

end Elementary
end AngleCalc
