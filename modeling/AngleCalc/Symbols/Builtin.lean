import AngleCalc.Elementary
import AngleCalc.FixedPoint.Euler

/-!
# Built-in names

The functions of one argument under their own names, and the named constants,
each with sixty digits after the point.
-/

namespace AngleCalc

inductive NamedConstant where
  | e
  | pi
  /-- The golden ratio. -/
  | phi
  | sqrt2
  | sqrtE
  | sqrtPi
  | sqrtPhi
  /-- Millimetres in an inch. -/
  | inch
deriving DecidableEq, Repr

namespace NamedConstant

def root (x : Rat) : Rat :=
  FixedPoint.toRat (FixedPoint.squareRoot x workingDigits) workingDigits

def eValue : Rat :=
  FixedPoint.toRat (FixedPoint.euler workingDigits) workingDigits

def piValue : Rat :=
  FixedPoint.toRat (FixedPoint.pi workingDigits) workingDigits

def phiValue : Rat :=
  (1 + root 5) / 2

def value : NamedConstant -> Rat
  | e => eValue
  | pi => piValue
  | phi => phiValue
  | sqrt2 => root 2
  | sqrtE => root eValue
  | sqrtPi => root piValue
  | sqrtPhi => root phiValue
  | inch => mkRat 254 10

end NamedConstant

inductive Builtin where
  | function (function : Elementary)
  | constant (constant : NamedConstant)
deriving DecidableEq, Repr

namespace Builtin

def table : List (String × Builtin) :=
  Elementary.all.map (fun f => (f.name, function f)) ++
    [("e", constant .e),
     ("pi", constant .pi),
     ("π", constant .pi),
     ("phi", constant .phi),
     ("sqrt2", constant .sqrt2),
     ("sqrte", constant .sqrtE),
     ("sqrtpi", constant .sqrtPi),
     ("sqrtphi", constant .sqrtPhi),
     ("in", constant .inch)]

def find? (name : String) : Option Builtin :=
  table.lookup name

end Builtin
end AngleCalc
