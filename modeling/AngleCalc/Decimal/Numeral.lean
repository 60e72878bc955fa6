import AngleCalc.Failure

/-!
# Numerals

The decimal notation of a number: an optional sign, digits with at most one
point, and an optional exponent. A side of the point may be empty, and a lone
point stands for zero, but some digit or point has to be there.

Reading splits the text into a `Numeral`, the digits without their point
together with the power of ten of the last digit. A number whose last digit lies
further than `maxScale` places from the units is refused.
-/

namespace AngleCalc

/-- A number in decimal notation: its digits, and the power of ten that the last
of them counts. -/
structure Numeral where
  negative : Bool
  digits : List Char
  scale : Int
deriving DecidableEq, Repr

namespace Numeral

/-- The largest distance of the last digit from the units. -/
def maxScale : Nat := 100000

def magnitude (numeral : Numeral) : Nat :=
  Nat.ofDigitChars 10 numeral.digits 0

def value (numeral : Numeral) : Rat :=
  let size := (numeral.magnitude : Rat) * (10 : Rat) ^ numeral.scale
  if numeral.negative then -size else size

/-!
## Reading
-/

/-- Take a sign off the front; the result says whether it was a minus. -/
def readSign : List Char -> Bool × List Char
  | '-' :: rest => (true, rest)
  | '+' :: rest => (false, rest)
  | cs => (false, cs)

def isExponentMark (c : Char) : Bool :=
  c == 'e' || c == 'E'

def readInteger? (cs : List Char) : Option Int :=
  let (negative, digits) := readSign cs
  if digits.isEmpty || !digits.all Char.isDigit then none
  else
    let size : Int := Nat.ofDigitChars 10 digits 0
    some (if negative then -size else size)

/-- Read an exponent with its mark; where there is none it is zero. -/
def readExponent? : List Char -> Option Int
  | [] => some 0
  | _ :: cs => readInteger? cs

def read? (cs : List Char) : Option Numeral :=
  let (negative, body) := readSign cs
  let mantissa := body.takeWhile (fun c => !isExponentMark c)
  let whole := mantissa.takeWhile (fun c => c != '.')
  let fraction := (mantissa.dropWhile (fun c => c != '.')).drop 1
  if mantissa.isEmpty || !whole.all Char.isDigit || !fraction.all Char.isDigit then none
  else
    match readExponent? (body.dropWhile (fun c => !isExponentMark c)) with
    | none => none
    | some exponent => some ⟨negative, whole ++ fraction, exponent - fraction.length⟩

end Numeral

namespace Decimal

def readChars? (cs : List Char) : Option Rat :=
  match Numeral.read? cs with
  | none => none
  | some numeral =>
      if numeral.scale.natAbs ≤ Numeral.maxScale then some numeral.value else none

def parse (text : String) : Except Failure Rat :=
  match readChars? text.toList with
  | some value => .ok value
  | none => .error (.badNumber text)

end Decimal
end AngleCalc
