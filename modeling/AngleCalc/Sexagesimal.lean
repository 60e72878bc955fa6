import AngleCalc.Decimal.Numeral
import AngleCalc.FixedPoint.Basic

/-!
# Sexagesimal angles

An angle may be written in degrees, minutes and seconds. Each component is a
decimal number followed by a mark: `d` or the degree sign, `m` or an apostrophe,
`s` or a double quote. Components come in this order, each may be left out, and
the last one may omit its mark.

Reading goes through the three components in turn. Writing gives all three, with
five decimals of seconds, and carries a rounded second into the minutes and
degrees.
-/

namespace AngleCalc
namespace Sexagesimal

def degreeMarks : List Char := ['d', '°']

def minuteMarks : List Char := ['\x27', 'm']

def secondMarks : List Char := ['\x22', 's']

def isMark (c : Char) : Bool :=
  degreeMarks.contains c || minuteMarks.contains c || secondMarks.contains c

/-!
## Reading
-/

/-- Read one component, up to one of its marks or to the end of the text. The
result is its value together with what follows the mark. A component that is not
there counts zero and leaves the text as it is. -/
def readComponent (marks : List Char) (cs : List Char) :
    Except Failure (Rat × List Char) :=
  if cs.isEmpty then .ok (0, [])
  else
    match Decimal.readChars? cs with
    | some value => .ok (value, [])
    | none =>
        let digits := cs.takeWhile (fun c => !marks.contains c)
        match cs.dropWhile (fun c => !marks.contains c) with
        | [] => .ok (0, cs)
        | _ :: rest =>
            if digits.isEmpty then .ok (0, rest)
            else
              match Decimal.readChars? digits with
              | some value => .ok (value, rest)
              | none => .error (.badNumber (String.ofList digits))

def combine (degrees minutes seconds : Rat) : Rat :=
  degrees + minutes / 60 + seconds / 3600

def readChars (cs : List Char) : Except Failure Rat := do
  let (degrees, cs₁) ← readComponent degreeMarks cs
  let (minutes, cs₂) ← readComponent minuteMarks cs₁
  let (seconds, cs₃) ← readComponent secondMarks cs₂
  if cs₃.isEmpty then .ok (combine degrees minutes seconds)
  else .error (.badNumber (String.ofList cs))

def parse (text : String) : Except Failure Rat :=
  readChars text.toList

/-!
## Writing
-/

def secondDigits : Nat := 5

/-- The angle in units of the last place of the seconds, without its sign. -/
def roundedSeconds (x : Rat) : Nat :=
  (FixedPoint.nearest (x.abs * 3600) secondDigits).natAbs

/-- The characters of an angle that is not negative, given in units of the last
place of the seconds. -/
def magnitudeChars (total : Nat) : List Char :=
  let perMinute := 60 * FixedPoint.unit secondDigits
  let perDegree := 60 * perMinute
  Nat.toDigits 10 (total / perDegree) ++
    '°' :: Nat.toDigits 10 (total % perDegree / perMinute) ++
    '\x27' :: FixedPoint.magnitudeChars (total % perDegree % perMinute) secondDigits ++
    ['\x22']

/-- The text of an angle in degrees, minutes and seconds, with one sign in front.
An angle that rounds to zero has no sign. -/
def text (x : Rat) : String :=
  let total := roundedSeconds x
  String.ofList
    ((if x < 0 ∧ total ≠ 0 then ['-'] else []) ++ magnitudeChars total)

end Sexagesimal
end AngleCalc
