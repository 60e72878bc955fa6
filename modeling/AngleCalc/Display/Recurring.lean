import AngleCalc.Decimal.Text

/-!
# Recurring decimals

A value is displayed exactly if its expansion ends within the precision. If not,
it is rounded to the precision and the end of the fraction is searched for a
block of digits that repeats; the first such block is written once, with an
overline in front of each of its digits, and what follows it is left out.
-/

namespace AngleCalc
namespace Display

/-- The combining overline, written in front of each digit of a block. -/
def overline : Char := '\u0305'

/-- The fewest digits, from the start of a block to the end of the fraction, that
can show a repetition. -/
def minRepetition : Nat := 6

/-- A fraction of more nines than this is a carry. -/
def maxNines : Nat := 10

/-!
## Blocks
-/

/-- Whether the digit at `i` continues the repetition of the block of the given
start and length. The last digit of all, which was rounded, may be one more. -/
def continuesBlock (digits : Array Char) (start length i : Nat) : Bool :=
  let expected := digits.getD (start + (i - start) % length) '0'
  let digit := digits.getD i '0'
  digit == expected ||
    (i + 1 == digits.size && digit.toNat == expected.toNat + 1)

def fillsRest (digits : Array Char) (start length : Nat) : Bool :=
  (digits.size - (start + length)).all fun k _ =>
    continuesBlock digits start length (start + length + k)

/-- The start and the length of the first block, the earliest start before the
shortest length, that fills the rest of the digits at least twice. -/
def recurringBlock? (digits : Array Char) : Option (Nat × Nat) :=
  (List.range (digits.size + 1 - minRepetition)).findSome? fun start =>
    ((List.range ((digits.size - start) / 2)).find? fun k =>
      fillsRest digits start (k + 1)).map fun k => (start, k + 1)

/-!
## Text
-/

def fractionChars (digits : List Char) : List Char :=
  match recurringBlock? digits.toArray with
  | none => digits
  | some (start, length) =>
      digits.take start ++
        ((digits.drop start).take length).flatMap (fun c => [overline, c])

/-- The characters of a rounded value, given its sign, its integer part and the
digits of its fraction without zeros at their end. -/
def roundedChars (sign : List Char) (whole : Nat) (fraction : List Char) : List Char :=
  if maxNines < fraction.length ∧ fraction.all (fun c => c == '9') = true then
    sign ++ Nat.toDigits 10 (whole + 1)
  else if fraction.isEmpty then
    if whole = 0 then ['0'] else sign ++ Nat.toDigits 10 whole
  else
    sign ++ Nat.toDigits 10 whole ++ '.' :: fractionChars fraction

def trimmedFraction (n digits : Nat) : List Char :=
  if digits = 0 then []
  else
    Decimal.dropTrailing '0'
      (FixedPoint.paddedDigits digits (n % FixedPoint.unit digits))

def endsWithin (x : Rat) (precision : Nat) : Bool :=
  match Decimal.terminatingDigits? x with
  | some digits => decide (digits ≤ precision)
  | none => false

def recurring (x : Rat) (precision : Nat) : String :=
  let sign := if x < 0 then ['-'] else []
  String.ofList <|
    if x = 0 then ['0']
    else if endsWithin x precision then
      let places := (Decimal.terminatingDigits? x).getD 0
      sign ++
        Decimal.trimFractionChars
          (FixedPoint.chars (FixedPoint.nearest x.abs places) places)
    else
      let n := (FixedPoint.nearest x.abs precision).natAbs
      roundedChars sign (n / FixedPoint.unit precision) (trimmedFraction n precision)

end Display
end AngleCalc
