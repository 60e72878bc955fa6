import AngleCalc.Proofs.Sexagesimal.Order

/-!
# Degrees, minutes and seconds

An angle is rounded to the last place of its seconds and then cut into degrees, minutes and
seconds. So what is rounded up is carried, and the minutes and seconds stay below sixty. One sign
is written in front of all of them, but a reader finds it in the degrees alone.
-/

namespace AngleCalc
namespace Sexagesimal

open FixedPoint

/-- The characters of an angle: a sign if it is negative, and the degrees, minutes and seconds, each
with its mark. The seconds have five decimals. -/
def IsWritten (negative : Bool) (degrees minutes : Nat) (seconds : Rat) (cs : List Char) : Prop :=
  exists front middle whole fraction,
    cs = (if negative then ['-'] else []) ++ front ++ '°' :: middle ++
      '\x27' :: whole ++ '.' :: fraction ++ ['\x22'] ∧
    Decimal.IsNatural degrees front ∧ Decimal.IsNatural minutes middle ∧
    (exists n, Decimal.IsNatural n whole) ∧
    (fraction.length = 5 ∧ forall c, c ∈ fraction -> c.isDigit = true) ∧
    seconds = Nat.ofDigitChars 10 (whole ++ fraction) 0 / 10 ^ 5

/-!
## Parts
-/

/-- Degrees, minutes and seconds, these in units of their last place. -/
structure Parts where
  degrees : Nat
  minutes : Nat
  seconds : Nat
  minutes_lt : minutes < 60
  seconds_lt : seconds < 60 * unit secondDigits
deriving DecidableEq, Repr

namespace Parts

/-- The angle in units of the last place of the seconds. -/
def total (parts : Parts) : Nat :=
  60 * unit secondDigits * (60 * parts.degrees + parts.minutes) + parts.seconds

theorem minuteUnits_pos : 0 < 60 * unit secondDigits :=
  Nat.mul_pos (by decide) (unit_pos secondDigits)

def ofTotal (total : Nat) : Parts where
  degrees := total / (60 * (60 * unit secondDigits))
  minutes := total % (60 * (60 * unit secondDigits)) / (60 * unit secondDigits)
  seconds := total % (60 * (60 * unit secondDigits)) % (60 * unit secondDigits)
  minutes_lt := by
    apply Nat.div_lt_of_lt_mul
    rw [Nat.mul_comm (60 * unit secondDigits)]
    exact Nat.mod_lt total (Nat.mul_pos (by decide) minuteUnits_pos)
  seconds_lt := Nat.mod_lt _ minuteUnits_pos

theorem total_ofTotal (total : Nat) : (ofTotal total).total = total := by
  have hminutes := Nat.div_add_mod (total % (60 * (60 * unit secondDigits)))
    (60 * unit secondDigits)
  have hdegrees := Nat.div_add_mod total (60 * (60 * unit secondDigits))
  rw [Parts.total, ofTotal, Nat.mul_add, Nat.add_assoc, hminutes, ← Nat.mul_assoc,
    Nat.mul_comm (60 * unit secondDigits) 60, hdegrees]

def secondsValue (parts : Parts) : Rat :=
  parts.seconds / 10 ^ 5

def angle (parts : Parts) : Rat :=
  parts.degrees + parts.minutes / 60 + parts.secondsValue / 3600

theorem angle_mul (parts : Parts) : parts.angle * 3600 = toRat parts.total secondDigits := by
  have hunit : (unit secondDigits : Rat) = 10 ^ 5 := cast_unit (by decide)
  rw [toRat_eq_div, angle, secondsValue, total]
  push_cast
  rw [hunit]
  ring

theorem secondsValue_bounds (parts : Parts) : 0 ≤ parts.secondsValue ∧ parts.secondsValue < 60 := by
  have hseconds : (parts.seconds : Rat) < 60 * 10 ^ 5 := by
    have hlt : parts.seconds < 60 * 10 ^ 5 := parts.seconds_lt
    exact_mod_cast hlt
  refine ⟨div_nonneg (Nat.cast_nonneg _) (by norm_num), ?_⟩
  rw [secondsValue, div_lt_iff₀ (by norm_num)]
  exact hseconds

theorem floor_angle (parts : Parts) : ⌊parts.angle⌋ = parts.degrees := by
  have hminutes : (0 : Rat) ≤ parts.minutes := Nat.cast_nonneg _
  have hless : (parts.minutes : Rat) + 1 ≤ 60 := by exact_mod_cast parts.minutes_lt
  rcases parts.secondsValue_bounds with ⟨hseconds, hlt⟩
  rw [Int.floor_eq_iff, angle, Int.cast_natCast]
  constructor <;> linarith

theorem angle_nonneg (parts : Parts) : 0 ≤ parts.angle :=
  Int.floor_nonneg.mp (parts.floor_angle ▸ Int.natCast_nonneg _)

/-!
## Characters
-/

def degreesSpelling (negative : Bool) (parts : Parts) : Spelling :=
  { spelling parts.degrees 0 with negative }

def chars (negative : Bool) (parts : Parts) : List Char :=
  (parts.degreesSpelling negative).chars ++
    '°' :: (FixedPoint.chars parts.minutes 0 ++
      '\x27' :: (FixedPoint.chars parts.seconds secondDigits ++ ['\x22']))

theorem value_degreesSpelling (negative : Bool) (parts : Parts) :
    (parts.degreesSpelling negative).numeral.value =
      if negative then -(parts.degrees : Rat) else parts.degrees := by
  have hword : 0 < 2 ^ 32 := by decide
  have hmagnitude := magnitude_spelling parts.degrees hword
  rw [Int.natAbs_natCast] at hmagnitude
  have hvalue : (parts.degreesSpelling negative).numeral.magnitude = parts.degrees := hmagnitude
  have hscale : (parts.degreesSpelling negative).numeral.scale = 0 := rfl
  rw [Numeral.value, hvalue, hscale, zpow_zero, mul_one]
  rfl

/-- The sign counts for the degrees, and minutes and seconds are added to them. -/
theorem readChars_chars (negative : Bool) (parts : Parts) :
    readChars (parts.chars negative) =
      .ok (if negative then parts.angle - 2 * parts.degrees else parts.angle) := by
  have hdegrees := (parts.degreesSpelling negative).readChars?_chars (Nat.zero_le _)
  have hminutes : Decimal.readChars? (FixedPoint.chars parts.minutes 0) =
      some (parts.minutes : Rat) := by
    rw [readChars?_chars _ (Nat.zero_le _), toRat_eq_div, cast_unit (by decide), pow_zero, div_one,
      Int.cast_natCast]
  have hseconds : Decimal.readChars? (FixedPoint.chars parts.seconds secondDigits) =
      some parts.secondsValue := by
    rw [readChars?_chars _ (by decide), toRat_eq_div, cast_unit (by decide), Int.cast_natCast]
    rfl
  rw [value_degreesSpelling] at hdegrees
  rw [readChars_eq_ok_iff]
  refine ⟨_, _, _, .next (readComponent_number (by decide) hdegrees)
    (.next (readComponent_number (by decide) hminutes)
      (.next (readComponent_number (by decide) hseconds) .done)), ?_⟩
  rw [combine, angle]
  split
  · ring
  · rfl

theorem chars_degreesSpelling (negative : Bool) (parts : Parts) :
    (parts.degreesSpelling negative).chars =
      (if negative then ['-'] else []) ++ Nat.toDigits 10 parts.degrees := by
  have hwhole := whole_spelling parts.degrees 0
  rw [Int.natAbs_natCast, show unit 0 = 1 from rfl, Nat.div_one] at hwhole
  rw [Spelling.chars_of_fraction_eq_nil _ rfl, ← hwhole]
  rfl

theorem isWritten_chars (negative : Bool) (parts : Parts) :
    IsWritten negative parts.degrees parts.minutes parts.secondsValue (parts.chars negative) := by
  have hfraction : (spelling parts.seconds secondDigits).fraction ≠ [] :=
    fraction_spelling_ne_nil _ (by decide)
  refine ⟨Nat.toDigits 10 parts.degrees, Nat.toDigits 10 parts.minutes,
    (spelling parts.seconds secondDigits).whole, (spelling parts.seconds secondDigits).fraction,
    ?_, Decimal.isNatural_toDigits _, Decimal.isNatural_toDigits _,
    ⟨_, Decimal.isNatural_toDigits _⟩,
    ⟨length_fraction_spelling _ _, Spelling.isDigit_fraction _⟩, ?_⟩
  · rw [chars, chars_degreesSpelling, chars_natCast _ 0, ← chars_spelling,
      Spelling.chars_of_fraction_ne_nil _ hfraction]
    simp [negative_spelling, FixedPoint.magnitudeChars]
  · have hword : secondDigits < 2 ^ 32 := by decide
    have hmagnitude := magnitude_spelling parts.seconds hword
    rw [Numeral.magnitude, Spelling.numeral, Int.natAbs_natCast] at hmagnitude
    rw [hmagnitude, secondsValue]

theorem chars_ofTotal (negative : Bool) (total : Nat) :
    (ofTotal total).chars negative =
      (if negative then ['-'] else []) ++ Sexagesimal.magnitudeChars total := by
  rw [chars, chars_degreesSpelling, chars_natCast _ 0, chars_natCast]
  simp [ofTotal, Sexagesimal.magnitudeChars, FixedPoint.magnitudeChars]

end Parts

/-!
## The text of an angle
-/

def partsOf (x : Rat) : Parts :=
  .ofTotal (roundedSeconds x)

/-- The number `y` is `x` rounded to a multiple of the last place of the seconds. -/
def RoundsToSeconds (x y : Rat) : Prop :=
  RoundsTo (x * 3600) 5 (y * 3600)

theorem angle_partsOf_mul (x : Rat) :
    (partsOf x).angle * 3600 = toRat (roundedSeconds x) secondDigits := by
  rw [Parts.angle_mul, partsOf, Parts.total_ofTotal]

theorem roundsToSeconds_angle (x : Rat) : RoundsToSeconds |x| (partsOf x).angle := by
  have hnonneg : 0 ≤ nearest (|x| * 3600) secondDigits :=
    nearest_nonneg _ (mul_nonneg (abs_nonneg x) (by norm_num))
  rw [RoundsToSeconds, angle_partsOf_mul, roundedSeconds, abs_eq_abs, Int.natAbs_of_nonneg hnonneg]
  exact roundsTo_nearest _ (by decide)

theorem angle_partsOf_eq_iff {x : Rat} (hx : 0 ≤ x) :
    (partsOf x).angle = x ↔ exists n : Int, x = n / (3600 * 10 ^ 5) := by
  have hrounds := roundsToSeconds_angle x
  rw [RoundsToSeconds, abs_of_nonneg hx] at hrounds
  rw [← mul_left_inj' (by norm_num : (3600 : Rat) ≠ 0), hrounds.eq_self_iff]
  apply exists_congr
  intro n
  rw [← eq_div_iff (by norm_num), div_div, mul_comm (10 ^ 5 : Rat)]

theorem angle_partsOf_eq_zero_iff (x : Rat) : (partsOf x).angle = 0 ↔ roundedSeconds x = 0 := by
  have hmul := angle_partsOf_mul x
  constructor
  · intro hzero
    have hinj : toRat (roundedSeconds x) secondDigits = toRat 0 secondDigits := by
      rw [← hmul, hzero, zero_mul]
      rfl
    exact_mod_cast toRat_inj hinj
  · intro hzero
    rw [hzero] at hmul
    exact (mul_eq_zero_iff_right (by norm_num)).mp hmul

theorem toList_text (x : Rat) :
    (text x).toList = (partsOf x).chars (decide (x < 0 ∧ (partsOf x).angle ≠ 0)) := by
  have hsign : (x < 0 ∧ roundedSeconds x ≠ 0) ↔ (x < 0 ∧ (partsOf x).angle ≠ 0) := by
    rw [Ne, Ne, angle_partsOf_eq_zero_iff]
  rw [partsOf, Parts.chars_ofTotal, ← partsOf]
  simp only [text, String.toList_ofList, hsign, decide_eq_true_eq]

theorem partsOf_angle (x : Rat) : partsOf (partsOf x).angle = partsOf x := by
  have hrounded : roundedSeconds (partsOf x).angle = roundedSeconds x := by
    rw [roundedSeconds, abs_eq_abs, abs_of_nonneg (Parts.angle_nonneg _), angle_partsOf_mul,
      nearest_toRat, Int.natAbs_natCast]
  rw [partsOf, hrounded, ← partsOf]

theorem partsOf_neg (x : Rat) : partsOf (-x) = partsOf x := by
  rw [partsOf, roundedSeconds, abs_eq_abs, abs_neg, ← abs_eq_abs, ← roundedSeconds, ← partsOf]

/-- An angle is read as the parts that are written, the degrees with its sign. -/
theorem parse_text (x : Rat) :
    parse (text x) =
      .ok (if x < 0 then (partsOf x).angle - 2 * ⌊(partsOf x).angle⌋ else (partsOf x).angle) := by
  rw [parse, toList_text, Parts.readChars_chars, Parts.floor_angle, Int.cast_natCast]
  simp only [decide_eq_true_eq]
  by_cases hzero : (partsOf x).angle = 0
  · -- Zero has no sign, and its degrees are zero.
    have hdegrees := (partsOf x).floor_angle
    rw [hzero, Int.floor_zero] at hdegrees
    have hdegrees : (partsOf x).degrees = 0 := by omega
    simp [hzero, hdegrees]
  · simp [hzero]

end Sexagesimal
end AngleCalc
