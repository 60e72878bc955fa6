import AngleCalc.Proofs.Sexagesimal.Parts

/-!
# Reading a written angle

An angle is written rounded to the last place of its seconds. If it is not negative then it is
read as the rounded angle, which is written as the same text. The text of a negative angle is read
as the opposite only if it is a whole number of degrees, since minutes and seconds are added
whatever the sign in front of the degrees is.
-/

namespace AngleCalc
namespace Sexagesimal

open FixedPoint

/-- The degrees, minutes and seconds of a text are the rounded angle, and a text without a sign is
read as the rounded angle. -/
theorem text_normalised (x : Rat) :
    exists (degrees minutes : Nat) (seconds rounded : Rat),
      RoundsToSeconds |x| rounded ∧
      rounded = degrees + minutes / 60 + seconds / 3600 ∧
      minutes < 60 ∧ (0 ≤ seconds ∧ seconds < 60) ∧
      IsWritten (decide (x < 0 ∧ rounded ≠ 0)) degrees minutes seconds (text x).toList ∧
      (0 ≤ x ->
        parse (text x) = .ok rounded ∧ text rounded = text x ∧
          (rounded = x ↔ exists n : Int, x = n / (3600 * 10 ^ 5))) := by
  refine ⟨(partsOf x).degrees, (partsOf x).minutes, (partsOf x).secondsValue, (partsOf x).angle,
    roundsToSeconds_angle x, rfl, (partsOf x).minutes_lt, (partsOf x).secondsValue_bounds, ?_, ?_⟩
  · rw [toList_text]
    exact Parts.isWritten_chars _ _
  · intro hx
    have hangle : ¬ (partsOf x).angle < 0 := not_lt.mpr (partsOf x).angle_nonneg
    refine ⟨?_, ?_, angle_partsOf_eq_iff hx⟩
    · rw [parse_text, if_neg (not_lt.mpr hx)]
    · rw [← String.toList_inj, toList_text, toList_text, partsOf_angle]
      simp only [hangle, not_lt.mpr hx, false_and]

/-- A second that is rounded up is carried into the minutes. -/
theorem text_normalised_carry :
    (0 : Rat) ≤ 59999999 / 3600000000 ∧ parse (text (59999999 / 3600000000)) = .ok (1 / 60) ∧
      text (1 / 60) = text (59999999 / 3600000000) := by
  have hpos : (0 : Rat) ≤ 59999999 / 3600000000 := by norm_num
  rcases text_normalised (59999999 / 3600000000) with
    ⟨degrees, minutes, seconds, rounded, hrounds, _, _, _, _, hread⟩
  have hnearest : RoundsToSeconds |(59999999 / 3600000000 : Rat)| (1 / 60) := by
    refine ⟨6000000, ?_, by norm_num⟩
    rw [abs_of_nonneg hpos]
    constructor <;> norm_num [abs_div, abs_of_neg]
  have hrounded : rounded * 3600 = 1 / 60 * 3600 := hrounds.unique hnearest
  have hrounded : rounded = 1 / 60 := by linarith
  subst hrounded
  exact ⟨hpos, (hread hpos).left, (hread hpos).right.left⟩

/-!
## Negative angles
-/

/-- What is read from the text of a negative angle has the rounded degrees with their sign, and
minutes and seconds without it. -/
theorem parse_text_of_neg {x : Rat} (hx : x < 0) :
    exists rounded, RoundsToSeconds (-x) rounded ∧ parse (text (-x)) = .ok rounded ∧
      parse (text x) = .ok (rounded - 2 * ⌊rounded⌋) ∧
      (parse (text x) = .ok (-rounded) ↔ rounded = ⌊rounded⌋) := by
  have hpos : ¬ -x < 0 := by linarith
  have hrounds := roundsToSeconds_angle x
  rw [abs_of_neg hx] at hrounds
  have hread : parse (text x) = .ok ((partsOf x).angle - 2 * ⌊(partsOf x).angle⌋) := by
    rw [parse_text, if_pos hx]
  refine ⟨(partsOf x).angle, hrounds, ?_, hread, ?_⟩
  · rw [parse_text, if_neg hpos, partsOf_neg]
  · rw [hread, Except.ok.injEq]
    constructor <;> intro h <;> linarith

/-- The sign of half a degree is not read. -/
theorem parse_text_of_neg_half :
    (-1 / 2 : Rat) < 0 ∧ parse (text (-1 / 2)) = .ok (1 / 2) := by
  have hneg : (-1 / 2 : Rat) < 0 := by norm_num
  rcases parse_text_of_neg hneg with ⟨rounded, hrounds, _, hread, _⟩
  have hnearest : RoundsToSeconds (-(-1 / 2)) (1 / 2) := by
    refine ⟨180000000, ?_, by norm_num⟩
    constructor <;> norm_num
  have hrounded : rounded * 3600 = 1 / 2 * 3600 := hrounds.unique hnearest
  have hrounded : rounded = 1 / 2 := by linarith
  have hfloor : ⌊(1 / 2 : Rat)⌋ = 0 := by norm_num
  rw [hrounded, hfloor, Int.cast_zero, mul_zero, sub_zero] at hread
  exact ⟨hneg, hread⟩

/-- The half is not read with the sign of the degree. -/
theorem parse_text_minus_one_and_half :
    (-3 / 2 : Rat) < 0 ∧ parse (text (-(-3 / 2))) = .ok (3 / 2) ∧
      parse (text (-3 / 2)) = .ok (-1 / 2) := by
  refine ⟨by norm_num, ?_, ?_⟩ <;> decide +kernel

end Sexagesimal
end AngleCalc
