import AngleCalc.Proofs.FixedPoint.Rounding

/-!
# Fixed notation

A number is written with a fixed number of digits behind the point by rounding it to that many
digits. Rounding keeps the order of numbers and commutes with a change of sign, so the opposite
number has the same digits, and there is a sign where the rounded number is negative.
-/

namespace AngleCalc

theorem IsNearest.le_of_le {x y : Rat} {n m : Int} (hn : IsNearest x n) (hm : IsNearest y m)
    (h : x ≤ y) : n ≤ m := by
  by_contra hlt
  have hstep : m + 1 ≤ n := by omega
  have hcast : (m : Rat) + 1 ≤ n := by exact_mod_cast hstep
  have hleft := (abs_le.mp hn.error_le).left
  have hright := (abs_le.mp hm.error_le).right
  -- Two numbers that are rounded to neighbours the wrong way round both lie in the middle.
  have hmiddle : x = y := by linarith
  subst hmiddle
  exact hlt (le_of_eq (hn.unique hm))

namespace FixedPoint

/-!
## Order and sign of a rounded number
-/

theorem nearest_le_nearest {x y : Rat} (h : x ≤ y) (digits : Nat) :
    nearest x digits ≤ nearest y digits :=
  (isNearest_mul_unit x digits).le_of_le (isNearest_mul_unit y digits)
    (mul_le_mul_of_nonneg_right h (Nat.cast_nonneg _))

theorem nearest_neg (x : Rat) (digits : Nat) : nearest (-x) digits = -nearest x digits := by
  have hneg := (isNearest_mul_unit x digits).neg
  rw [← neg_mul] at hneg
  exact (isNearest_mul_unit (-x) digits).unique hneg

theorem nearest_zero (digits : Nat) : nearest 0 digits = 0 := by
  rw [nearest, zero_mul]
  exact roundHalfAway_intCast 0

theorem nearest_neg_iff (x : Rat) (digits : Nat) :
    nearest x digits < 0 ↔ x < 0 ∧ nearest x digits ≠ 0 := by
  constructor
  · intro h
    refine ⟨?_, h.ne⟩
    by_contra hx
    exact absurd (nearest_nonneg digits (not_lt.mp hx)) (not_le.mpr h)
  · rintro ⟨hx, hzero⟩
    have hle := nearest_le_nearest hx.le digits
    rw [nearest_zero] at hle
    exact lt_of_le_of_ne hle hzero

/-!
## The written form
-/

/-- The form of a number of units of the last place: a sign or none, an integer without a zero in
front of other digits, and, unless there are no digits behind the point, the point and these
digits. -/
def IsFixed (negative : Bool) (size digits : Nat) (cs : List Char) : Prop :=
  exists whole fraction : List Char,
    cs = (if negative then ['-'] else []) ++
      (whole ++ if digits = 0 then [] else '.' :: fraction) ∧
    Decimal.IsNatural (size / 10 ^ digits) whole ∧
    fraction.length = digits ∧ (forall c, c ∈ fraction -> c.isDigit = true) ∧
    Nat.ofDigitChars 10 fraction 0 = size % 10 ^ digits

theorem isFixed_chars (n : Int) {digits : Nat} (h : digits < 2 ^ 32) :
    IsFixed (decide (n < 0)) n.natAbs digits (chars n digits) := by
  rw [IsFixed, ← unit_of_lt h]
  refine ⟨(spelling n digits).whole, (spelling n digits).fraction, ?_,
    Decimal.isNatural_toDigits _, length_fraction_spelling n digits,
    Spelling.isDigit_fraction _, ofDigitChars_fraction_spelling n digits⟩
  rw [← chars_spelling, Spelling.chars, Spelling.body, Spelling.pointed, negative_spelling]
  by_cases hdigits : digits = 0
  · subst hdigits
    rfl
  · rw [if_neg hdigits, if_neg (fraction_spelling_ne_nil n hdigits)]

def flipSign : List Char -> List Char
  | '-' :: cs => cs
  | cs => '-' :: cs

theorem flipSign_body (spelling : Spelling) : flipSign spelling.body = '-' :: spelling.body := by
  rcases List.exists_cons_of_ne_nil spelling.whole_ne_nil with ⟨c, rest, hwhole⟩
  have hdigit : c.isDigit = true :=
    spelling.isDigit_whole c (by rw [hwhole]; exact List.mem_cons_self)
  have hminus : c ≠ '-' := ne_of_isDigit hdigit rfl
  rw [Spelling.body, hwhole, List.cons_append]
  simp [flipSign, hminus]

theorem spelling_of_natAbs_eq {n m : Int} (h : n.natAbs = m.natAbs) (digits : Nat) :
    spelling n digits = { spelling m digits with negative := decide (n < 0) } := by
  unfold spelling
  simp only [h]

theorem chars_neg {n : Int} (h : n ≠ 0) (digits : Nat) :
    chars (-n) digits = flipSign (chars n digits) := by
  have hbody : (spelling (-n) digits).body = (spelling n digits).body := by
    rw [spelling_of_natAbs_eq n.natAbs_neg]
    rfl
  rw [← chars_spelling, ← chars_spelling, Spelling.chars, Spelling.chars, hbody,
    negative_spelling, negative_spelling]
  by_cases hneg : n < 0
  · have hpos : ¬ -n < 0 := by omega
    rw [decide_eq_true hneg, decide_eq_false hpos]
    rfl
  · have hpos : -n < 0 := by omega
    rw [decide_eq_false hneg, decide_eq_true hpos]
    exact (flipSign_body _).symm

end FixedPoint

namespace Decimal

open FixedPoint

theorem toList_toFixed (x : Rat) (digits : Nat) :
    (toFixed x digits).toList = chars (nearest x digits) digits := by
  rw [toFixed, text, String.toList_ofList]

theorem parse_text (n : Int) {digits : Nat} (h : digits ≤ Numeral.maxScale) :
    parse (text n digits) = .ok (n / 10 ^ digits) := by
  rw [parse, text, String.toList_ofList, readChars?_chars n h, toRat_eq_div,
    cast_unit (h.trans_lt (by decide))]

/-- The text of a number with some digits behind the point is the sign and the digits of the
number rounded to them, and it is read as the rounded number. Their number has to fit a word, or
the number would be rounded to fewer digits. -/
theorem toFixed_rounds (x : Rat) {digits : Nat} (h : digits < 2 ^ 32) :
    IsNearest (x * 10 ^ digits) (nearest x digits) ∧
      IsFixed (decide (x < 0 ∧ nearest x digits ≠ 0)) (nearest x digits).natAbs digits
        (toFixed x digits).toList ∧
      (digits ≤ 100000 -> parse (toFixed x digits) = .ok (nearest x digits / 10 ^ digits)) ∧
      (toFixed (-x) digits).toList =
        (if nearest x digits = 0 then (toFixed x digits).toList
          else flipSign (toFixed x digits).toList) ∧
      (forall y, x ≤ y -> nearest x digits ≤ nearest y digits) ∧
      (digits ≤ 100000 -> forall n : Int, parse (text n digits) = .ok (n / 10 ^ digits)) := by
  refine ⟨isNearest_nearest x h, ?_, parse_text (nearest x digits), ?_,
    fun y hle => nearest_le_nearest hle digits, fun hle n => parse_text n hle⟩
  · have hsign : decide (x < 0 ∧ nearest x digits ≠ 0) = decide (nearest x digits < 0) :=
      decide_eq_decide.mpr (nearest_neg_iff x digits).symm
    rw [toList_toFixed, hsign]
    exact isFixed_chars (nearest x digits) h
  · rw [toList_toFixed, toList_toFixed, nearest_neg]
    split
    · rename_i hzero
      rw [hzero, neg_zero]
    · rename_i hzero
      exact chars_neg hzero digits

/-- Half of the last place goes away from zero, and the sign is kept although the integer part is
zero. -/
theorem toFixed_rounds_half :
    2 < 2 ^ 32 ∧ parse (toFixed (-1 / 200) 2) = .ok (-1 / 100) ∧ toFixed (-(-1 / 200)) 2 = "0.01" ∧
      nearest (-1 / 200) 2 ≤ nearest (-1 / 250) 2 ∧ parse (text (-5) 3) = .ok (-5 / 10 ^ 3) := by
  have hnearest : nearest (-1 / 200) 2 = -1 := by decide +kernel
  have htext : (toFixed (-1 / 200) 2).toList = ['-', '0', '.', '0', '1'] := by decide +kernel
  have hword : 2 < 2 ^ 32 := by decide
  have hlonger : 3 < 2 ^ 32 := by decide
  rcases toFixed_rounds (-1 / 200) hword with ⟨_, _, hread, hneg, hmono, _⟩
  rcases toFixed_rounds 0 hlonger with ⟨_, _, _, _, _, hscaled⟩
  refine ⟨hword, ?_, ?_, hmono (-1 / 250) (by norm_num), hscaled (by decide) (-5)⟩
  · rw [hread (by decide), hnearest]
    norm_num
  · rw [← String.toList_inj, hneg, hnearest, htext]
    rfl

end Decimal
end AngleCalc
