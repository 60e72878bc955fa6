import AngleCalc.Proofs.Display.Scaling

/-!
# Engineering notation is rounded and normalised

A number is written with the exponent of its leading digit and with seven digits, the last one
rounded. If they round up to a ten, it is written as a one with the next exponent. What is read
from such a text is the rounded number, which is written as the same text again.
-/

namespace AngleCalc

open FixedPoint

/-- The number `y` is `x` rounded to `digits` digits, the first of which is its leading one. A half
goes away from zero. -/
def RoundsToSignificant (x : Rat) (digits : Nat) (y : Rat) : Prop :=
  exists k n : Int, IsMagnitude x k ∧ IsNearest (x * 10 ^ (digits - 1 - k)) n ∧
    y = n * 10 ^ (k + 1 - digits)

def withSign (x : Rat) (size : Nat) : Int :=
  if x < 0 then -size else size

section Sign

variable (x : Rat) (size : Nat)

theorem natAbs_withSign : (withSign x size).natAbs = size := by
  unfold withSign
  split
  · rw [Int.natAbs_neg, Int.natAbs_natCast]
  · exact Int.natAbs_natCast size

theorem withSign_neg_iff {size : Nat} (hsize : 0 < size) : withSign x size < 0 ↔ x < 0 := by
  unfold withSign
  split
  · rename_i hx
    exact iff_of_true (by omega) hx
  · rename_i hx
    exact iff_of_false (by omega) hx

theorem withSign_mul (factor : Nat) : withSign x (size * factor) = withSign x size * factor := by
  unfold withSign
  split
  · push_cast
    ring
  · exact Int.natCast_mul size factor

variable {x size}

theorem IsNearest.withSign {factor : Rat} (h : IsNearest (|x| * factor) size) :
    IsNearest (x * factor) (withSign x size) := by
  unfold AngleCalc.withSign
  split
  · rename_i hx
    rw [abs_of_neg hx] at h
    have hneg := h.neg
    rwa [neg_mul, neg_neg] at hneg
  · rename_i hx
    rwa [abs_of_nonneg (not_lt.mp hx)] at h

end Sign

namespace Display

/-!
## The mantissa and the exponent
-/

/-- The mantissa, in units of its sixth place behind the point, and the exponent with which `size`
units are written if the leading digit counts the power of ten with the exponent `k`. -/
def normalised (size : Nat) (k : Int) : Nat × Int :=
  if size = 10 ^ 7 then (10 ^ 6, k + 1) else (size, k)

section Rounded

variable {x : Rat} {k : Int} {size : Nat}

theorem size_bounds (hk : IsMagnitude x k) (hsize : IsNearest (|x| * 10 ^ (6 - k)) size) :
    10 ^ 6 ≤ size ∧ size ≤ 10 ^ 7 := by
  have hten : (10 : Rat) ≠ 0 := by norm_num
  have hlow : (10 : Rat) ^ 6 ≤ |x| * 10 ^ (6 - k) := by
    calc
      (10 : Rat) ^ 6 = 10 ^ k * 10 ^ (6 - k) := by
        rw [← zpow_add₀ hten, add_sub_cancel]
        rfl
      _ ≤ |x| * 10 ^ (6 - k) := mul_le_mul_of_nonneg_right hk.le (ten_zpow_pos _).le
  have hhigh : |x| * 10 ^ (6 - k) ≤ (10 : Rat) ^ 7 := by
    calc
      |x| * 10 ^ (6 - k) ≤ 10 ^ (k + 1) * 10 ^ (6 - k) :=
        mul_le_mul_of_nonneg_right hk.lt.le (ten_zpow_pos _).le
      _ = 10 ^ 7 := by
        rw [← zpow_add₀ hten, show k + 1 + (6 - k) = 7 by ring]
        rfl
  have hbounds := hsize.mono (by exact_mod_cast hlow) (by exact_mod_cast hhigh)
  exact_mod_cast hbounds

theorem mantissaExponent_eq (hx : x ≠ 0) (hguess : (Decimal.exponentGuess |x|).natAbs < 2 ^ 32)
    (hk : IsMagnitude x k) (hsize : IsNearest (|x| * 10 ^ (6 - k)) size) :
    mantissaExponent |x| = normalised size k := by
  have hten : (10 : Rat) ≠ 0 := by norm_num
  have hscaled : |x| * 10 ^ (-k) * (unit mantissaDigits : Rat) = |x| * 10 ^ (6 - k) := by
    rw [cast_unit (by decide), mul_assoc, mantissaDigits, ← zpow_natCast, ← zpow_add₀ hten,
      add_comm (-k)]
    rfl
  have hnearest : nearest (|x| * 10 ^ (-k)) mantissaDigits = size := by
    rw [nearest, hscaled]
    exact (isNearest_iff.mp hsize).symm
  have hhigh := (size_bounds hk hsize).right
  have hunit : unit (mantissaDigits + 1) = 10 ^ 7 := rfl
  have hresult :=
    (Scaled.raise_lower_guess (abs_pos.mpr hx) hguess (isMagnitude_abs_iff.mpr hk)).right
  simp only [mantissaExponent, hresult, hnearest, Int.natAbs_natCast, hunit, normalised]
  by_cases hcarry : size = 10 ^ 7
  · subst hcarry
    rfl
  · have hlt : ¬ 10 ^ 7 ≤ size := by omega
    rw [if_neg hlt, if_neg hcarry]

end Rounded

theorem normalised_bounds {size : Nat} (hlow : 10 ^ 6 ≤ size) (hhigh : size ≤ 10 ^ 7) (k : Int) :
    10 ^ 6 ≤ (normalised size k).1 ∧ (normalised size k).1 < 10 ^ 7 := by
  unfold normalised
  split
  · exact ⟨le_rfl, Nat.pow_lt_pow_right (by decide) (by decide)⟩
  · exact ⟨hlow, by omega⟩

/-!
## Characters
-/

/-- The characters of a number in engineering notation: a sign if it is negative, one digit other
than zero, six digits behind the point, and an exponent with its sign and at least two digits. -/
def IsEngineering (negative : Bool) (mantissa : Nat) (exponent : Int) (cs : List Char) : Prop :=
  exists lead fraction digits,
    cs = (if negative then ['-'] else []) ++ lead :: '.' :: fraction ++
      'e' :: (if exponent < 0 then '-' else '+') :: digits ∧
    (lead.isDigit = true ∧ lead ≠ '0') ∧
    (fraction.length = 6 ∧ forall c, c ∈ fraction -> c.isDigit = true) ∧
    (2 ≤ digits.length ∧ forall c, c ∈ digits -> c.isDigit = true) ∧
    Nat.ofDigitChars 10 (lead :: fraction) 0 = mantissa ∧
    Nat.ofDigitChars 10 digits 0 = exponent.natAbs

theorem two_le_length_paddedDigits (n : Nat) : 2 ≤ (paddedDigits 2 n).length := by
  rw [paddedDigits, List.length_leftpad]
  exact Nat.le_max_left 2 _

theorem readExponent?_exponentChars (exponent : Int) :
    Numeral.readExponent? (exponentChars exponent) = some exponent := by
  have hdigits : (paddedDigits 2 exponent.natAbs).all Char.isDigit = true :=
    List.all_eq_true.mpr (fun c hc => isDigit_of_mem_paddedDigits hc)
  have hne : (paddedDigits 2 exponent.natAbs).isEmpty = false := by
    rw [List.isEmpty_eq_false_iff, ← List.length_pos_iff]
    exact Nat.lt_of_lt_of_le Nat.two_pos (two_le_length_paddedDigits _)
  have hsize := ofDigitChars_paddedDigits 2 exponent.natAbs
  by_cases hneg : exponent < 0
  · have habs : (exponent.natAbs : Int) = -exponent := Int.ofNat_natAbs_of_nonpos hneg.le
    simp [exponentChars, Numeral.readExponent?, Numeral.readInteger?, Numeral.readSign, hdigits,
      hne, hsize, hneg, habs]
  · have habs : (exponent.natAbs : Int) = exponent := Int.natAbs_of_nonneg (not_lt.mp hneg)
    simp [exponentChars, Numeral.readExponent?, Numeral.readInteger?, Numeral.readSign, hdigits,
      hne, hsize, hneg, habs]

theorem toList_engineering {x : Rat} (hx : x ≠ 0) {mantissa : Nat} {exponent : Int}
    (hpos : 0 < mantissa) (h : mantissaExponent |x| = (mantissa, exponent)) :
    (engineering x).toList =
      (spelling (withSign x mantissa) mantissaDigits).chars ++ exponentChars exponent := by
  rw [engineering, if_neg hx, abs_eq_abs, h, String.toList_ofList, chars_spelling, chars,
    natAbs_withSign]
  simp only [withSign_neg_iff x hpos]

theorem digitChar_ne_zero {d : Nat} (hd : d < 10) (hpos : 0 < d) : Nat.digitChar d ≠ '0' := by
  have hall : forall d : Nat, d < 10 -> 0 < d -> Nat.digitChar d ≠ '0' := by decide
  exact hall d hd hpos

theorem isEngineering {mantissa : Nat} (hlow : 10 ^ 6 ≤ mantissa) (hhigh : mantissa < 10 ^ 7)
    (x : Rat) (exponent : Int) :
    IsEngineering (decide (x < 0)) mantissa exponent
      ((spelling (withSign x mantissa) mantissaDigits).chars ++ exponentChars exponent) := by
  have hunit : unit mantissaDigits = 10 ^ 6 := rfl
  have hdigit : mantissa / 10 ^ 6 < 10 := by omega
  have hpos : 0 < mantissa / 10 ^ 6 := by omega
  have hwhole : (spelling (withSign x mantissa) mantissaDigits).whole =
      [Nat.digitChar (mantissa / 10 ^ 6)] := by
    rw [whole_spelling, natAbs_withSign, hunit, Nat.toDigits_of_lt_base hdigit]
  have hword : mantissaDigits < 2 ^ 32 := by decide
  have hvalue := magnitude_spelling (withSign x mantissa) hword
  rw [Numeral.magnitude, Spelling.numeral, hwhole, natAbs_withSign] at hvalue
  have hfraction : (spelling (withSign x mantissa) mantissaDigits).fraction ≠ [] :=
    fraction_spelling_ne_nil _ (by decide)
  have hnegative : (spelling (withSign x mantissa) mantissaDigits).negative = decide (x < 0) :=
    decide_eq_decide.mpr (withSign_neg_iff x (by omega))
  refine ⟨Nat.digitChar (mantissa / 10 ^ 6),
    (spelling (withSign x mantissa) mantissaDigits).fraction, paddedDigits 2 exponent.natAbs,
    ?_, ⟨?_, digitChar_ne_zero hdigit hpos⟩,
    ⟨length_fraction_spelling _ _, Spelling.isDigit_fraction _⟩,
    ⟨two_le_length_paddedDigits _, fun c hc => isDigit_of_mem_paddedDigits hc⟩, hvalue,
    ofDigitChars_paddedDigits _ _⟩
  · rw [Spelling.chars_of_fraction_ne_nil _ hfraction, hnegative, hwhole, exponentChars]
    simp
  · rw [Nat.isDigit_digitChar]
    exact decide_eq_true hdigit

/-!
## Reading
-/

/-- The number that is read from a mantissa and an exponent. -/
def written (x : Rat) (mantissa : Nat) (exponent : Int) : Rat :=
  withSign x mantissa * 10 ^ (exponent - 6)

theorem readChars?_engineering (x : Rat) (mantissa : Nat) {exponent : Int}
    (h : (exponent - 6).natAbs ≤ Numeral.maxScale) :
    Decimal.readChars?
        ((spelling (withSign x mantissa) mantissaDigits).chars ++ exponentChars exponent) =
      some (written x mantissa exponent) := by
  have hten : (10 : Rat) ≠ 0 := by norm_num
  have hscale : (spelling (withSign x mantissa) mantissaDigits).numeral.scale + exponent =
      exponent - 6 := by
    rw [Spelling.numeral, length_fraction_spelling]
    exact neg_add_eq_sub 6 exponent
  have hmark : forall c, (exponentChars exponent).head? = some c ->
      Numeral.isExponentMark c = true := by
    intro c hc
    cases hc
    rfl
  rw [Spelling.readChars?_chars_append _ hmark (readExponent?_exponentChars exponent)
    (hscale ▸ h), value_spelling _ (by decide), toRat_eq_div, cast_unit (by decide), written,
    zpow_sub₀ hten, mantissaDigits]
  congr 1
  rw [div_mul_eq_mul_div, mul_div_assoc]
  rfl

section Written

variable {x : Rat} {mantissa : Nat} {exponent : Int}

theorem abs_written : |written x mantissa exponent| = mantissa * 10 ^ (exponent - 6) := by
  have hsize : |((withSign x mantissa : Int) : Rat)| = mantissa := by
    rw [← Int.cast_abs, Int.abs_eq_natAbs, natAbs_withSign]
    rfl
  rw [written, abs_mul, hsize, abs_of_pos (ten_zpow_pos _)]

theorem written_ne_zero (hpos : 0 < mantissa) : written x mantissa exponent ≠ 0 := by
  rw [← abs_pos, abs_written]
  exact mul_pos (Nat.cast_pos.mpr hpos) (ten_zpow_pos _)

theorem written_neg_iff (hpos : 0 < mantissa) : written x mantissa exponent < 0 ↔ x < 0 := by
  have hunit := ten_zpow_pos (exponent - 6)
  rw [← withSign_neg_iff x hpos, ← Int.cast_lt_zero (R := Rat), written]
  constructor
  · exact fun h => neg_of_mul_neg_left h hunit.le
  · exact fun h => mul_neg_of_neg_of_pos h hunit

theorem withSign_written (hpos : 0 < mantissa) (size : Nat) :
    withSign (written x mantissa exponent) size = withSign x size := by
  unfold withSign
  simp only [written_neg_iff hpos]

theorem isMagnitude_written (hlow : 10 ^ 6 ≤ mantissa) (hhigh : mantissa < 10 ^ 7) :
    IsMagnitude (written x mantissa exponent) exponent := by
  have hten : (10 : Rat) ≠ 0 := by norm_num
  have hlow : (10 : Rat) ^ 6 ≤ mantissa := by exact_mod_cast hlow
  have hhigh : (mantissa : Rat) < 10 ^ 7 := by exact_mod_cast hhigh
  have hvalue : |written x mantissa exponent| =
      (Scaled.mk (mantissa / 10 ^ 6) exponent).value := by
    rw [abs_written, zpow_sub₀ hten, Scaled.value, mul_div_left_comm, mul_comm]
    rfl
  rw [← isMagnitude_abs_iff, hvalue]
  apply Scaled.isMagnitude_value
  · rw [le_div_iff₀ (by norm_num), one_mul]
    exact hlow
  · rw [div_lt_iff₀ (by norm_num)]
    linarith

theorem mantissaExponent_written (hlow : 10 ^ 6 ≤ mantissa) (hhigh : mantissa < 10 ^ 7)
    (hexponent : exponent.natAbs + 1 < 2 ^ 32) :
    mantissaExponent |written x mantissa exponent| = (mantissa, exponent) := by
  have hten : (10 : Rat) ≠ 0 := by norm_num
  have hne : written x mantissa exponent ≠ 0 := written_ne_zero (by omega)
  have hmagnitude : IsMagnitude (written x mantissa exponent) exponent :=
    isMagnitude_written hlow hhigh
  have hguess : (Decimal.exponentGuess |written x mantissa exponent|).natAbs < 2 ^ 32 := by
    have hcases := Decimal.exponentGuess_of_isMagnitude (abs_pos.mpr hne)
      (isMagnitude_abs_iff.mpr hmagnitude)
    omega
  have hscaled : |written x mantissa exponent| * 10 ^ (6 - exponent) = (mantissa : Int) := by
    rw [abs_written, mul_assoc, ← zpow_add₀ hten, sub_add_sub_cancel, sub_self, zpow_zero, mul_one]
    rfl
  have hsize : IsNearest (|written x mantissa exponent| * 10 ^ (6 - exponent)) mantissa := by
    rw [hscaled]
    exact isNearest_intCast _
  rw [mantissaExponent_eq hne hguess hmagnitude hsize, normalised, if_neg hhigh.ne]

theorem engineering_written {x : Rat} (hx : x ≠ 0) (hlow : 10 ^ 6 ≤ mantissa)
    (hhigh : mantissa < 10 ^ 7) (hexponent : exponent.natAbs + 1 < 2 ^ 32)
    (h : mantissaExponent |x| = (mantissa, exponent)) :
    engineering (written x mantissa exponent) = engineering x := by
  have hpos : 0 < mantissa := by omega
  rw [← String.toList_inj, toList_engineering (written_ne_zero hpos) hpos
    (mantissaExponent_written hlow hhigh hexponent), toList_engineering hx hpos h,
    withSign_written hpos]

end Written

/-- The mantissa is the number rounded to seven digits, also where it was carried. -/
theorem roundsToSignificant_written {x : Rat} {k : Int} {size : Nat} (hk : IsMagnitude x k)
    (hsize : IsNearest (|x| * 10 ^ (6 - k)) size) :
    RoundsToSignificant x 7 (written x (normalised size k).1 (normalised size k).2) := by
  have hten : (10 : Rat) ≠ 0 := by norm_num
  refine ⟨k, withSign x size, hk, ?_, ?_⟩
  · have hnearest := hsize.withSign
    norm_num
    exact hnearest
  · unfold written normalised
    split
    · rename_i hcarry
      rw [hcarry, show (10 : Nat) ^ 7 = 10 ^ 6 * 10 from rfl, withSign_mul, Int.cast_mul, mul_assoc]
      congr 1
      have hstep : k + 1 - 6 = 1 + (k - 6) := by ring
      have hdigits : k + 1 - ((7 : Nat) : Int) = k - 6 := by push_cast; ring
      rw [hstep, hdigits, zpow_add₀ hten, zpow_one]
      rfl
    · congr 2
      push_cast
      ring

/-- Whatever number other than zero is written, both loops end, the first one at the state from
which the second one starts, and they find the exponent `k` of its leading digit. The text is the
sign, the mantissa rounded to seven digits and the exponent, and a mantissa that is rounded up to
ten is carried. If its last digit is not too far from the units then the text is read as the
rounded number, which is written as the same text. The size of the guessed exponent has to fit a
word, or the mantissa would be scaled by another power of ten. -/
theorem engineering_normalised {x : Rat} (hx : x ≠ 0)
    (hguess : (Decimal.exponentGuess |x|).natAbs < 2 ^ 32) :
    exists (k : Int) (size mantissa : Nat) (exponent : Int),
      (forall j, IsMagnitude x j ↔ j = k) ∧
      (forall n, IsNearest (|x| * 10 ^ (6 - k)) n ↔ n = size) ∧
      (exists lowered,
        Loops Scaled.IsHigh Scaled.tenth (Scaled.guess |x|) lowered ∧
        Loops Scaled.IsLow Scaled.tenfold lowered ⟨|x| * 10 ^ (-k), k⟩) ∧
      (mantissa, exponent) = (if size = 10 ^ 7 then (10 ^ 6, k + 1) else (size, k)) ∧
      IsEngineering (decide (x < 0)) mantissa exponent (engineering x).toList ∧
      ((exponent - 6).natAbs ≤ 100000 ->
        exists y, Decimal.parse (engineering x) = .ok y ∧ RoundsToSignificant x 7 y ∧
          engineering y = engineering x) := by
  have hmagnitude : forall j, IsMagnitude x j ↔ j = Int.log 10 |x| := fun j => isMagnitude_iff hx
  generalize Int.log 10 |x| = k at hmagnitude
  have hk : IsMagnitude x k := (hmagnitude k).mpr rfl
  have hscaled : 0 ≤ |x| * 10 ^ (6 - k) := mul_nonneg (abs_nonneg x) (ten_zpow_pos _).le
  obtain ⟨size, hsize⟩ : exists size : Nat, IsNearest (|x| * 10 ^ (6 - k)) size := by
    have hnearest := isNearest_roundHalfAway (|x| * 10 ^ (6 - k))
    obtain ⟨size, hsize⟩ := Int.eq_ofNat_of_zero_le
      (hnearest.mono (by exact_mod_cast hscaled) (Int.le_ceil _)).left
    exact ⟨size, hsize ▸ hnearest⟩
  rcases size_bounds hk hsize with ⟨hlow, hhigh⟩
  rcases hnormalised : normalised size k with ⟨mantissa, exponent⟩
  have hbounds := normalised_bounds hlow hhigh k
  rw [hnormalised] at hbounds
  have hmantissa : mantissaExponent |x| = (mantissa, exponent) :=
    (mantissaExponent_eq hx hguess hk hsize).trans hnormalised
  have hpos : 0 < mantissa := Nat.lt_of_lt_of_le (by decide) hbounds.left
  have htext := toList_engineering hx hpos hmantissa
  have hloops := Scaled.raise_lower_guess (abs_pos.mpr hx) hguess (isMagnitude_abs_iff.mpr hk)
  refine ⟨k, size, mantissa, exponent, hmagnitude, ?_, ⟨_, Scaled.loops_lower _, hloops.left⟩,
    hnormalised.symm, ?_, ?_⟩
  · exact fun n => ⟨fun h => h.unique hsize, fun h => h ▸ hsize⟩
  · rw [htext]
    exact isEngineering hbounds.left hbounds.right x exponent
  · intro hexponent
    refine ⟨written x mantissa exponent, ?_, ?_,
      engineering_written hx hbounds.left hbounds.right (by omega) hmantissa⟩
    · rw [Decimal.parse, htext, readChars?_engineering x mantissa hexponent]
    · have hrounds := roundsToSignificant_written hk hsize
      rwa [hnormalised] at hrounds

/-- A mantissa that lies in the middle below ten is carried. -/
theorem engineering_normalised_carry :
    (-19999999 / 2000000 : Rat) ≠ 0 ∧
      (Decimal.exponentGuess |(-19999999 / 2000000 : Rat)|).natAbs < 2 ^ 32 ∧
      IsEngineering true (10 ^ 6) 1 (engineering (-19999999 / 2000000)).toList ∧
      exists y, Decimal.parse (engineering (-19999999 / 2000000)) = .ok y ∧
        RoundsToSignificant (-19999999 / 2000000) 7 y ∧
        engineering y = engineering (-19999999 / 2000000) := by
  have hne : (-19999999 / 2000000 : Rat) ≠ 0 := by norm_num
  have habs : |(-19999999 / 2000000 : Rat)| = 19999999 / 2000000 := by norm_num [abs_div]
  have hguess : (Decimal.exponentGuess |(-19999999 / 2000000 : Rat)|).natAbs < 2 ^ 32 := by
    rw [habs]
    decide +kernel
  rcases engineering_normalised hne hguess with
    ⟨k, size, mantissa, exponent, hmagnitude, hsize, _, hcarried, htext, hread⟩
  have hk : 0 = k := (hmagnitude 0).mp ⟨by rw [habs]; norm_num, by rw [habs]; norm_num⟩
  subst hk
  have hmiddle : |(-19999999 / 2000000 : Rat)| * 10 ^ (6 - 0 : Int) = 9999999 + 1 / 2 := by
    rw [habs]
    norm_num
  have hnearest : IsNearest (9999999 + 1 / 2) 10000000 := by
    constructor <;> norm_num [abs_le, abs_div]
  have hseven : (10000000 : Int) = size := (hsize 10000000).mp (by rw [hmiddle]; exact hnearest)
  have hseven : size = 10 ^ 7 := by omega
  rw [if_pos hseven] at hcarried
  cases hcarried
  have hnegative : decide ((-19999999 / 2000000 : Rat) < 0) = true := by
    rw [decide_eq_true_iff]
    norm_num
  rw [hnegative] at htext
  exact ⟨hne, hguess, htext, hread (by decide)⟩

end Display
end AngleCalc
