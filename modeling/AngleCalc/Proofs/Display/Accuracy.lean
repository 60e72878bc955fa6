import AngleCalc.Proofs.Display.Exact
import AngleCalc.Proofs.Display.Repetition
import AngleCalc.Proofs.Display.Shown

/-!
# The accuracy of a displayed number

A number is displayed exactly if its expansion ends within the precision. If not, it is rounded,
which leaves it at most half a unit of the last place away. The zeros at the end of the fraction
are dropped before nines are carried and a block is searched, so what is repeated behind the
fraction adds up to a unit of the last digit that is left, and not of the last place.
-/

namespace AngleCalc

open Decimal FixedPoint

namespace Display

/-- How many digits are repeated behind a fraction. A carry of nines is a unit of the last one of
them and repeats no digit. -/
def repetition? (fraction : List Char) : Option Nat :=
  if maxNines < fraction.length ∧ fraction.all (fun c => c == '9') = true then some 0
  else (recurringBlock? fraction.toArray).map Prod.snd

/-- The digits behind the point of the rounded number, without the zeros at their end. -/
def roundedFraction (x : Rat) (precision : Nat) : List Char :=
  trimmedFraction (nearest x.abs precision).natAbs precision

def displayError (x : Rat) (precision : Nat) : Rat :=
  |shownValue (recurring x precision) - x|

/-!
## What is repeated
-/

section Gap

variable {fraction : List Char} (whole : Nat)
  (hdigits : forall c, c ∈ fraction -> c.isDigit = true)
include hdigits

theorem gap_of_nines (hnines : fraction.all (fun c => c == '9') = true) :
    gap (shownSize (Nat.toDigits 10 (whole + 1))) whole fraction = 1 := by
  have hlast : Nat.ofDigitChars 10 fraction 0 + 1 = 10 ^ fraction.length :=
    (ofDigitChars_add_one_eq_iff hdigits).mpr
      (fun c hc => beq_iff_eq.mp (List.all_eq_true.mp hnines c hc))
  have hcast : (Nat.ofDigitChars 10 fraction 0 : Rat) + 1 = 10 ^ fraction.length := by
    exact_mod_cast hlast
  rw [gap, shownSize_of_digits (isDigit_toDigits (whole + 1)), Nat.ofDigitChars_ten_toDigits,
    ← hcast]
  push_cast
  ring

theorem gap_of_no_block (hnone : recurringBlock? fraction.toArray = none) :
    gap (shownSize (Nat.toDigits 10 whole ++ '.' :: fractionChars fraction)) whole fraction =
      0 := by
  rw [gap, fractionChars, hnone, shownSize_of_fraction (isDigit_toDigits whole) hdigits,
    Nat.ofDigitChars_ten_toDigits]
  field_simp
  ring

theorem gap_of_block (hlast : fraction.getLast? ≠ some '0') {start length : Nat}
    (hfound : recurringBlock? fraction.toArray = some (start, length)) :
    let shown := gap (shownSize (Nat.toDigits 10 whole ++ '.' :: fractionChars fraction)) whole
      fraction
    |shown| ≤ 1 ∧ 1 / 10 ^ length ≤ |shown| := by
  have hblock := (recurringBlock?_eq_some_iff.mp hfound).left
  have hvisible := hblock.visible
  rw [List.size_toArray, minRepetition] at hvisible
  have hchars : Nat.toDigits 10 whole ++ '.' :: fractionChars fraction =
      (hblock.decimal hdigits whole).chars := by
    rw [fractionChars, hfound]
    rfl
  have hlead : (hblock.decimal hdigits whole).lead.length ≤ fraction.length - 1 := by
    rw [IsBlock.decimal, hblock.length_take]
    omega
  have hgap :=
    RecurringDecimal.gap_of_shows (hblock.shows_decimal hdigits whole) hlead hdigits hlast
  rw [hchars, shownSize_chars]
  simpa only [IsBlock.decimal, hblock.length_take_drop] using hgap

/-- How far the displayed size is from the fraction, in units of its last digit. -/
theorem gap_roundedChars (hlast : fraction.getLast? ≠ some '0') :
    let shown := gap (shownSize (roundedChars [] whole fraction)) whole fraction
    (repetition? fraction = none -> shown = 0) ∧
      forall length, repetition? fraction = some length ->
        |shown| ≤ 1 ∧ 1 / 10 ^ length ≤ |shown| := by
  rw [roundedChars, repetition?]
  by_cases hcarry : maxNines < fraction.length ∧ fraction.all (fun c => c == '9') = true
  · rw [if_pos hcarry, if_pos hcarry, List.nil_append, gap_of_nines whole hdigits hcarry.right]
    refine ⟨fun hnone => (Option.some_ne_none _ hnone).elim, ?_⟩
    rintro length ⟨⟩
    norm_num
  · rw [if_neg hcarry, if_neg hcarry]
    by_cases hempty : fraction = []
    · subst hempty
      have hwhole : (if whole = 0 then ['0'] else [] ++ Nat.toDigits 10 whole) =
          Nat.toDigits 10 whole := by
        split
        · rename_i hzero
          subst hzero
          rfl
        · rfl
      have hnone : recurringBlock? ([] : List Char).toArray = none := by decide
      rw [if_pos List.isEmpty_nil, hwhole, hnone, gap,
        shownSize_of_digits (isDigit_toDigits whole), Nat.ofDigitChars_ten_toDigits]
      exact ⟨fun _ => by simp, fun length hlength => by cases hlength⟩
    · rw [if_neg (by simpa using hempty), List.nil_append]
      cases hfound : recurringBlock? fraction.toArray with
      | none =>
          refine ⟨fun _ => gap_of_no_block whole hdigits hfound, ?_⟩
          exact fun length hlength => by cases hlength
      | some block =>
          refine ⟨fun hnone => (Option.some_ne_none _ hnone).elim, ?_⟩
          rintro length ⟨⟩
          exact gap_of_block whole hdigits hlast hfound

end Gap

/-!
## What is rounded
-/

theorem spelling_trimmed_fraction (n precision : Nat) :
    (spelling n precision).trimmed.fraction = trimmedFraction n precision := by
  rw [Spelling.fraction_trimmed, trimmedFraction]
  by_cases hprecision : precision = 0
  · subst hprecision
    rfl
  · rw [fraction_spelling _ hprecision, if_neg hprecision]
    rfl

theorem isDigit_trimmedFraction (n precision : Nat) (c : Char)
    (hc : c ∈ trimmedFraction n precision) : c.isDigit = true := by
  rw [← spelling_trimmed_fraction] at hc
  exact (spelling n precision).trimmed.isDigit_fraction c hc

theorem getLast?_trimmedFraction (n precision : Nat) :
    (trimmedFraction n precision).getLast? ≠ some '0' := by
  rw [← spelling_trimmed_fraction, Spelling.fraction_trimmed]
  intro hlast
  rcases List.getLast?_eq_some_iff.mp hlast with ⟨front, hfront⟩
  have hne : (spelling n precision).fraction.rdropWhile (fun c => c == '0') ≠ [] := by
    rw [hfront]
    simp
  have hnot := List.rdropWhile_last_not (fun c => c == '0') _ hne
  simp [hfront] at hnot

theorem whole_add_trimmedFraction (n : Nat) {precision : Nat} (hword : precision < 2 ^ 32) :
    (n / unit precision : Nat) + (Nat.ofDigitChars 10 (trimmedFraction n precision) 0 : Rat) /
      10 ^ (trimmedFraction n precision).length = n / 10 ^ precision := by
  have hsize := shownSize_body (spelling n precision).trimmed
  have hnegative : (spelling n precision).trimmed.negative = false :=
    decide_eq_false (not_lt.mpr (Int.natCast_nonneg n))
  have hwhole : (spelling n precision).trimmed.whole = Nat.toDigits 10 (n / unit precision) := rfl
  rw [shownSize_eq_value hnegative, Spelling.value_trimmed, value_spelling n hword, toRat_eq_div,
    cast_unit hword, spelling_trimmed_fraction, hwhole, Nat.ofDigitChars_ten_toDigits] at hsize
  rw [← hsize, Int.cast_natCast]

theorem abs_natAbs_nearest_sub_le (x : Rat) {precision : Nat} (hword : precision < 2 ^ 32) :
    abs (((nearest x.abs precision).natAbs : Rat) / 10 ^ precision - |x|) ≤
      1 / 2 / 10 ^ precision := by
  have hcast : ((nearest |x| precision).natAbs : Rat) = nearest |x| precision := by
    rw [Nat.cast_natAbs, abs_of_nonneg (nearest_nonneg precision (abs_nonneg x))]
  have hpos : (0 : Rat) < 10 ^ precision := by positivity
  have herror := (isNearest_nearest |x| hword).error_le
  rw [abs_eq_abs, hcast, le_div_iff₀ hpos, ← abs_of_pos hpos, ← abs_mul, abs_of_pos hpos, sub_mul,
    div_mul_cancel₀ _ hpos.ne', abs_sub_comm]
  exact herror

/-!
## The displayed text
-/

theorem startsWithDigit_roundedChars (whole : Nat) (fraction : List Char) :
    StartsWithDigit (roundedChars [] whole fraction) := by
  have hwhole : forall n, StartsWithDigit (Nat.toDigits 10 n) := by
    intro n
    have hdigits := startsWithDigit_toDigits n []
    rwa [List.append_nil] at hdigits
  unfold roundedChars
  split
  · exact hwhole (whole + 1)
  · split
    · split
      · exact ⟨'0', [], rfl, rfl⟩
      · exact hwhole whole
    · exact startsWithDigit_toDigits whole _

theorem roundedChars_sign (sign : List Char) (whole : Nat) (fraction : List Char) :
    roundedChars sign whole fraction = sign ++ roundedChars [] whole fraction ∨
      roundedChars sign whole fraction = ['0'] ∧ roundedChars [] whole fraction = ['0'] := by
  unfold roundedChars
  split
  · exact .inl rfl
  · split
    · split
      · exact .inr ⟨rfl, rfl⟩
      · exact .inl rfl
    · left
      rw [List.nil_append, List.append_assoc]

theorem abs_shownValue_roundedChars (x : Rat) (whole : Nat) (fraction : List Char) :
    |shownValue (String.ofList (roundedChars (if x < 0 then ['-'] else []) whole fraction)) - x| =
      abs (shownSize (roundedChars [] whole fraction) - |x|) := by
  rcases roundedChars_sign (if x < 0 then ['-'] else []) whole fraction with hsign | ⟨hzero, hbody⟩
  · rw [hsign, abs_shownValue_sub (startsWithDigit_roundedChars whole fraction)]
  · have hsize : shownSize ['0'] = 0 := by decide +kernel
    have hvalue : shownValue (String.ofList ['0']) = 0 := by decide +kernel
    rw [hzero, hbody, hsize, hvalue, zero_sub, zero_sub, abs_neg, abs_neg, abs_abs]

theorem shownValue_trimmed (n : Int) {places : Nat} (hword : places < 2 ^ 32) :
    shownValue (String.ofList (spelling n places).trimmed.chars) = toRat n places := by
  have hnegative := negative_trimmed_abs n places
  have hstarts : StartsWithDigit (spelling |n| places).trimmed.body :=
    startsWithDigit_toDigits ((|n|).natAbs / unit places) _
  have herror := abs_shownValue_sub (x := toRat n places) hstarts
  rw [shownSize_eq_value hnegative, Spelling.value_trimmed, value_spelling _ hword, ← abs_toRat,
    sub_self, abs_zero, abs_eq_zero, sub_eq_zero] at herror
  simp only [toRat_neg_iff] at herror
  rw [chars_trimmed_abs, Spelling.chars_eq_body _ hnegative, herror]

theorem shownValue_of_endsWithin {x : Rat} {precision : Nat} (hword : precision < 2 ^ 32)
    (h : endsWithin x precision = true) : shownValue (recurring x precision) = x := by
  rcases endsWithin_iff.mp h with ⟨n, hn⟩
  rw [← cast_unit hword, ← toRat_eq_div] at hn
  have htext : recurring x precision = String.ofList (spelling n precision).trimmed.chars := by
    rw [← toList_recurring h hword hn, String.ofList_toList]
  rw [htext, shownValue_trimmed n hword, hn]

theorem recurring_of_not_endsWithin {x : Rat} {precision : Nat}
    (h : endsWithin x precision = false) :
    let n := (nearest x.abs precision).natAbs
    recurring x precision = String.ofList (roundedChars (if x < 0 then ['-'] else [])
      (n / unit precision) (trimmedFraction n precision)) := by
  have hzero : x ≠ 0 := by
    rintro rfl
    have hends : endsWithin 0 precision = true := endsWithin_iff.mpr ⟨0, by simp⟩
    rw [h] at hends
    cases hends
  simp only [recurring, if_neg hzero, h, Bool.false_eq_true, if_false]

/-- The error is what the rounding leaves and the gap that what is repeated opens behind the
fraction. -/
theorem exists_gap {x : Rat} {precision : Nat} (hword : precision < 2 ^ 32)
    (h : endsWithin x precision = false) :
    exists shown rounding : Rat,
      displayError x precision =
          |shown / 10 ^ (roundedFraction x precision).length + rounding| ∧
        |rounding| ≤ 1 / 2 / 10 ^ precision ∧
        (repetition? (roundedFraction x precision) = none -> shown = 0) ∧
        forall length, repetition? (roundedFraction x precision) = some length ->
          |shown| ≤ 1 ∧ 1 / 10 ^ length ≤ |shown| := by
  have hgap := gap_roundedChars ((nearest x.abs precision).natAbs / unit precision)
    (isDigit_trimmedFraction (nearest x.abs precision).natAbs precision)
    (getLast?_trimmedFraction _ precision)
  have hwhole := whole_add_trimmedFraction (nearest x.abs precision).natAbs hword
  refine ⟨_, (nearest x.abs precision).natAbs / 10 ^ precision - |x|, ?_,
    abs_natAbs_nearest_sub_le x hword, hgap⟩
  have hsize := eq_add_gap (shownSize (roundedChars []
    ((nearest x.abs precision).natAbs / unit precision) (roundedFraction x precision)))
    ((nearest x.abs precision).natAbs / unit precision) (roundedFraction x precision)
  rw [roundedFraction] at hsize
  rw [displayError, recurring_of_not_endsWithin h, abs_shownValue_roundedChars, roundedFraction]
  congr 1
  linarith

theorem ten_units_le {places more precision : Nat} (h : places + more < precision) :
    (10 : Rat) / 10 ^ precision ≤ 1 / 10 ^ more / 10 ^ places := by
  rcases Nat.exists_eq_add_of_lt h with ⟨rest, rfl⟩
  have hone : (1 : Rat) ≤ 10 ^ rest := one_le_pow₀ (by norm_num)
  rw [div_div, div_le_div_iff₀ (by positivity) (by positivity), pow_succ, pow_add, pow_add]
  nlinarith [show (0 : Rat) < 10 ^ places * 10 ^ more by positivity]

/-- A number is displayed within its precision, unless something is repeated behind a fraction
that has lost zeros. The precision has to fit a word. -/
theorem recurring_error (x : Rat) {precision : Nat} (hword : precision < 2 ^ 32) :
    (endsWithin x precision = true -> displayError x precision = 0) ∧
      (endsWithin x precision = false ->
        (repetition? (roundedFraction x precision) = none ->
          displayError x precision ≤ 1 / 2 / 10 ^ precision) ∧
        forall length, repetition? (roundedFraction x precision) = some length ->
          displayError x precision ≤
              1 / 10 ^ (roundedFraction x precision).length + 1 / 2 / 10 ^ precision ∧
            ((roundedFraction x precision).length = precision ->
              displayError x precision ≤ 2 / 10 ^ precision) ∧
            ((roundedFraction x precision).length + length < precision ->
              2 / 10 ^ precision < displayError x precision)) := by
  constructor
  · intro h
    rw [displayError, shownValue_of_endsWithin hword h, sub_self, abs_zero]
  · intro h
    rcases exists_gap hword h with ⟨shown, rounding, herror, hrounding, hnone, hsome⟩
    constructor
    · intro hrepeated
      rw [herror, hnone hrepeated, zero_div, zero_add]
      exact hrounding
    · intro length hrepeated
      rcases hsome length hrepeated with ⟨hone, hunit⟩
      have hsize : |shown / 10 ^ (roundedFraction x precision).length| =
          |shown| / 10 ^ (roundedFraction x precision).length := by
        rw [abs_div, abs_of_pos (by positivity : (0 : Rat) < 10 ^ _)]
      have hupper : displayError x precision ≤
          1 / 10 ^ (roundedFraction x precision).length + 1 / 2 / 10 ^ precision := by
        calc
          displayError x precision ≤
              |shown| / 10 ^ (roundedFraction x precision).length + |rounding| := by
            rw [herror, ← hsize]
            exact abs_add_le _ _
          _ ≤ 1 / 10 ^ (roundedFraction x precision).length + 1 / 2 / 10 ^ precision := by
            gcongr
      have hlower : |shown| / 10 ^ (roundedFraction x precision).length - |rounding| ≤
          displayError x precision := by
        rw [herror, ← hsize]
        exact abs_sub_abs_le_abs_add _ _
      have hpos : (0 : Rat) < 1 / 10 ^ precision := by positivity
      have hhalf : (1 : Rat) / 2 / 10 ^ precision = 1 / 10 ^ precision / 2 := div_right_comm _ _ _
      have htwo : (2 : Rat) / 10 ^ precision = 2 * (1 / 10 ^ precision) := by ring
      refine ⟨hupper, ?_, ?_⟩
      · intro hfull
        rw [hfull] at hupper
        linarith
      · intro hshort
        have hgap : (10 : Rat) / 10 ^ precision ≤
            |shown| / 10 ^ (roundedFraction x precision).length := by
          refine (ten_units_le hshort).trans ?_
          gcongr
        have hten : (10 : Rat) / 10 ^ precision = 10 * (1 / 10 ^ precision) := by ring
        linarith

/-- A third loses no zeros, so its repeated digit stands for it within the precision. -/
theorem recurring_error_third :
    20 < 2 ^ 32 ∧ repetition? (roundedFraction (1 / 3) 20) = some 1 ∧
      displayError (1 / 3) 20 ≤ 2 / 10 ^ 20 := by
  have hword : 20 < 2 ^ 32 := by decide
  have hrepeated : repetition? (roundedFraction (1 / 3) 20) = some 1 := by decide +kernel
  have hfull : (roundedFraction (1 / 3) 20).length = 20 := by decide +kernel
  have herror := (recurring_error (1 / 3) hword).right (by decide +kernel)
  exact ⟨hword, hrepeated, (herror.right 1 hrepeated).right.left hfull⟩

/-- Six ones and a one in the thirtieth place are displayed as ones forever. -/
theorem recurring_six_ones :
    recurring (111111000000000000000000000001 / 10 ^ 30) 20 = "0.\u03051" ∧
      2 / 10 ^ 20 < displayError (111111000000000000000000000001 / 10 ^ 30) 20 := by
  decide +kernel

end Display
end AngleCalc
