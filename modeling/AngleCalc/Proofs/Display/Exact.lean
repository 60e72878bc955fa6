import AngleCalc.Display.Recurring
import AngleCalc.Proofs.Decimal.Length
import AngleCalc.Proofs.FixedPoint.FixedNotation

/-!
# Numbers that are displayed exactly

A number whose expansion ends within the precision is displayed by the digits of the expansion.
The text has no zero and no point at its end, a larger precision changes nothing, and the number
is read from it again.
-/

namespace AngleCalc

open Decimal FixedPoint

namespace FixedPoint

theorem toRat_neg_iff (n : Int) (digits : Nat) : toRat n digits < 0 ↔ n < 0 := by
  have hunit : (0 : Rat) < unit digits := Nat.cast_pos.mpr (unit_pos digits)
  rw [toRat_eq_div, div_neg_iff]
  simp [hunit, hunit.not_gt]

theorem abs_toRat (n : Int) (digits : Nat) : |toRat n digits| = toRat |n| digits := by
  have hunit : (0 : Rat) < unit digits := Nat.cast_pos.mpr (unit_pos digits)
  rw [toRat_eq_div, toRat_eq_div, abs_div, Int.cast_abs, abs_of_pos hunit]

theorem negative_trimmed_abs (n : Int) (digits : Nat) :
    (spelling |n| digits).trimmed.negative = false :=
  decide_eq_false (not_lt.mpr (abs_nonneg n))

theorem chars_trimmed_abs (n : Int) (digits : Nat) :
    (spelling n digits).trimmed.chars =
      (if n < 0 then ['-'] else []) ++ (spelling |n| digits).trimmed.chars := by
  rw [Spelling.chars_eq_body _ (negative_trimmed_abs n digits),
    spelling_of_natAbs_eq n.natAbs_abs.symm]
  simp [Spelling.chars, Spelling.body, Spelling.pointed, Spelling.trimmed]

end FixedPoint

namespace Display

theorem endsWithin_iff {x : Rat} {precision : Nat} :
    endsWithin x precision = true ↔ exists n : Int, x = n / 10 ^ precision := by
  rw [← den_dvd_ten_pow_iff, endsWithin]
  constructor
  · intro h
    split at h
    · rename_i digits hdigits
      exact (den_dvd_of_terminatingDigits? hdigits).trans
        (Nat.pow_dvd_pow 10 (of_decide_eq_true h))
    · cases h
  · intro h
    rcases exists_terminatingDigits? h with ⟨digits, hdigits, hle⟩
    rw [hdigits]
    exact decide_eq_true hle

theorem recurring_zero (precision : Nat) : recurring 0 precision = "0" := by
  rw [recurring, if_pos rfl]

/-- The text depends on the length of the expansion and not on the precision. -/
theorem toList_recurring_of_length {x : Rat} {length precision : Nat} (hx : x ≠ 0)
    (hends : endsWithin x precision = true) (hlength : terminatingDigits? x = some length) :
    (recurring x precision).toList =
      (if x < 0 then ['-'] else []) ++ (spelling (nearest |x| length) length).trimmed.chars := by
  simp only [recurring, if_neg hx, hends, if_true, hlength, Option.getD_some, abs_eq_abs,
    String.toList_ofList, trimFractionChars_chars]

/-- A number that is displayed exactly has one spelling for all precisions. -/
theorem exists_spelling_recurring (x : Rat) :
    exists spelling : Spelling, forall precision, endsWithin x precision = true ->
      (recurring x precision).toList = spelling.trimmed.chars := by
  by_cases hzero : x = 0
  · subst hzero
    refine ⟨spelling 0 0, fun precision _ => ?_⟩
    rw [recurring_zero]
    rfl
  · cases hlength : terminatingDigits? x with
    | none =>
        refine ⟨spelling 0 0, fun precision hends => ?_⟩
        rw [endsWithin, hlength] at hends
        cases hends
    | some length =>
        have hnegative : (spelling (nearest |x| length) length).trimmed.negative = false :=
          decide_eq_false (not_lt.mpr (nearest_nonneg length (abs_nonneg x)))
        refine ⟨{ spelling (nearest |x| length) length with negative := decide (x < 0) },
          fun precision hends => ?_⟩
        rw [toList_recurring_of_length hzero hends hlength, Spelling.chars_eq_body _ hnegative]
        simp [Spelling.chars, Spelling.body, Spelling.pointed, Spelling.trimmed]

theorem toList_recurring {x : Rat} {n : Int} {places precision : Nat}
    (hends : endsWithin x precision = true) (hplaces : places < 2 ^ 32) (h : x = toRat n places) :
    (recurring x precision).toList = (spelling n places).trimmed.chars := by
  by_cases hzero : x = 0
  · have hnone : toRat n places = toRat 0 0 := by
      rw [← h, hzero, toRat_eq_div, Int.cast_zero, zero_div]
    rw [hzero, recurring_zero, chars_trimmed_eq hplaces (by decide) hnone]
    rfl
  · have hden : x.den ∣ 10 ^ places := by
      rw [h]
      exact den_toRat_dvd n places
    rcases exists_terminatingDigits? hden with ⟨length, hlength, hle⟩
    have hword : length < 2 ^ 32 := hle.trans_lt hplaces
    rcases exists_toRat hword (den_dvd_of_terminatingDigits? hlength) with ⟨m, hm⟩
    have hnearest : nearest |x| length = |m| := by rw [hm, abs_toRat, nearest_toRat]
    have hsign : x < 0 ↔ m < 0 := by rw [hm, toRat_neg_iff]
    rw [toList_recurring_of_length hzero hends hlength, hnearest]
    simp only [hsign]
    rw [← chars_trimmed_abs]
    exact chars_trimmed_eq hword hplaces (hm.symm.trans h)

theorem endsWithin_of_le {x : Rat} {precision larger : Nat} (h : endsWithin x precision = true)
    (hle : precision ≤ larger) : endsWithin x larger = true := by
  rw [endsWithin_iff, ← den_dvd_ten_pow_iff] at h ⊢
  exact h.trans (Nat.pow_dvd_pow 10 hle)

theorem overline_not_mem_chars (spelling : Spelling) : overline ∉ spelling.chars := by
  intro hmem
  rcases Spelling.mem_chars hmem with hminus | hdigit | hpoint
  · exact absurd hminus (by decide)
  · exact absurd hdigit (by decide)
  · exact absurd hpoint (by decide)

theorem parse_recurring {x : Rat} {n : Int} {places precision : Nat}
    (hends : endsWithin x precision = true) (h : x = toRat n places)
    (hplaces : places ≤ Numeral.maxScale) : parse (recurring x precision) = .ok x := by
  have hword : places < 2 ^ 32 := hplaces.trans_lt (by decide)
  have hlength : (spelling n places).trimmed.fraction.length ≤ Numeral.maxScale := by
    have htrimmed := (spelling n places).length_fraction_trimmed_le
    rw [length_fraction_spelling] at htrimmed
    exact htrimmed.trans hplaces
  rw [parse, toList_recurring hends hword h, Spelling.readChars?_chars _ hlength,
    Spelling.value_trimmed, value_spelling n hword, ← h]

/-- A number whose expansion ends within the precision is displayed without a block, and without
a zero or a point at the end of a fraction. The text is the same for every larger precision, and
if the expansion is not too long then the number is read from it. -/
theorem recurring_of_ends {x : Rat} {precision : Nat}
    (h : exists n : Int, x = n / 10 ^ precision) :
    overline ∉ (recurring x precision).toList ∧
      (recurring x precision).toList.getLast? ≠ some '.' ∧
      ('.' ∈ (recurring x precision).toList ->
        (recurring x precision).toList.getLast? ≠ some '0') ∧
      (forall larger, precision ≤ larger -> recurring x larger = recurring x precision) ∧
      forall (places : Nat) (n : Int), places ≤ 100000 -> x = n / 10 ^ places ->
        parse (recurring x precision) = .ok x := by
  have hends := endsWithin_iff.mpr h
  rcases exists_spelling_recurring x with ⟨spelling, hspelling⟩
  have htext := hspelling precision hends
  refine ⟨?_, ?_, ?_, ?_, ?_⟩
  · rw [htext]
    exact overline_not_mem_chars _
  · rw [htext]
    exact Spelling.getLast?_chars_ne_point _
  · rw [htext]
    exact Spelling.getLast?_chars_trimmed _
  · intro larger hle
    rw [← String.toList_inj, htext, hspelling larger (endsWithin_of_le hends hle)]
  · intro places n hplaces hn
    have hrat : x = toRat n places := by
      rw [hn, toRat_eq_div, cast_unit (hplaces.trans_lt (by decide))]
    exact parse_recurring hends hrat hplaces

/-- The zero of the integer part is kept. -/
theorem recurring_of_ends_ten :
    (-21 / 2 : Rat) = (-105 : Int) / 10 ^ 1 ∧ recurring (-21 / 2) 1 = "-10.5" ∧
      recurring (-21 / 2) 200 = "-10.5" ∧ parse (recurring (-21 / 2) 1) = .ok (-21 / 2) := by
  have hends : (-21 / 2 : Rat) = (-105 : Int) / 10 ^ 1 := by norm_num
  have htext : recurring (-21 / 2) 1 = "-10.5" := by decide +kernel
  rcases recurring_of_ends ⟨-105, hends⟩ with ⟨_, _, _, hlarger, hread⟩
  exact ⟨hends, htext, (hlarger 200 (by decide)).trans htext, hread 1 (-105) (by decide) hends⟩

end Display
end AngleCalc
