import AngleCalc.Proofs.Decimal.Digits
import Mathlib.Data.Rat.Floor
import Mathlib.Tactic.NormNum

/-!
# Canonical texts

The canonical text of a number is the text of a rounded number, and the canonical
text of the rounded number is the same text. How many digits are written before the
zeros at the end are dropped makes no difference, as long as they are enough for the
whole expansion, and the length of an expansion that ends is always enough.
-/

namespace AngleCalc

namespace Spelling

theorem negative_trimmed (spelling : Spelling) : spelling.trimmed.negative = spelling.negative :=
  rfl

theorem whole_trimmed (spelling : Spelling) : spelling.trimmed.whole = spelling.whole :=
  rfl

theorem fraction_trimmed (spelling : Spelling) :
    spelling.trimmed.fraction = spelling.fraction.rdropWhile (fun c => c == '0') :=
  rfl

theorem mem_chars {spelling : Spelling} {c : Char} (h : c ∈ spelling.chars) :
    c = '-' ∨ c.isDigit = true ∨ c = '.' := by
  rcases List.mem_append.mp h with hsign | hbody
  · split at hsign
    · exact .inl (List.mem_singleton.mp hsign)
    · cases hsign
  · exact .inr (spelling.mem_body hbody)

theorem getLast?_chars_ne_point (spelling : Spelling) :
    spelling.chars.getLast? ≠ some '.' := by
  rcases spelling.exists_last_digit with ⟨front, c, hchars, hc⟩
  rw [hchars, List.getLast?_concat, Ne, Option.some.injEq]
  exact ne_of_isDigit hc rfl

theorem getLast?_chars_trimmed (spelling : Spelling) (h : '.' ∈ spelling.trimmed.chars) :
    spelling.trimmed.chars.getLast? ≠ some '0' := by
  have hfraction : spelling.trimmed.fraction ≠ [] :=
    fun hnil => spelling.trimmed.point_not_mem_chars hnil h
  have hlast : spelling.trimmed.fraction.getLast hfraction ≠ '0' := by
    have hnot := List.rdropWhile_last_not (fun c => c == '0') spelling.fraction hfraction
    exact fun hzero => hnot (beq_iff_eq.mpr hzero)
  rw [spelling.trimmed.chars_of_fraction_ne_nil hfraction, List.getLast?_append,
    List.getLast?_cons_of_ne_nil hfraction, List.getLast?_eq_some_getLast hfraction]
  simpa using hlast

end Spelling

namespace FixedPoint

/-!
## Exact numbers
-/

theorem toRat_eq_div (n : Int) (digits : Nat) : toRat n digits = n / unit digits :=
  Rat.mkRat_eq_div n (unit digits)

theorem toRat_mul_unit (n : Int) (digits : Nat) : toRat n digits * unit digits = n := by
  rw [toRat_eq_div, div_mul_cancel₀ _ (unit_ne_zero digits)]

/-- The fractions with a given denominator are the numbers whose denominator divides it. -/
theorem den_dvd_iff {x : Rat} {den : Nat} (hden : den ≠ 0) :
    x.den ∣ den ↔ exists n : Int, x = n / den := by
  constructor
  · rintro ⟨factor, rfl⟩
    have hfactor : (factor : Rat) ≠ 0 :=
      Nat.cast_ne_zero.mpr (Nat.ne_zero_of_mul_ne_zero_right hden)
    refine ⟨x.num * factor, ?_⟩
    rw [Nat.cast_mul, Int.cast_mul, Int.cast_natCast, mul_div_mul_right _ _ hfactor,
      Rat.num_div_den]
  · rintro ⟨n, rfl⟩
    have hdvd := Rat.den_dvd n den
    rw [Rat.divInt_eq_div, Int.cast_natCast] at hdvd
    exact Int.natCast_dvd_natCast.mp hdvd

theorem den_toRat_dvd (n : Int) (digits : Nat) : (toRat n digits).den ∣ 10 ^ digits := by
  have hdvd := (den_dvd_iff (unit_pos digits).ne').mpr ⟨n, toRat_eq_div n digits⟩
  exact hdvd.trans (unit_dvd_pow digits)

theorem exists_toRat {x : Rat} {digits : Nat} (hdigits : digits < 2 ^ 32)
    (h : x.den ∣ 10 ^ digits) : exists n, x = toRat n digits := by
  rw [← unit_of_lt hdigits, den_dvd_iff (unit_pos digits).ne'] at h
  simp only [toRat_eq_div]
  exact h

theorem roundHalfAway_intCast (n : Int) : roundHalfAway n = n := by
  have hhalf : (1 / 2 : Rat).floor = 0 := by decide +kernel
  unfold roundHalfAway
  split
  · rw [sub_eq_add_neg, ← Int.cast_neg, Rat.floor_add_intCast, hhalf]
    omega
  · rw [add_comm, Rat.floor_add_intCast, hhalf, zero_add]

theorem nearest_toRat (n : Int) (digits : Nat) : nearest (toRat n digits) digits = n := by
  rw [nearest, toRat_mul_unit, roundHalfAway_intCast]

theorem nearest_nonneg {x : Rat} (digits : Nat) (h : 0 ≤ x) : 0 ≤ nearest x digits := by
  have hscaled : 0 ≤ x * (unit digits : Rat) := mul_nonneg h (Nat.cast_nonneg _)
  rw [nearest, roundHalfAway, if_neg (not_lt.mpr hscaled)]
  exact Rat.le_floor_iff.mpr (add_nonneg hscaled (by norm_num))

theorem toRat_mul_ten (n : Int) {digits : Nat} (h : digits + 1 < 2 ^ 32) :
    toRat (n * 10) (digits + 1) = toRat n digits := by
  have hunit : (unit (digits + 1) : Rat) = unit digits * 10 := by
    rw [unit_add h, Nat.cast_mul]
    rfl
  have hten : (10 : Rat) ≠ 0 := by norm_num
  rw [toRat_eq_div, toRat_eq_div, hunit, Int.cast_mul, Int.cast_ofNat,
    mul_div_mul_right _ _ hten]

theorem toRat_inj {n m : Int} {digits : Nat} (h : toRat n digits = toRat m digits) : n = m := by
  rw [← nearest_toRat n digits, h, nearest_toRat]

/-!
## Zeros at the end
-/

theorem fraction_spelling_mul_ten (n : Int) {digits : Nat} (h : digits + 1 < 2 ^ 32) :
    (spelling (n * 10) (digits + 1)).fraction = (spelling n digits).fraction ++ ['0'] := by
  have hnext : (n * 10).natAbs % unit (digits + 1) = n.natAbs % unit digits * 10 := by
    rw [Int.natAbs_mul, unit_add h]
    exact Nat.mul_mod_mul_right 10 n.natAbs (unit digits)
  rw [fraction_spelling _ (Nat.succ_ne_zero digits), hnext]
  by_cases hdigits : digits = 0
  · subst hdigits
    have hzero : n.natAbs % unit 0 = 0 := Nat.mod_one _
    rw [hzero]
    rfl
  · have hdigit := Decimal.paddedDigits_append_digit (n := n.natAbs % unit digits) (d := 0) hdigits
      (by decide)
    rw [fraction_spelling n hdigits]
    exact hdigit

theorem chars_trimmed_mul_ten (n : Int) {digits : Nat} (h : digits + 1 < 2 ^ 32) :
    (spelling (n * 10) (digits + 1)).trimmed.chars = (spelling n digits).trimmed.chars := by
  have hnegative : (spelling (n * 10) (digits + 1)).negative = (spelling n digits).negative := by
    have hsign : n * 10 < 0 ↔ n < 0 := by omega
    exact decide_eq_decide.mpr hsign
  have hwhole : (spelling (n * 10) (digits + 1)).whole = (spelling n digits).whole := by
    have hdiv : (n * 10).natAbs / unit (digits + 1) = n.natAbs / unit digits := by
      rw [Int.natAbs_mul, unit_add h]
      exact Nat.mul_div_mul_right _ _ (by decide)
    exact congrArg (Nat.toDigits 10) hdiv
  have hfraction : (spelling (n * 10) (digits + 1)).trimmed.fraction =
      (spelling n digits).trimmed.fraction := by
    rw [Spelling.fraction_trimmed, Spelling.fraction_trimmed, fraction_spelling_mul_ten n h]
    exact List.rdropWhile_concat_pos _ _ '0' rfl
  unfold Spelling.chars Spelling.body Spelling.pointed
  rw [hfraction, Spelling.negative_trimmed, Spelling.negative_trimmed, Spelling.whole_trimmed,
    Spelling.whole_trimmed, hnegative, hwhole]

theorem chars_trimmed_eq_of_le {n m : Int} {digits more : Nat} (hword : digits + more < 2 ^ 32)
    (h : toRat n digits = toRat m (digits + more)) :
    (spelling n digits).trimmed.chars = (spelling m (digits + more)).trimmed.chars := by
  induction more generalizing n digits with
  | zero => rw [toRat_inj h, Nat.add_zero]
  | succ more ih =>
      have hplaces : digits + (more + 1) = digits + 1 + more := by omega
      have hone : digits + 1 < 2 ^ 32 := by omega
      rw [hplaces] at hword
      rw [← toRat_mul_ten n hone, hplaces] at h
      rw [← chars_trimmed_mul_ten n hone, ih hword h, hplaces]

/-- The text without zeros at its end depends on the number alone. -/
theorem chars_trimmed_eq {n m : Int} {digits places : Nat} (hdigits : digits < 2 ^ 32)
    (hplaces : places < 2 ^ 32) (h : toRat n digits = toRat m places) :
    (spelling n digits).trimmed.chars = (spelling m places).trimmed.chars := by
  rcases Nat.le_total digits places with hle | hle
  · rcases Nat.exists_eq_add_of_le hle with ⟨more, rfl⟩
    exact chars_trimmed_eq_of_le hplaces h
  · rcases Nat.exists_eq_add_of_le hle with ⟨more, rfl⟩
    exact (chars_trimmed_eq_of_le hdigits h.symm).symm

theorem chars_trimmed_ne (n : Int) (digits : Nat) :
    (spelling n digits).trimmed.chars ≠ ['-', '0'] := by
  intro h
  have hread := (spelling n digits).trimmed.read?_chars
  have hzero : Numeral.read? ['-', '0'] = some ⟨true, ['0'], 0⟩ := by decide +kernel
  rw [h, hzero, Option.some.injEq] at hread
  have hnegative : true = decide (n < 0) := congrArg Numeral.negative hread
  have hdigits : ['0'] = (spelling n digits).whole ++ (spelling n digits).trimmed.fraction :=
    congrArg Numeral.digits hread
  have hscale : (0 : Int) = -(spelling n digits).trimmed.fraction.length :=
    congrArg Numeral.scale hread
  have hfraction : (spelling n digits).trimmed.fraction = [] :=
    List.eq_nil_of_length_eq_zero (by omega)
  have hwhole : n.natAbs / unit digits = 0 := by
    rw [hfraction, List.append_nil, whole_spelling] at hdigits
    rw [← Nat.ofDigitChars_ten_toDigits (n := n.natAbs / unit digits), ← hdigits]
    rfl
  have hrest : n.natAbs % unit digits = 0 := by
    rcases (spelling n digits).fraction_eq_trimmed_append with ⟨count, hcopies⟩
    rw [← ofDigitChars_fraction_spelling, hcopies, hfraction, List.nil_append,
      Nat.ofDigitChars_replicate_zero, Nat.mul_zero]
  have hparts := Nat.div_add_mod n.natAbs (unit digits)
  rw [hwhole, hrest] at hparts
  have hnumber : n = 0 := by omega
  subst hnumber
  cases hnegative

theorem trimFractionChars_chars (n : Int) (digits : Nat) :
    Decimal.trimFractionChars (chars n digits) = (spelling n digits).trimmed.chars := by
  rw [← chars_spelling]
  by_cases hfraction : (spelling n digits).fraction = []
  · have htrimmed : (spelling n digits).trimmed.fraction = [] := by
      rw [Spelling.fraction_trimmed, hfraction]
      rfl
    rw [Decimal.trimFractionChars, if_neg (Spelling.point_not_mem_chars _ hfraction),
      Spelling.chars_of_fraction_eq_nil _ hfraction,
      Spelling.chars_of_fraction_eq_nil _ htrimmed]
    rfl
  · have hpoint : '.' ∈ (spelling n digits).chars := by
      rw [Spelling.chars_of_fraction_ne_nil _ hfraction]
      simp
    simp only [Decimal.trimFractionChars, if_pos hpoint,
      Spelling.dropTrailing_chars _ hfraction, if_neg (chars_trimmed_ne n digits)]

end FixedPoint

namespace Decimal

/-!
## The length of an expansion
-/

theorem divideOut_mul (p n count : Nat) :
    p ^ (divideOut p n count).1 * (divideOut p n count).2 = p ^ count * n := by
  induction n, count using divideOut.induct p with
  | case1 n count h ih =>
      rw [divideOut, dif_pos h, ih, Nat.pow_succ, Nat.mul_assoc,
        Nat.mul_div_cancel' (Nat.dvd_of_mod_eq_zero h.2.2)]
  | case2 n count h => rw [divideOut, dif_neg h]

theorem ten_pow_eq_mul (digits : Nat) : 10 ^ digits = 2 ^ digits * 5 ^ digits :=
  Nat.mul_pow 2 5 digits

theorem two_pow_mul_five_pow_dvd (twos fives : Nat) :
    2 ^ twos * 5 ^ fives ∣ 10 ^ max twos fives := by
  rw [ten_pow_eq_mul]
  exact Nat.mul_dvd_mul (Nat.pow_dvd_pow 2 (Nat.le_max_left twos fives))
    (Nat.pow_dvd_pow 5 (Nat.le_max_right twos fives))

theorem den_dvd_of_terminatingDigits? {x : Rat} {digits : Nat}
    (h : terminatingDigits? x = some digits) : x.den ∣ 10 ^ digits := by
  have htwos := divideOut_mul 2 x.den 0
  have hfives := divideOut_mul 5 (divideOut 2 x.den 0).2 0
  simp only [terminatingDigits?] at h
  split at h
  · rename_i hrest
    cases h
    rw [hrest, Nat.mul_one, Nat.pow_zero, Nat.one_mul] at hfives
    rw [← hfives, Nat.pow_zero, Nat.one_mul] at htwos
    exact (dvd_of_eq htwos.symm).trans (two_pow_mul_five_pow_dvd _ _)
  · cases h

/-- A number with a short expansion is written in full. -/
theorem den_dvd_canonicalPlaces {x : Rat} {digits : Nat} (hdigits : digits ≤ canonicalDigits)
    (h : x.den ∣ 10 ^ digits) : x.den ∣ 10 ^ canonicalPlaces x := by
  have hlong : x.den ∣ 10 ^ canonicalDigits :=
    h.trans (Nat.pow_dvd_pow 10 hdigits)
  unfold canonicalPlaces
  split
  · rename_i hterminates
    split
    · exact den_dvd_of_terminatingDigits? hterminates
    · exact hlong
  · exact hlong

/-!
## The text of a rounded number
-/

/-- The number that is written for `x`. -/
def rounded (x : Rat) : Rat :=
  FixedPoint.toRat (FixedPoint.nearest x (canonicalPlaces x)) (canonicalPlaces x)

def canonicalSpelling (x : Rat) : Spelling :=
  (FixedPoint.spelling (FixedPoint.nearest x (canonicalPlaces x)) (canonicalPlaces x)).trimmed

theorem toList_toText (x : Rat) : (toText x).toList = (canonicalSpelling x).chars := by
  rw [toText, trimFraction, toFixed, FixedPoint.text, String.toList_ofList, String.toList_ofList,
    FixedPoint.trimFractionChars_chars, canonicalSpelling]

theorem value_canonicalSpelling (x : Rat) : (canonicalSpelling x).numeral.value = rounded x := by
  rw [canonicalSpelling, Spelling.value_trimmed,
    FixedPoint.value_spelling _ (canonicalPlaces_lt x), rounded]

theorem negative_canonicalSpelling {x : Rat} (h : 0 ≤ x) :
    (canonicalSpelling x).negative = false := by
  rw [canonicalSpelling, Spelling.negative_trimmed]
  exact decide_eq_false (not_lt.mpr (FixedPoint.nearest_nonneg (canonicalPlaces x) h))

theorem length_fraction_canonicalSpelling (x : Rat) :
    (canonicalSpelling x).fraction.length ≤ canonicalDigits := by
  have htrimmed := (FixedPoint.spelling (FixedPoint.nearest x (canonicalPlaces x))
    (canonicalPlaces x)).length_fraction_trimmed_le
  rw [FixedPoint.length_fraction_spelling] at htrimmed
  exact htrimmed.trans (canonicalPlaces_le x)

theorem toText_rounded (x : Rat) : toText (rounded x) = toText x := by
  have hden : (rounded x).den ∣ 10 ^ canonicalPlaces (rounded x) :=
    den_dvd_canonicalPlaces (canonicalPlaces_le x) (FixedPoint.den_toRat_dvd _ _)
  rcases FixedPoint.exists_toRat (canonicalPlaces_lt _) hden with ⟨n, hn⟩
  have hnearest : FixedPoint.nearest (rounded x) (canonicalPlaces (rounded x)) = n :=
    (congrArg (fun y => FixedPoint.nearest y (canonicalPlaces (rounded x))) hn).trans
      (FixedPoint.nearest_toRat n _)
  rw [← String.toList_inj, toList_toText, toList_toText, canonicalSpelling, hnearest,
    canonicalSpelling]
  exact FixedPoint.chars_trimmed_eq (canonicalPlaces_lt _) (canonicalPlaces_lt x) hn.symm

end Decimal
end AngleCalc
