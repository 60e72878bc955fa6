import AngleCalc.Decimal.Numeral
import AngleCalc.Decimal.Text
import AngleCalc.Proofs.FixedPoint.Units
import Mathlib.Data.List.DropRight
import Mathlib.Tactic.FieldSimp
import Mathlib.Tactic.Ring

/-!
# Plain decimal notation

Every text that is written for a number is in plain notation: a sign if it is
negative, digits, and a point in front of the digits of a fraction. The reader of
numerals finds these parts again, and so the canonical text of a number can always
be read.
-/

namespace AngleCalc

theorem ne_of_isDigit {c d : Char} (hc : c.isDigit = true) (hd : d.isDigit = false) : c ≠ d := by
  rintro rfl
  rw [hc] at hd
  cases hd

/-- A number in plain notation. The point is left out with an empty fraction. -/
structure Spelling where
  negative : Bool
  whole : List Char
  fraction : List Char
  whole_ne_nil : whole ≠ []
  isDigit_whole : forall c, c ∈ whole -> c.isDigit = true
  isDigit_fraction : forall c, c ∈ fraction -> c.isDigit = true

namespace Spelling

def pointed (spelling : Spelling) : List Char :=
  if spelling.fraction = [] then [] else '.' :: spelling.fraction

def body (spelling : Spelling) : List Char :=
  spelling.whole ++ spelling.pointed

def chars (spelling : Spelling) : List Char :=
  (if spelling.negative then ['-'] else []) ++ spelling.body

def numeral (spelling : Spelling) : Numeral :=
  ⟨spelling.negative, spelling.whole ++ spelling.fraction, -spelling.fraction.length⟩

variable (spelling : Spelling)

/-!
## Reading
-/

theorem readSign_chars_append (rest : List Char) :
    Numeral.readSign (spelling.chars ++ rest) = (spelling.negative, spelling.body ++ rest) := by
  unfold chars
  cases spelling.negative with
  | true => rfl
  | false =>
      cases hwhole : spelling.whole with
      | nil => exact absurd hwhole spelling.whole_ne_nil
      | cons c more =>
          have hdigit : c.isDigit = true := spelling.isDigit_whole c (by rw [hwhole]; simp)
          have hminus : c ≠ '-' := ne_of_isDigit hdigit rfl
          have hplus : c ≠ '+' := ne_of_isDigit hdigit rfl
          unfold body
          rw [hwhole]
          simp [Numeral.readSign, hminus, hplus]

theorem mem_body {c : Char} (h : c ∈ spelling.body) : c.isDigit = true ∨ c = '.' := by
  rcases List.mem_append.mp h with hwhole | hpointed
  · exact .inl (spelling.isDigit_whole c hwhole)
  · unfold pointed at hpointed
    split at hpointed
    · cases hpointed
    · rcases List.mem_cons.mp hpointed with rfl | hfraction
      · exact .inr rfl
      · exact .inl (spelling.isDigit_fraction c hfraction)

theorem not_isExponentMark_of_mem_body {c : Char} (h : c ∈ spelling.body) :
    Numeral.isExponentMark c = false := by
  rcases spelling.mem_body h with hdigit | rfl
  · simp [Numeral.isExponentMark, ne_of_isDigit hdigit (d := 'e') rfl,
      ne_of_isDigit hdigit (d := 'E') rfl]
  · rfl

theorem takeWhile_body :
    spelling.body.takeWhile (fun c => c != '.') = spelling.whole := by
  have hwhole : forall c, c ∈ spelling.whole -> (c != '.') = true := by
    intro c hc
    exact bne_iff_ne.mpr (ne_of_isDigit (spelling.isDigit_whole c hc) rfl)
  unfold body pointed
  rw [List.takeWhile_append_of_pos hwhole]
  split
  · exact List.append_nil _
  · exact List.append_nil _

theorem drop_dropWhile_body :
    (spelling.body.dropWhile (fun c => c != '.')).drop 1 = spelling.fraction := by
  have hwhole : forall c, c ∈ spelling.whole -> (c != '.') = true := by
    intro c hc
    exact bne_iff_ne.mpr (ne_of_isDigit (spelling.isDigit_whole c hc) rfl)
  unfold body pointed
  rw [List.dropWhile_append_of_pos hwhole]
  split
  · rename_i hempty
    rw [hempty]
    rfl
  · rfl

theorem read?_chars_append {rest : List Char} {exponent : Int}
    (hrest : forall c, rest.head? = some c -> Numeral.isExponentMark c = true)
    (hexponent : Numeral.readExponent? rest = some exponent) :
    Numeral.read? (spelling.chars ++ rest) =
      some { spelling.numeral with scale := spelling.numeral.scale + exponent } := by
  have hmantissa : forall c, c ∈ spelling.body -> (!Numeral.isExponentMark c) = true := by
    intro c hc
    rw [spelling.not_isExponentMark_of_mem_body hc]
    rfl
  have hstop : rest.takeWhile (fun c => !Numeral.isExponentMark c) = [] ∧
      rest.dropWhile (fun c => !Numeral.isExponentMark c) = rest := by
    cases rest with
    | nil => exact ⟨rfl, rfl⟩
    | cons c rest => simp [hrest c rfl]
  have htake : (spelling.body ++ rest).takeWhile (fun c => !Numeral.isExponentMark c) =
      spelling.body := by
    rw [List.takeWhile_append_of_pos hmantissa, hstop.left, List.append_nil]
  have hdrop : (spelling.body ++ rest).dropWhile (fun c => !Numeral.isExponentMark c) = rest := by
    rw [List.dropWhile_append_of_pos hmantissa, hstop.right]
  have hbody : spelling.body.isEmpty = false := by
    simp [body, spelling.whole_ne_nil]
  have hwhole : spelling.whole.all Char.isDigit = true :=
    List.all_eq_true.mpr spelling.isDigit_whole
  have hfraction : spelling.fraction.all Char.isDigit = true :=
    List.all_eq_true.mpr spelling.isDigit_fraction
  simp only [Numeral.read?, spelling.readSign_chars_append, htake, hdrop, spelling.takeWhile_body,
    spelling.drop_dropWhile_body, hbody, hwhole, hfraction, hexponent, numeral]
  simp only [Bool.not_true, Bool.or_false, Bool.false_eq_true, if_false, Int.add_comm,
    Int.sub_eq_add_neg]

theorem read?_chars : Numeral.read? spelling.chars = some spelling.numeral := by
  have hread : Numeral.read? (spelling.chars ++ []) = _ :=
    spelling.read?_chars_append (fun c hc => by cases hc) rfl
  rwa [List.append_nil, Int.add_zero] at hread

theorem readChars?_chars_append {rest : List Char} {exponent : Int}
    (hrest : forall c, rest.head? = some c -> Numeral.isExponentMark c = true)
    (hexponent : Numeral.readExponent? rest = some exponent)
    (h : (spelling.numeral.scale + exponent).natAbs ≤ Numeral.maxScale) :
    Decimal.readChars? (spelling.chars ++ rest) =
      some (spelling.numeral.value * 10 ^ exponent) := by
  have hten : (10 : Rat) ≠ 0 := by norm_num
  rw [Decimal.readChars?, spelling.read?_chars_append hrest hexponent]
  simp only [if_pos h, Numeral.value, Numeral.magnitude, zpow_add₀ hten, ← mul_assoc,
    ite_mul, neg_mul]

theorem readChars?_chars (h : spelling.fraction.length ≤ Numeral.maxScale) :
    Decimal.readChars? spelling.chars = some spelling.numeral.value := by
  have hscale : spelling.numeral.scale.natAbs ≤ Numeral.maxScale := by
    rw [numeral, Int.natAbs_neg, Int.natAbs_natCast]
    exact h
  rw [Decimal.readChars?, spelling.read?_chars]
  exact if_pos hscale

/-!
## Trimming
-/

def trimmed : Spelling where
  negative := spelling.negative
  whole := spelling.whole
  fraction := spelling.fraction.rdropWhile (fun c => c == '0')
  whole_ne_nil := spelling.whole_ne_nil
  isDigit_whole := spelling.isDigit_whole
  isDigit_fraction c hc :=
    spelling.isDigit_fraction c ((List.rdropWhile_prefix _ _).subset hc)

theorem length_fraction_trimmed_le :
    spelling.trimmed.fraction.length ≤ spelling.fraction.length :=
  (List.rdropWhile_prefix _ _).length_le

theorem fraction_eq_trimmed_append : exists count,
    spelling.fraction = spelling.trimmed.fraction ++ List.replicate count '0' := by
  refine ⟨(spelling.fraction.rtakeWhile (fun c => c == '0')).length, ?_⟩
  have hzeros : spelling.fraction.rtakeWhile (fun c => c == '0') =
      List.replicate (spelling.fraction.rtakeWhile (fun c => c == '0')).length '0' := by
    rw [List.eq_replicate_iff]
    constructor
    · rfl
    · intro c hc
      have hzero := List.mem_rtakeWhile_imp hc
      exact eq_of_beq hzero
  rw [← hzeros]
  exact List.rdropWhile_append_rtakeWhile.symm

theorem value_trimmed : spelling.trimmed.numeral.value = spelling.numeral.value := by
  rcases spelling.fraction_eq_trimmed_append with ⟨count, hfraction⟩
  have hmagnitude : spelling.numeral.magnitude =
      10 ^ count * spelling.trimmed.numeral.magnitude := by
    unfold Numeral.magnitude numeral
    rw [hfraction, ← List.append_assoc, Nat.ofDigitChars_append,
      Nat.ofDigitChars_replicate_zero]
    rfl
  have hscale : spelling.numeral.scale = spelling.trimmed.numeral.scale - count := by
    simp only [numeral, hfraction, List.length_append, List.length_replicate]
    omega
  have hten : (10 : Rat) ≠ 0 := by norm_num
  have hsize :
      (spelling.trimmed.numeral.magnitude : Rat) * 10 ^ spelling.trimmed.numeral.scale =
        (spelling.numeral.magnitude : Rat) * 10 ^ spelling.numeral.scale := by
    rw [hmagnitude, hscale, zpow_sub₀ hten, zpow_natCast]
    push_cast
    field_simp
  unfold Numeral.value
  rw [hsize]
  rfl

theorem rdropWhile_append_cons {p : Char -> Bool} {c : Char} (h : ¬ p c = true)
    (front back : List Char) :
    (front ++ c :: back).rdropWhile p = front ++ c :: back.rdropWhile p := by
  induction back using List.reverseRecOn with
  | nil => exact List.rdropWhile_concat_neg p front c h
  | append_singleton back d ih =>
      rw [← List.cons_append, ← List.append_assoc]
      by_cases hd : p d = true
      · rw [List.rdropWhile_concat_pos p _ d hd, List.rdropWhile_concat_pos p _ d hd, ih]
      · rw [List.rdropWhile_concat_neg p _ d hd, List.rdropWhile_concat_neg p _ d hd,
          List.append_assoc]
        rfl

theorem chars_eq_body (h : spelling.negative = false) : spelling.chars = spelling.body := by
  rw [chars, h]
  rfl

theorem chars_of_fraction_eq_nil (h : spelling.fraction = []) :
    spelling.chars = (if spelling.negative then ['-'] else []) ++ spelling.whole := by
  simp [chars, body, pointed, h]

theorem chars_of_fraction_ne_nil (h : spelling.fraction ≠ []) :
    spelling.chars =
      ((if spelling.negative then ['-'] else []) ++ spelling.whole) ++
        '.' :: spelling.fraction := by
  simp [chars, body, pointed, h]

theorem exists_last_digit : exists front c,
    spelling.chars = front ++ [c] ∧ c.isDigit = true := by
  by_cases hfraction : spelling.fraction = []
  · rcases List.eq_nil_or_concat spelling.whole with hnil | ⟨front, c, hwhole⟩
    · exact absurd hnil spelling.whole_ne_nil
    · refine ⟨(if spelling.negative then ['-'] else []) ++ front, c, ?_, ?_⟩
      · rw [spelling.chars_of_fraction_eq_nil hfraction, hwhole, List.concat_eq_append,
          List.append_assoc]
      · exact spelling.isDigit_whole c (by rw [hwhole]; simp)
  · rcases List.eq_nil_or_concat spelling.fraction with hnil | ⟨front, c, hlast⟩
    · exact absurd hnil hfraction
    · refine ⟨((if spelling.negative then ['-'] else []) ++ spelling.whole) ++ '.' :: front,
        c, ?_, ?_⟩
      · rw [spelling.chars_of_fraction_ne_nil hfraction, hlast, List.concat_eq_append,
          ← List.cons_append, ← List.append_assoc]
      · exact spelling.isDigit_fraction c (by rw [hlast]; simp)

theorem dropTrailing_point_chars : Decimal.dropTrailing '.' spelling.chars = spelling.chars := by
  rcases spelling.exists_last_digit with ⟨front, c, hchars, hc⟩
  have hpoint : ¬ (c == '.') = true := by
    intro h
    exact ne_of_isDigit hc rfl (eq_of_beq h)
  rw [hchars]
  exact List.rdropWhile_concat_neg _ front c hpoint

/-- The zeros are dropped and then the point, if no digit of the fraction is left. -/
theorem dropTrailing_chars (h : spelling.fraction ≠ []) :
    Decimal.dropTrailing '.' (Decimal.dropTrailing '0' spelling.chars) =
      spelling.trimmed.chars := by
  have hzeros : Decimal.dropTrailing '0' spelling.chars =
      ((if spelling.negative then ['-'] else []) ++ spelling.whole) ++
        '.' :: spelling.trimmed.fraction := by
    rw [spelling.chars_of_fraction_ne_nil h]
    exact rdropWhile_append_cons (by decide) _ _
  rw [hzeros]
  by_cases htrimmed : spelling.trimmed.fraction = []
  · rw [htrimmed]
    have hpoint := List.rdropWhile_concat_pos (fun c => c == '.')
      ((if spelling.negative then ['-'] else []) ++ spelling.whole) '.' rfl
    have hrest := spelling.trimmed.dropTrailing_point_chars
    rw [spelling.trimmed.chars_of_fraction_eq_nil htrimmed] at hrest ⊢
    exact hpoint.trans hrest
  · have hrest := spelling.trimmed.dropTrailing_point_chars
    rw [spelling.trimmed.chars_of_fraction_ne_nil htrimmed] at hrest ⊢
    exact hrest

theorem point_not_mem_chars (h : spelling.fraction = []) : '.' ∉ spelling.chars := by
  rw [spelling.chars_of_fraction_eq_nil h]
  intro hmem
  rcases List.mem_append.mp hmem with hsign | hwhole
  · split at hsign
    · simp at hsign
    · cases hsign
  · exact ne_of_isDigit (spelling.isDigit_whole '.' hwhole) (d := '.') rfl rfl

theorem readChars?_trimFractionChars (h : spelling.fraction.length ≤ Numeral.maxScale) :
    Decimal.readChars? (Decimal.trimFractionChars spelling.chars) =
      some spelling.numeral.value := by
  by_cases hfraction : spelling.fraction = []
  · rw [Decimal.trimFractionChars, if_neg (spelling.point_not_mem_chars hfraction)]
    exact spelling.readChars?_chars h
  · have hpoint : '.' ∈ spelling.chars := by
      rw [spelling.chars_of_fraction_ne_nil hfraction]
      simp
    have hlength : spelling.trimmed.fraction.length ≤ Numeral.maxScale :=
      spelling.length_fraction_trimmed_le.trans h
    have hread := spelling.trimmed.readChars?_chars hlength
    rw [spelling.value_trimmed] at hread
    simp only [Decimal.trimFractionChars, if_pos hpoint, spelling.dropTrailing_chars hfraction]
    split
    · rename_i hzero
      rw [hzero] at hread
      rw [← hread]
      decide +kernel
    · exact hread

end Spelling

/-!
## The text of a fixed-point number
-/

namespace FixedPoint

theorem isDigit_of_mem_paddedDigits {width n : Nat} {c : Char}
    (h : c ∈ paddedDigits width n) : c.isDigit = true := by
  rcases List.mem_append.mp h with hzero | hdigit
  · rw [List.eq_of_mem_replicate hzero]
    rfl
  · exact Nat.isDigit_of_mem_toDigits (by decide) (by decide) hdigit

theorem length_paddedDigits {width n : Nat} (hwidth : width ≠ 0) (h : n < 10 ^ width) :
    (paddedDigits width n).length = width := by
  have hlength := (Nat.length_toDigits_le_iff (b := 10) (k := width) (by decide)
    (Nat.pos_of_ne_zero hwidth)).mpr h
  rw [paddedDigits, List.length_leftpad]
  exact Nat.max_eq_left hlength

theorem ofDigitChars_paddedDigits (width n : Nat) :
    Nat.ofDigitChars 10 (paddedDigits width n) 0 = n := by
  rw [paddedDigits, List.leftpad, Nat.ofDigitChars_append, Nat.ofDigitChars_replicate_zero,
    Nat.mul_zero, Nat.ofDigitChars_ten_toDigits]

def spelling (n : Int) (digits : Nat) : Spelling where
  negative := decide (n < 0)
  whole := Nat.toDigits 10 (n.natAbs / unit digits)
  fraction := if digits = 0 then [] else paddedDigits digits (n.natAbs % unit digits)
  whole_ne_nil := Nat.toDigits_ne_nil
  isDigit_whole _ hc := Nat.isDigit_of_mem_toDigits (by decide) (by decide) hc
  isDigit_fraction c hc := by
    split at hc
    · cases hc
    · exact isDigit_of_mem_paddedDigits hc

theorem negative_spelling (n : Int) (digits : Nat) :
    (spelling n digits).negative = decide (n < 0) :=
  rfl

theorem whole_spelling (n : Int) (digits : Nat) :
    (spelling n digits).whole = Nat.toDigits 10 (n.natAbs / unit digits) :=
  rfl

theorem fraction_spelling_zero (n : Int) : (spelling n 0).fraction = [] :=
  rfl

theorem fraction_spelling {digits : Nat} (n : Int) (h : digits ≠ 0) :
    (spelling n digits).fraction = paddedDigits digits (n.natAbs % unit digits) :=
  if_neg h

theorem length_fraction_spelling (n : Int) (digits : Nat) :
    (spelling n digits).fraction.length = digits := by
  by_cases hdigits : digits = 0
  · subst hdigits
    rfl
  · rw [fraction_spelling n hdigits]
    exact length_paddedDigits hdigits
      ((Nat.mod_lt n.natAbs (unit_pos digits)).trans_le (unit_le_pow digits))

theorem fraction_spelling_ne_nil {digits : Nat} (n : Int) (h : digits ≠ 0) :
    (spelling n digits).fraction ≠ [] := by
  rw [← List.length_pos_iff, length_fraction_spelling]
  exact Nat.pos_of_ne_zero h

theorem chars_spelling (n : Int) (digits : Nat) : (spelling n digits).chars = chars n digits := by
  by_cases hdigits : digits = 0
  · subst hdigits
    have hwhole : n.natAbs / unit 0 = n.natAbs := Nat.div_one _
    rw [Spelling.chars_of_fraction_eq_nil _ (fraction_spelling_zero n)]
    simp [spelling, chars, magnitudeChars, hwhole]
  · rw [Spelling.chars_of_fraction_ne_nil _ (fraction_spelling_ne_nil n hdigits),
      fraction_spelling n hdigits]
    simp [spelling, chars, magnitudeChars, hdigits]

theorem chars_natCast (n digits : Nat) : chars n digits = magnitudeChars n digits := by
  have hsign : ¬ (n : Int) < 0 := Int.not_lt.mpr (Int.natCast_nonneg n)
  rw [chars, if_neg hsign, Int.natAbs_natCast, List.nil_append]

theorem ofDigitChars_fraction_spelling (n : Int) (digits : Nat) :
    Nat.ofDigitChars 10 (spelling n digits).fraction 0 = n.natAbs % unit digits := by
  by_cases hdigits : digits = 0
  · subst hdigits
    exact (Nat.mod_one _).symm
  · rw [fraction_spelling n hdigits, ofDigitChars_paddedDigits]

theorem magnitude_spelling (n : Int) {digits : Nat} (h : digits < 2 ^ 32) :
    (spelling n digits).numeral.magnitude = n.natAbs := by
  have hwhole : Nat.ofDigitChars 10 (spelling n digits).whole 0 = n.natAbs / unit digits :=
    Nat.ofDigitChars_ten_toDigits
  unfold Numeral.magnitude Spelling.numeral
  rw [Nat.ofDigitChars_append, Nat.ofDigitChars_eq_ofDigitChars_zero, hwhole,
    length_fraction_spelling, ofDigitChars_fraction_spelling, unit_of_lt h]
  exact Nat.div_add_mod _ _

theorem value_spelling (n : Int) {digits : Nat} (h : digits < 2 ^ 32) :
    (spelling n digits).numeral.value = toRat n digits := by
  have hscale : (spelling n digits).numeral.scale = -(digits : Int) := by
    rw [Spelling.numeral, length_fraction_spelling]
  have hnegative : (spelling n digits).numeral.negative = decide (n < 0) := rfl
  unfold Numeral.value
  rw [magnitude_spelling n h, hscale, hnegative, zpow_neg, zpow_natCast, toRat,
    Rat.mkRat_eq_div, cast_unit h, Nat.cast_natAbs]
  by_cases hsign : n < 0
  · simp [hsign, abs_of_neg hsign, div_eq_mul_inv]
  · simp [hsign, abs_of_nonneg (Int.not_lt.mp hsign), div_eq_mul_inv]

theorem readChars?_chars (n : Int) {digits : Nat} (h : digits ≤ Numeral.maxScale) :
    Decimal.readChars? (chars n digits) = some (toRat n digits) := by
  have hword : digits < 2 ^ 32 := h.trans_lt (by decide)
  rw [← length_fraction_spelling n digits] at h
  rw [← chars_spelling, Spelling.readChars?_chars _ h, value_spelling n hword]

end FixedPoint

/-!
## The canonical text
-/

namespace Decimal

theorem canonicalPlaces_le (x : Rat) : canonicalPlaces x ≤ canonicalDigits := by
  unfold canonicalPlaces
  split
  · split
    · assumption
    · exact Nat.le_refl _
  · exact Nat.le_refl _

theorem canonicalPlaces_lt (x : Rat) : canonicalPlaces x < 2 ^ 32 :=
  (canonicalPlaces_le x).trans_lt (by decide)

/-- The canonical text of a number is read as the number it is rounded to. -/
theorem parse_toText (x : Rat) :
    parse (toText x) =
      .ok (FixedPoint.toRat (FixedPoint.nearest x (canonicalPlaces x)) (canonicalPlaces x)) := by
  have hread := (FixedPoint.spelling (FixedPoint.nearest x (canonicalPlaces x))
    (canonicalPlaces x)).readChars?_trimFractionChars (by
      rw [FixedPoint.length_fraction_spelling]
      exact Nat.le_trans (canonicalPlaces_le x) (by decide))
  rw [FixedPoint.chars_spelling, FixedPoint.value_spelling _ (canonicalPlaces_lt x)] at hread
  unfold parse toText trimFraction toFixed FixedPoint.text
  rw [String.toList_ofList, String.toList_ofList, hread]

end Decimal
end AngleCalc
