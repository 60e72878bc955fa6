import AngleCalc.Proofs.Decimal.Literal

/-!
# The notation of numbers

A number is written as an optional sign, digits with at most one point, and an optional exponent,
which has a mark, an optional sign and digits. The reader of numerals accepts these texts and no
others, and it refuses a number whose last digit is too far from the units. A difference of places
that overflows a machine word is too large for that anyway.
-/

namespace AngleCalc

/-!
## What is written
-/

inductive SignMark where
  | absent
  | plus
  | minus
deriving DecidableEq, Repr

namespace SignMark

def chars : SignMark -> List Char
  | absent => []
  | plus => ['+']
  | minus => ['-']

def factor : SignMark -> Int
  | absent => 1
  | plus => 1
  | minus => -1

end SignMark

/-- An exponent: its mark, an optional sign and at least one digit. -/
structure WrittenExponent where
  mark : Char
  sign : SignMark
  digits : List Char
  mark_eq : mark = 'e' ∨ mark = 'E'
  digits_ne_nil : digits ≠ []
  isDigit_digits : forall c, c ∈ digits -> c.isDigit = true

namespace WrittenExponent

def chars (exponent : WrittenExponent) : List Char :=
  exponent.mark :: (exponent.sign.chars ++ exponent.digits)

def value (exponent : WrittenExponent) : Int :=
  exponent.sign.factor * Nat.ofDigitChars 10 exponent.digits 0

end WrittenExponent

/-- A number in decimal notation. The digits behind the point are there if the point is, and
without a point there is at least one digit. -/
structure WrittenNumber where
  sign : SignMark
  whole : List Char
  behindPoint : Option (List Char)
  exponent : Option WrittenExponent
  whole_ne_nil : behindPoint = none -> whole ≠ []
  isDigit_whole : forall c, c ∈ whole -> c.isDigit = true
  isDigit_fraction : forall c, c ∈ behindPoint.getD [] -> c.isDigit = true

namespace WrittenNumber

def fraction (number : WrittenNumber) : List Char :=
  number.behindPoint.getD []

def mantissaChars (number : WrittenNumber) : List Char :=
  number.whole ++ number.behindPoint.elim [] (fun digits => '.' :: digits)

def exponentChars (number : WrittenNumber) : List Char :=
  number.exponent.elim [] WrittenExponent.chars

def chars (number : WrittenNumber) : List Char :=
  number.sign.chars ++ (number.mantissaChars ++ number.exponentChars)

/-- The exponent, which is zero where none is written. -/
def exponentValue (number : WrittenNumber) : Int :=
  number.exponent.elim 0 WrittenExponent.value

def scale (number : WrittenNumber) : Int :=
  number.exponentValue - number.fraction.length

/-- The sign times the integer of all digits, times ten to the power of the last of them. -/
def value (number : WrittenNumber) : Rat :=
  number.sign.factor * Nat.ofDigitChars 10 (number.whole ++ number.fraction) 0 *
    10 ^ number.scale

def numeral (number : WrittenNumber) : Numeral :=
  ⟨decide (number.sign = .minus), number.whole ++ number.fraction, number.scale⟩

theorem value_numeral (number : WrittenNumber) : number.numeral.value = number.value := by
  rw [Numeral.value, value, numeral, Numeral.magnitude]
  cases number.sign with
  | absent | plus | minus => simp [SignMark.factor]

end WrittenNumber

/-!
## Signs and exponents
-/

namespace Numeral

def IsUnsigned (cs : List Char) : Prop :=
  cs.head? ≠ some '-' ∧ cs.head? ≠ some '+'

theorem isUnsigned_of_isDigit {cs : List Char} (h : forall c, c ∈ cs -> c.isDigit = true) :
    IsUnsigned cs := by
  constructor <;> exact fun hhead => ne_of_isDigit (h _ (List.mem_of_head? hhead)) rfl rfl

theorem readSign_signed (sign : SignMark) {cs : List Char} (h : IsUnsigned cs) :
    readSign (sign.chars ++ cs) = (decide (sign = .minus), cs) := by
  cases sign with
  | plus | minus => rfl
  | absent =>
      cases cs with
      | nil => rfl
      | cons c rest =>
          have hminus : c ≠ '-' := fun hc => h.left (by rw [hc]; rfl)
          have hplus : c ≠ '+' := fun hc => h.right (by rw [hc]; rfl)
          simp [SignMark.chars, readSign, hminus, hplus]

theorem exists_sign (cs : List Char) : exists sign rest,
    cs = SignMark.chars sign ++ rest ∧ readSign cs = (decide (sign = .minus), rest) := by
  unfold readSign
  split
  · rename_i rest
    exact ⟨.minus, rest, rfl, rfl⟩
  · rename_i rest
    exact ⟨.plus, rest, rfl, rfl⟩
  · exact ⟨.absent, cs, rfl, rfl⟩

/-- An integer is read exactly where digits stand behind an optional sign. -/
theorem readInteger?_eq_some_iff {cs : List Char} {n : Int} :
    readInteger? cs = some n ↔ exists sign digits, cs = SignMark.chars sign ++ digits ∧
      digits ≠ [] ∧ (forall c, c ∈ digits -> c.isDigit = true) ∧
      n = sign.factor * Nat.ofDigitChars 10 digits 0 := by
  constructor
  · intro h
    rcases exists_sign cs with ⟨sign, digits, hcs, hread⟩
    simp only [readInteger?, hread] at h
    split at h
    · cases h
    · rename_i hdigits
      rw [Bool.or_eq_true, not_or, Bool.not_eq_true, Bool.not_eq_true, Bool.not_eq_false',
        List.isEmpty_eq_false_iff, List.all_eq_true] at hdigits
      refine ⟨sign, digits, hcs, hdigits.left, hdigits.right, ?_⟩
      cases h
      cases sign <;> simp [SignMark.factor]
  · rintro ⟨sign, digits, rfl, hne, hdigits, rfl⟩
    simp only [readInteger?, readSign_signed sign (isUnsigned_of_isDigit hdigits),
      List.isEmpty_eq_false_iff.mpr hne, List.all_eq_true.mpr hdigits]
    cases sign <;> simp [SignMark.factor]

theorem isExponentMark_eq_true {c : Char} : isExponentMark c = true ↔ c = 'e' ∨ c = 'E' := by
  simp [isExponentMark]

theorem readExponent?_chars (number : WrittenNumber) :
    readExponent? number.exponentChars = some number.exponentValue := by
  unfold WrittenNumber.exponentChars WrittenNumber.exponentValue
  cases number.exponent with
  | none => rfl
  | some exponent =>
      exact readInteger?_eq_some_iff.mpr ⟨exponent.sign, exponent.digits, rfl,
        exponent.digits_ne_nil, exponent.isDigit_digits, rfl⟩

theorem exists_exponent {cs : List Char} {value : Int} (h : readExponent? cs = some value)
    (hmark : forall c, cs.head? = some c -> isExponentMark c = true) :
    exists exponent : Option WrittenExponent,
      cs = exponent.elim [] WrittenExponent.chars ∧
        value = exponent.elim 0 WrittenExponent.value := by
  cases cs with
  | nil =>
      cases h
      exact ⟨none, rfl, rfl⟩
  | cons mark rest =>
      rcases readInteger?_eq_some_iff.mp h with ⟨sign, digits, hrest, hne, hdigits, hvalue⟩
      refine ⟨some ⟨mark, sign, digits, isExponentMark_eq_true.mp (hmark mark rfl), hne,
        hdigits⟩, ?_, hvalue⟩
      rw [hrest]
      rfl

theorem parts_of_read? {cs : List Char} {numeral : Numeral} (h : read? cs = some numeral) :
    exists (sign : SignMark) (mantissa rest : List Char) (exponent : Int),
      cs = sign.chars ++ (mantissa ++ rest) ∧ mantissa ≠ [] ∧
      (forall c, c ∈ wholeOf mantissa -> c.isDigit = true) ∧
      (forall c, c ∈ fractionOf mantissa -> c.isDigit = true) ∧
      (forall c, rest.head? = some c -> isExponentMark c = true) ∧
      readExponent? rest = some exponent ∧
      numeral = ⟨decide (sign = .minus), wholeOf mantissa ++ fractionOf mantissa,
        exponent - (fractionOf mantissa).length⟩ := by
  rcases exists_sign cs with ⟨sign, body, hcs, hsign⟩
  simp only [read?, hsign] at h
  split at h
  · cases h
  · rename_i hparts
    split at h
    · cases h
    · rename_i exponent hexponent
      cases h
      rw [Bool.or_eq_true, Bool.or_eq_true, not_or, not_or, Bool.not_eq_true, Bool.not_eq_true,
        Bool.not_eq_true, Bool.not_eq_false', Bool.not_eq_false', List.isEmpty_eq_false_iff,
        List.all_eq_true, List.all_eq_true] at hparts
      rcases hparts with ⟨⟨hne, hwhole⟩, hfraction⟩
      refine ⟨sign, _, _, exponent, ?_, hne, hwhole, hfraction, ?_, hexponent, rfl⟩
      · rw [List.takeWhile_append_dropWhile]
        exact hcs
      · intro c hc
        have hstop := List.head?_dropWhile_not (fun c => !isExponentMark c) body
        rw [hc] at hstop
        simpa using hstop

end Numeral

/-!
## The parts of a number
-/

namespace WrittenNumber

variable (number : WrittenNumber)

theorem mem_mantissaChars {c : Char} (h : c ∈ number.mantissaChars) :
    c.isDigit = true ∨ c = '.' := by
  have hfraction := number.isDigit_fraction
  unfold mantissaChars at h
  cases hpoint : number.behindPoint with
  | none =>
      rw [hpoint, Option.elim_none, List.append_nil] at h
      exact .inl (number.isDigit_whole c h)
  | some digits =>
      rw [hpoint, Option.getD_some] at hfraction
      rw [hpoint, Option.elim_some, List.mem_append, List.mem_cons] at h
      rcases h with hwhole | hdot | hdigit
      · exact .inl (number.isDigit_whole c hwhole)
      · exact .inr hdot
      · exact .inl (hfraction c hdigit)

theorem mantissaChars_ne_nil : number.mantissaChars ≠ [] := by
  unfold mantissaChars
  cases hpoint : number.behindPoint with
  | none =>
      rw [Option.elim_none, List.append_nil]
      exact number.whole_ne_nil hpoint
  | some digits => simp

theorem isUnsigned_append (rest : List Char) :
    Numeral.IsUnsigned (number.mantissaChars ++ rest) := by
  rcases List.exists_cons_of_ne_nil number.mantissaChars_ne_nil with ⟨c, more, hmantissa⟩
  have hfirst := number.mem_mantissaChars (c := c) (by rw [hmantissa]; exact List.mem_cons_self)
  rw [hmantissa]
  rcases hfirst with hdigit | rfl
  · exact ⟨fun h => ne_of_isDigit hdigit rfl (Option.some.inj h),
      fun h => ne_of_isDigit hdigit rfl (Option.some.inj h)⟩
  · exact ⟨by simp, by simp⟩

theorem isExponentMark_of_head? {c : Char} (h : number.exponentChars.head? = some c) :
    Numeral.isExponentMark c = true := by
  unfold exponentChars at h
  cases hexponent : number.exponent with
  | none =>
      rw [hexponent] at h
      cases h
  | some exponent =>
      rw [hexponent] at h
      cases h
      exact Numeral.isExponentMark_eq_true.mpr exponent.mark_eq

theorem split_exponent :
    (number.mantissaChars ++ number.exponentChars).takeWhile
        (fun c => !Numeral.isExponentMark c) = number.mantissaChars ∧
      (number.mantissaChars ++ number.exponentChars).dropWhile
        (fun c => !Numeral.isExponentMark c) = number.exponentChars := by
  have hmantissa : forall c, c ∈ number.mantissaChars -> (!Numeral.isExponentMark c) = true := by
    intro c hc
    rcases number.mem_mantissaChars hc with hdigit | rfl
    · simp [Numeral.isExponentMark, ne_of_isDigit hdigit (d := 'e') rfl,
        ne_of_isDigit hdigit (d := 'E') rfl]
    · rfl
  rw [List.takeWhile_append_of_pos hmantissa, List.dropWhile_append_of_pos hmantissa]
  cases hexponent : number.exponentChars with
  | nil => simp
  | cons c rest =>
      have hmark := number.isExponentMark_of_head? (c := c) (by rw [hexponent]; rfl)
      simp [hmark]

theorem split_mantissa :
    Numeral.wholeOf number.mantissaChars = number.whole ∧
      Numeral.fractionOf number.mantissaChars = number.fraction := by
  have hwhole : forall c, c ∈ number.whole -> (c != '.') = true :=
    fun c hc => bne_iff_ne.mpr (ne_of_isDigit (number.isDigit_whole c hc) rfl)
  unfold Numeral.wholeOf Numeral.fractionOf mantissaChars fraction
  rw [List.takeWhile_append_of_pos hwhole, List.dropWhile_append_of_pos hwhole]
  cases number.behindPoint with
  | none => simp
  | some digits => simp

theorem read?_chars : Numeral.read? number.chars = some number.numeral := by
  rcases number.split_exponent with ⟨htake, hdrop⟩
  rcases number.split_mantissa with ⟨hwhole, hfraction⟩
  have hmantissa := List.isEmpty_eq_false_iff.mpr number.mantissaChars_ne_nil
  have hwholeDigits := List.all_eq_true.mpr number.isDigit_whole
  have hfractionDigits : number.fraction.all Char.isDigit = true :=
    List.all_eq_true.mpr number.isDigit_fraction
  unfold Numeral.wholeOf at hwhole
  unfold Numeral.fractionOf at hfraction
  simp only [Numeral.read?, chars, Numeral.readSign_signed number.sign (number.isUnsigned_append _),
    htake, hdrop, hwhole, hfraction, hmantissa, hwholeDigits, hfractionDigits,
    Numeral.readExponent?_chars]
  rfl

theorem exists_behindPoint {mantissa : List Char} (hne : mantissa ≠ []) :
    exists behindPoint : Option (List Char),
      mantissa = Numeral.wholeOf mantissa ++ behindPoint.elim [] (fun digits => '.' :: digits) ∧
        behindPoint.getD [] = Numeral.fractionOf mantissa ∧
        (behindPoint = none -> Numeral.wholeOf mantissa ≠ []) := by
  rcases Numeral.eq_wholeOf_or mantissa with ⟨hwhole, hfraction⟩ | hpoint
  · refine ⟨none, ?_, hfraction.symm, fun _ => hwhole ▸ hne⟩
    rw [Option.elim_none, List.append_nil]
    exact hwhole
  · exact ⟨some (Numeral.fractionOf mantissa), hpoint, rfl, fun hnone => by cases hnone⟩

theorem exists_of_read? {cs : List Char} {numeral : Numeral} (h : Numeral.read? cs = some numeral) :
    exists number : WrittenNumber, number.chars = cs ∧ number.numeral = numeral := by
  rcases Numeral.parts_of_read? h with
    ⟨sign, mantissa, rest, value, rfl, hne, hwhole, hfraction, hmark, hvalue, rfl⟩
  rcases exists_behindPoint hne with ⟨behindPoint, hmantissa, hbehind, hpoint⟩
  rcases Numeral.exists_exponent hvalue hmark with ⟨exponent, hexponent, hexponentValue⟩
  let number : WrittenNumber :=
    ⟨sign, Numeral.wholeOf mantissa, behindPoint, exponent, hpoint, hwhole, hbehind ▸ hfraction⟩
  have hnumberFraction : number.fraction = Numeral.fractionOf mantissa := hbehind
  refine ⟨number, ?_, ?_⟩
  · rw [chars, mantissaChars, exponentChars, ← hmantissa, ← hexponent]
  · rw [numeral, scale, hnumberFraction, exponentValue, ← hexponentValue]

/-!
## Machine words
-/

/-- An integer that a signed number of 64 bits can hold. -/
def word? (n : Int) : Option Int :=
  if -2 ^ 63 ≤ n ∧ n < 2 ^ 63 then some n else none

/-- The power of ten that the last digit counts, if neither the exponent nor the difference
overflows a machine word. -/
def wordScale? : Option Int :=
  (word? number.exponentValue).bind fun exponent => word? (exponent - number.fraction.length)

theorem length_fraction_le : number.fraction.length ≤ number.chars.length := by
  unfold chars mantissaChars fraction
  cases number.behindPoint with
  | none => exact Nat.zero_le _
  | some digits =>
      simp only [Option.getD_some, Option.elim_some, List.length_append, List.length_cons]
      omega

theorem word?_eq_some {n m : Int} (h : word? n = some m) : m = n := by
  unfold word? at h
  split at h
  · exact (Option.some.inj h).symm
  · cases h

theorem wordScale?_eq_some {scale : Int} (h : number.wordScale? = some scale) :
    scale = number.scale := by
  rcases Option.bind_eq_some_iff.mp h with ⟨exponent, hexponent, hscale⟩
  rw [word?_eq_some hexponent] at hscale
  exact word?_eq_some hscale

/-- A difference that is small enough is found without an overflow. -/
theorem wordScale?_of_natAbs_scale_le (hlength : number.chars.length + Numeral.maxScale < 2 ^ 63)
    (h : number.scale.natAbs ≤ Numeral.maxScale) : number.wordScale? = some number.scale := by
  have hfraction := number.length_fraction_le
  unfold Numeral.maxScale at h hlength
  have hscale : number.scale = number.exponentValue - number.fraction.length := rfl
  have hexponent : word? number.exponentValue = some number.exponentValue :=
    if_pos (by omega)
  have hdifference : word? number.scale = some number.scale := if_pos (by omega)
  rw [wordScale?, hexponent, Option.bind_some]
  exact hdifference

end WrittenNumber

/-!
## Accepted texts
-/

namespace Decimal

theorem readChars?_eq_some_iff {cs : List Char} {value : Rat} :
    readChars? cs = some value ↔ exists number : WrittenNumber, number.chars = cs ∧
      number.scale.natAbs ≤ Numeral.maxScale ∧ number.value = value := by
  constructor
  · intro h
    unfold readChars? at h
    split at h
    · cases h
    · rename_i numeral hread
      rcases WrittenNumber.exists_of_read? hread with ⟨number, hchars, rfl⟩
      split at h
      · rename_i hscale
        exact ⟨number, hchars, hscale, number.value_numeral ▸ Option.some.inj h⟩
      · cases h
  · rintro ⟨number, rfl, hscale, rfl⟩
    rw [readChars?, number.read?_chars, ← number.value_numeral]
    exact if_pos hscale

theorem parse_eq_ok_iff {text : String} {value : Rat} :
    parse text = .ok value ↔ readChars? text.toList = some value := by
  unfold parse
  split
  · rename_i hread
    rw [hread, Except.ok.injEq, Option.some.injEq]
  · rename_i hread
    rw [hread]
    constructor <;> intro h <;> cases h

/-- A text is read if and only if it is a number in decimal notation whose last digit is not too
far from the units, and it is read as the number that is written. The failure holds any other
text as a whole. In a text that a machine can hold, an overflow of the exponent or of the
difference refuses no number that is near enough. -/
theorem parse_accepts_notation (text : String) :
    (forall value, parse text = .ok value ↔ exists number : WrittenNumber,
      number.chars = text.toList ∧ number.scale.natAbs ≤ 100000 ∧ number.value = value) ∧
    ((¬ exists number : WrittenNumber,
        number.chars = text.toList ∧ number.scale.natAbs ≤ 100000) ->
      parse text = .error (.badNumber text)) ∧
    (text.length + 100000 < 2 ^ 63 -> forall number : WrittenNumber,
      number.chars = text.toList ->
        ((exists scale, number.wordScale? = some scale ∧ scale.natAbs ≤ 100000) ↔
          number.scale.natAbs ≤ 100000)) := by
  refine ⟨fun value => parse_eq_ok_iff.trans readChars?_eq_some_iff, ?_, ?_⟩
  · intro hrefused
    unfold parse
    split
    · rename_i value hread
      rcases readChars?_eq_some_iff.mp hread with ⟨number, hchars, hscale, _⟩
      exact absurd ⟨number, hchars, hscale⟩ hrefused
    · rfl
  · intro hlength number hchars
    rw [← String.length_toList, ← hchars] at hlength
    constructor
    · rintro ⟨scale, hword, hscale⟩
      rwa [number.wordScale?_eq_some hword] at hscale
    · intro hscale
      exact ⟨number.scale, number.wordScale?_of_natAbs_scale_le hlength hscale, hscale⟩

/-- A one with an exponent that no machine word holds. -/
def beyondWord : WrittenNumber where
  sign := .absent
  whole := ['1']
  behindPoint := none
  exponent := some
    { mark := 'e'
      sign := .absent
      digits := "9223372036854775808".toList
      mark_eq := .inl rfl
      digits_ne_nil := by decide
      isDigit_digits := List.all_eq_true.mp (by decide) }
  whole_ne_nil := fun _ => by decide
  isDigit_whole := List.all_eq_true.mp rfl
  isDigit_fraction := List.all_eq_true.mp rfl

/-- The overflow refuses a number whose last digit is too far from the units. -/
theorem parse_accepts_notation_overflow :
    beyondWord.chars = "1e9223372036854775808".toList ∧ beyondWord.wordScale? = none ∧
      ¬ beyondWord.scale.natAbs ≤ 100000 ∧
      parse "1e9223372036854775808" = .error (.badNumber "1e9223372036854775808") := by
  have hchars : beyondWord.chars = "1e9223372036854775808".toList := by decide
  have hword : beyondWord.wordScale? = none := by decide +kernel
  have hrefused : readChars? "1e9223372036854775808".toList = none := by decide +kernel
  rcases parse_accepts_notation "1e9223372036854775808" with ⟨_, hother, hoverflow⟩
  refine ⟨hchars, hword, ?_, ?_⟩
  · intro hscale
    rcases (hoverflow (by decide) beyondWord hchars).mpr hscale with ⟨scale, hsome, _⟩
    rw [hword] at hsome
    cases hsome
  · apply hother
    rintro ⟨number, hnumber, hscale⟩
    rw [readChars?_eq_some_iff.mpr ⟨number, hnumber, hscale, rfl⟩] at hrefused
    cases hrefused

end Decimal
end AngleCalc
