import AngleCalc.Proofs.Display.Blocks
import AngleCalc.Proofs.Display.Rounded

/-!
# What a block repeats

A block that fills the rest of some digits makes them the first digits of a recurring decimal,
where the last of them may be one more. The decimal is not the number that the digits write.
They differ by one unit of the last digit at most, and by more than one unit of the digit that
stands one block further on if the last digit is not zero.
-/

namespace AngleCalc

open Decimal

namespace Display.IsBlock

variable {digits : List Char} {start length : Nat} (hblock : IsBlock digits.toArray start length)
  (hdigits : forall c, c ∈ digits -> c.isDigit = true) (whole : Nat)
include hblock

theorem length_take : (digits.take start).length = start := by
  have hvisible := hblock.visible
  rw [List.size_toArray] at hvisible
  rw [List.length_take]
  omega

theorem length_take_drop : ((digits.drop start).take length).length = length := by
  have htwice := hblock.twice
  rw [List.size_toArray] at htwice
  rw [List.length_take, List.length_drop]
  omega

def decimal : RecurringDecimal where
  whole := whole
  lead := digits.take start
  block := (digits.drop start).take length
  block_ne_nil := by
    rw [← List.length_pos_iff, hblock.length_take_drop]
    exact hblock.pos
  isDigit_lead c hc := hdigits c (List.mem_of_mem_take hc)
  isDigit_block c hc := hdigits c (List.mem_of_mem_drop (List.mem_of_mem_take hc))

theorem digit_decimal (i : Nat) :
    (hblock.decimal hdigits whole).digit i =
      digits.getD (if i < start then i else start + (i - start) % length) '0' := by
  have hmod := Nat.mod_lt (i - start) hblock.pos
  rw [RecurringDecimal.digit]
  simp only [decimal, hblock.length_take, hblock.length_take_drop]
  split
  · rename_i hlt
    simp [hlt]
  · simp [hmod]

theorem getD_eq_digit_or {i : Nat} (hi : i < digits.length) :
    digits.getD i '0' = (hblock.decimal hdigits whole).digit i ∨
      i + 1 = digits.length ∧ (digits.getD i '0').toNat =
        ((hblock.decimal hdigits whole).digit i).toNat + 1 := by
  rw [hblock.digit_decimal hdigits whole]
  rcases Nat.lt_or_ge i (start + length) with hfirst | hlater
  · left
    split
    · rfl
    · rename_i hstart
      rw [Nat.mod_eq_of_lt (by omega), Nat.add_sub_of_le (Nat.le_of_not_lt hstart)]
  · have hcontinues := hblock.continues i hlater (by simpa using hi)
    rw [if_neg (by omega)]
    simpa [continuesBlock] using hcontinues

theorem shows_decimal :
    (hblock.decimal hdigits whole).Shows (digits.length - 1) digits := by
  have hvisible := hblock.visible
  rw [List.size_toArray, minRepetition] at hvisible
  have hne : digits ≠ [] := List.ne_nil_of_length_pos (by omega)
  have hlast : digits.getLast hne = digits.getD (digits.length - 1) '0' := by
    rw [List.getLast_eq_getElem, List.getD_eq_getElem]
  refine ⟨digits.getLast hne, ?_, ?_⟩
  · have hfront : digits.dropLast =
        (hblock.decimal hdigits whole).digitsFrom 0 (digits.length - 1) := by
      apply List.ext_getElem
      · rw [List.length_dropLast, RecurringDecimal.length_digitsFrom]
      · intro i hi hcount
        rw [List.length_dropLast] at hi
        rcases hblock.getD_eq_digit_or hdigits whole (i := i) (by omega) with hsame | ⟨hend, _⟩
        · rw [List.getD_eq_getElem _ _ (by omega)] at hsame
          simpa [RecurringDecimal.digitsFrom] using hsame
        · omega
    rw [← hfront, List.dropLast_append_getLast]
  · rw [hlast]
    exact (hblock.getD_eq_digit_or hdigits whole (by omega)).imp_right And.right

end Display.IsBlock

namespace Display

/-- How far a number is from an integer part and digits behind the point, in units of the last of
these digits. -/
def gap (value : Rat) (whole : Nat) (digits : List Char) : Rat :=
  (value - whole) * 10 ^ digits.length - Nat.ofDigitChars 10 digits 0

theorem eq_add_gap (value : Rat) (whole : Nat) (digits : List Char) :
    value = whole + Nat.ofDigitChars 10 digits 0 / 10 ^ digits.length +
      gap value whole digits / 10 ^ digits.length := by
  rw [gap]
  field_simp
  ring

end Display

namespace RecurringDecimal

open Display

variable {decimal : RecurringDecimal} {count : Nat} {digits : List Char}

/-- The gap is the rest of the decimal without the carry into the last digit. -/
theorem gap_eq {last : Char} {carry : Nat} (hlead : decimal.lead.length ≤ count)
    (hlast : Nat.ofDigitChars 10 [last] 0 = Nat.ofDigitChars 10 [decimal.digit count] 0 + carry) :
    gap decimal.value decimal.whole (decimal.digitsFrom 0 count ++ [last]) =
      decimal.rest (count + 1) - carry := by
  have hlength : (decimal.digitsFrom 0 count ++ [last]).length = count + 1 := by
    rw [List.length_append, length_digitsFrom, List.length_singleton]
  have hvalue := decimal.value_mul_pow (Nat.le_add_right_of_le hlead (k := 1))
  rw [digitsFrom_succ, Nat.zero_add, ofDigitChars_append_zero, List.length_singleton] at hvalue
  rw [gap, hlength, ofDigitChars_append_zero, List.length_singleton, hlast, sub_mul, hvalue]
  push_cast
  ring

/-- A recurring decimal is no more than a unit of the last digit away from the digits that it
shows, and no less than this unit one block later. -/
theorem gap_of_shows (hshows : decimal.Shows count digits) (hlead : decimal.lead.length ≤ count)
    (hdigits : forall c, c ∈ digits -> c.isDigit = true) (hlast : digits.getLast? ≠ some '0') :
    |gap decimal.value decimal.whole digits| ≤ 1 ∧
      1 / 10 ^ decimal.block.length ≤ |gap decimal.value decimal.whole digits| := by
  rcases hshows with ⟨last, rfl, hnext⟩
  have hnonneg := decimal.rest_nonneg (count + 1)
  have hle := decimal.rest_le_one (count + 1)
  rcases hnext with rfl | hnext
  · have hrest := decimal.unit_lt_rest hlead (by simpa using hlast)
    rw [gap_eq hlead (Nat.add_zero _).symm, Nat.cast_zero, sub_zero, abs_of_nonneg hnonneg]
    exact ⟨hle, hrest.le⟩
  · have hdigit := bounds_of_isDigit (decimal.isDigit_digit count)
    have hlastDigit := bounds_of_isDigit (hdigits last (by simp))
    have hcarry : Nat.ofDigitChars 10 [last] 0 =
        Nat.ofDigitChars 10 [decimal.digit count] 0 + 1 := by
      simp only [Nat.ofDigitChars_cons, Nat.ofDigitChars_nil]
      omega
    have hnine : decimal.digit count ≠ '9' := by
      intro hnine
      have hnineNat : '9'.toNat = '0'.toNat + 9 := rfl
      rw [hnine] at hnext
      omega
    have hrest := decimal.rest_lt_sub_unit hlead hnine
    rw [gap_eq hlead hcarry, Nat.cast_one, abs_of_nonpos (by linarith)]
    exact ⟨by linarith, by linarith⟩

end RecurringDecimal
end AngleCalc
