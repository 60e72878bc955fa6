import AngleCalc.Display.Recurring
import AngleCalc.Proofs.Decimal.Expansion
import AngleCalc.Proofs.FixedPoint.Rounding

/-!
# The digits of a rounded expansion

An expansion that does not end is rounded by leaving its last digits out, and then the last
one that is left may have to be one more. A carry turns nines at the end into zeros, and
zeros at the end are dropped. Both stop inside the last block, which has a digit that is
neither, so what is shown are the first digits of the expansion, with the last one of them
one more or as it was.
-/

namespace AngleCalc

open Decimal FixedPoint

/-!
## The rounded number
-/

theorem FixedPoint.natAbs_nearest_cases {x rest : Rat} {places n : Nat} (hword : places < 2 ^ 32)
    (h : x * 10 ^ places = n + rest) (hpos : 0 < rest) (hlt : rest < 1) :
    (nearest x places).natAbs = n ∨ (nearest x places).natAbs = n + 1 := by
  have herror := abs_le.mp (isNearest_nearest x hword).error_le
  rw [h] at herror
  have hlow : (n : Rat) - 1 < nearest x places := by linarith
  have hhigh : (nearest x places : Rat) < n + 2 := by linarith
  have hlowInt : (n : Int) - 1 < nearest x places := by exact_mod_cast hlow
  have hhighInt : nearest x places < (n : Int) + 2 := by exact_mod_cast hhigh
  omega

namespace Display

theorem dropTrailing_zeros {c : Char} (h : c ≠ '0') (front : List Char) (count : Nat) :
    dropTrailing '0' (front ++ c :: List.replicate count '0') = front ++ [c] := by
  have hdrop : (List.replicate count '0').rdropWhile (fun d => d == '0') = [] := by
    rw [List.rdropWhile_eq_nil_iff]
    intro d hd
    exact beq_iff_eq.mpr (List.eq_of_mem_replicate hd)
  have hlast := Spelling.rdropWhile_append_cons (p := fun d => d == '0') (c := c) (by simpa using h)
    front (List.replicate count '0')
  rw [hdrop] at hlast
  exact hlast

theorem parts_of_digits (whole : Nat) {count : Nat} {front : List Char} {c : Char}
    (hdigits : forall d, d ∈ front ++ c :: List.replicate count '0' -> d.isDigit = true)
    (hc : c ≠ '0') (hword : (front ++ c :: List.replicate count '0').length < 2 ^ 32) :
    let digits := front ++ c :: List.replicate count '0'
    let n := whole * 10 ^ digits.length + Nat.ofDigitChars 10 digits 0
    trimmedFraction n digits.length = front ++ [c] ∧ n / unit digits.length = whole := by
  intro digits n
  have hne : digits ≠ [] := by simp [digits]
  have hunit : unit digits.length = 10 ^ digits.length := unit_of_lt hword
  have hlt : Nat.ofDigitChars 10 digits 0 < unit digits.length := by
    rw [hunit]
    exact ofDigitChars_lt hdigits
  have hn : n = Nat.ofDigitChars 10 digits 0 + unit digits.length * whole := by
    rw [hunit, Nat.add_comm, Nat.mul_comm]
  constructor
  · rw [trimmedFraction, if_neg (by simpa using hne), hn, Nat.add_mul_mod_self_left,
      Nat.mod_eq_of_lt hlt, paddedDigits_ofDigitChars hne hdigits]
    exact dropTrailing_zeros hc front count
  · rw [hn, Nat.add_mul_div_left _ _ (unit_pos _), Nat.div_eq_of_lt hlt, Nat.zero_add]

end Display

/-!
## The first digits
-/

namespace RecurringDecimal

variable {decimal : RecurringDecimal}

theorem eq_digitsFrom_of_append {places : Nat} {front tail : List Char} {c : Char}
    (h : decimal.digitsFrom 0 places = front ++ c :: tail) :
    front = decimal.digitsFrom 0 front.length ∧ c = decimal.digit front.length := by
  have hlength := congrArg List.length h
  rw [length_digitsFrom, List.length_append, List.length_cons] at hlength
  rw [hlength, digitsFrom_add, Nat.zero_add, digitsFrom_cons] at h
  rcases List.append_inj h (decimal.length_digitsFrom 0 front.length) with ⟨hfront, hrest⟩
  exact ⟨hfront.symm, (List.cons.inj hrest).left.symm⟩

/-- The digits are the first ones of the decimal, and the last of them may be one more. -/
def Shows (decimal : RecurringDecimal) (count : Nat) (digits : List Char) : Prop :=
  exists last, digits = decimal.digitsFrom 0 count ++ [last] ∧
    (last = decimal.digit count ∨ last.toNat = (decimal.digit count).toNat + 1)

/-- What is shown of a number that has the first digits of the decimal up to one of them. -/
theorem shows_of_digits {places count : Nat} {front : List Char} {c d last : Char}
    (hword : places < 2 ^ 32)
    (hdigits : decimal.digitsFrom 0 places = front ++ c :: List.replicate count d)
    (hdigit : last.isDigit = true) (hzero : last ≠ '0')
    (hlast : last = c ∨ last.toNat = c.toNat + 1) :
    let n := decimal.whole * 10 ^ places +
      Nat.ofDigitChars 10 (front ++ last :: List.replicate count '0') 0
    n / unit places = decimal.whole ∧
      decimal.Shows front.length (Display.trimmedFraction n places) := by
  have hlength : places = (front ++ last :: List.replicate count '0').length := by
    have h := congrArg List.length hdigits
    simpa [length_digitsFrom] using h
  have hall : forall e, e ∈ front ++ last :: List.replicate count '0' -> e.isDigit = true := by
    intro e he
    rcases List.mem_append.mp he with hfront | htail
    · have hmem : e ∈ decimal.digitsFrom 0 places := by
        rw [hdigits]
        exact List.mem_append_left _ hfront
      exact decimal.isDigit_of_mem_digitsFrom e hmem
    · rcases List.mem_cons.mp htail with rfl | hcopy
      · exact hdigit
      · rw [List.eq_of_mem_replicate hcopy]
        rfl
  rcases eq_digitsFrom_of_append hdigits with ⟨hfront, hc⟩
  rcases Display.parts_of_digits decimal.whole hall hzero (hlength ▸ hword) with ⟨hfraction, hwhole⟩
  rw [← hlength] at hfraction hwhole
  refine ⟨hwhole, last, ?_, ?_⟩
  · rw [hfraction, ← hfront]
  · rwa [← hc]

section NotTerminating

variable (hforever : ¬ Terminates decimal.value)
include hforever

/-- Zeros or nines at the end do not reach over a block. -/
theorem exists_last_in_block {places : Nat}
    (h : decimal.lead.length + decimal.block.length ≤ places) {d : Char}
    (hd : d = '0' ∨ d = '9') :
    exists front c count, decimal.digitsFrom 0 places = front ++ c :: List.replicate count d ∧
      c ≠ d ∧ places ≤ front.length + decimal.block.length := by
  have hsplit : decimal.digitsFrom 0 places =
      decimal.digitsFrom 0 (places - decimal.block.length) ++
        decimal.digitsFrom (places - decimal.block.length) decimal.block.length := by
    rw [← Nat.sub_add_cancel (Nat.le_of_add_left_le h), digitsFrom_add, Nat.zero_add,
      Nat.sub_add_cancel (Nat.le_of_add_left_le h)]
  have hstart : decimal.lead.length ≤ places - decimal.block.length := by omega
  rcases exists_digit_ne hforever hstart hd with
    ⟨other, hother, hne⟩
  rcases exists_last_ne ⟨other, hsplit ▸ List.mem_append_right _ hother, hne⟩ with
    ⟨front, c, count, hdigits, hc⟩
  have hcount : ¬ decimal.block.length ≤ count := by
    intro hle
    -- The last block would be a suffix of the copies of `d`.
    have hblock : decimal.digitsFrom (places - decimal.block.length) decimal.block.length <:+
        front ++ c :: List.replicate count d := by
      rw [← hdigits, hsplit]
      exact List.suffix_append _ _
    have hcopies : List.replicate count d <:+ front ++ c :: List.replicate count d :=
      (List.suffix_cons c _).trans (List.suffix_append front _)
    have hsuffix := List.suffix_of_suffix_length_le hblock hcopies (by
      rw [length_digitsFrom, List.length_replicate]
      exact hle)
    exact hne (List.eq_of_mem_replicate (hsuffix.subset hother))
  have hlength := congrArg List.length hdigits
  rw [length_digitsFrom, List.length_append, List.length_cons, List.length_replicate] at hlength
  exact ⟨front, c, count, hdigits, hc, by omega⟩

/-- A rounded expansion shows all digits that are kept but for less than a block. -/
theorem shows_nearest {places : Nat} (hword : places < 2 ^ 32)
    (h : decimal.lead.length + decimal.block.length ≤ places) :
    let n := (nearest decimal.value places).natAbs
    n / unit places = decimal.whole ∧
      exists count, decimal.Shows count (Display.trimmedFraction n places) ∧
        places ≤ count + decimal.block.length := by
  intro n
  have hdigit : forall d, d ∈ decimal.digitsFrom 0 places -> d.isDigit = true :=
    decimal.isDigit_of_mem_digitsFrom
  have hlead : decimal.lead.length ≤ places := Nat.le_of_add_right_le h
  have hvalue := decimal.value_mul_pow hlead
  rcases rest_bounds hforever hlead with ⟨hpos, hlt⟩
  have hcases := natAbs_nearest_cases hword (n := decimal.whole * 10 ^ places +
    Nat.ofDigitChars 10 (decimal.digitsFrom 0 places) 0) (by rw [hvalue]; push_cast; rfl) hpos hlt
  change n = _ ∨ n = _ at hcases
  rcases hcases with hdown | hup
  · rcases exists_last_in_block hforever h (.inl rfl) with ⟨front, c, count, hdigits, hc, hle⟩
    have hcDigit : c.isDigit = true := hdigit c (by rw [hdigits]; simp)
    rw [hdown, hdigits]
    rcases shows_of_digits hword hdigits hcDigit hc (.inl rfl) with ⟨hwhole, hshows⟩
    exact ⟨hwhole, front.length, hshows, hle⟩
  · rcases exists_last_in_block hforever h (.inr rfl) with ⟨front, c, count, hdigits, hc, hle⟩
    have hcDigit : c.isDigit = true := hdigit c (by rw [hdigits]; simp)
    rw [hup, hdigits, Nat.add_assoc, ofDigitChars_carry hcDigit hc]
    rcases shows_of_digits hword hdigits (isDigit_nextDigit hcDigit hc)
      (nextDigit_ne_zero hcDigit hc) (.inr (toNat_nextDigit hcDigit hc)) with ⟨hwhole, hshows⟩
    exact ⟨hwhole, front.length, hshows, hle⟩

end NotTerminating

end RecurringDecimal
end AngleCalc
