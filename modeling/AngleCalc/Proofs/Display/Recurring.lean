import AngleCalc.Proofs.Decimal.Shortest
import AngleCalc.Proofs.Display.Blocks
import AngleCalc.Proofs.Display.Exact
import AngleCalc.Proofs.Display.Rounded
import Mathlib.RingTheory.Coprime.Lemmas

/-!
# Recurring decimals in full

The block that is found in the first digits of an expansion that does not end is the one of
its shortest recurring decimal, as long as enough digits are kept. A block that starts no
later and fills the digits repeats a whole block of the decimal, so its length is a period of
the expansion, and a period is made of whole blocks. If it started earlier, so could the
block of the decimal.
-/

namespace AngleCalc

open Decimal FixedPoint

namespace RecurringDecimal

variable {decimal : RecurringDecimal} {count : Nat} {digits : List Char}

/-!
## Blocks of the digits that are shown
-/

theorem size_of_shows (hshows : decimal.Shows count digits) : digits.toArray.size = count + 1 := by
  rcases hshows with ⟨last, rfl, _⟩
  simp [length_digitsFrom]

theorem getD_of_shows (hshows : decimal.Shows count digits) {i : Nat} (h : i < count) :
    digits.toArray.getD i '0' = decimal.digit i := by
  rcases hshows with ⟨last, rfl, _⟩
  simp [digitsFrom, List.getElem?_append_left, h]

theorem getD_last_of_shows (hshows : decimal.Shows count digits) :
    digits.toArray.getD count '0' = decimal.digit count ∨
      (digits.toArray.getD count '0').toNat = (decimal.digit count).toNat + 1 := by
  rcases hshows with ⟨last, rfl, hlast⟩
  have hget : (decimal.digitsFrom 0 count ++ [last]).toArray.getD count '0' = last := by
    simp [length_digitsFrom]
  rwa [hget]

theorem digit_mod (decimal : RecurringDecimal) {i : Nat} (h : decimal.lead.length ≤ i) :
    decimal.digit (decimal.lead.length + (i - decimal.lead.length) % decimal.block.length) =
      decimal.digit i := by
  have hblocks := decimal.digit_add_mul
    (Nat.le_add_right decimal.lead.length ((i - decimal.lead.length) % decimal.block.length))
    ((i - decimal.lead.length) / decimal.block.length)
  rw [Nat.add_assoc, Nat.mod_add_div, Nat.add_sub_of_le h] at hblocks
  exact hblocks.symm

theorem isBlock_of_shows (hshows : decimal.Shows count digits)
    (hvisible : decimal.lead.length + Display.minRepetition ≤ count + 1)
    (htwice : decimal.lead.length + 2 * decimal.block.length ≤ count + 1) :
    Display.IsBlock digits.toArray decimal.lead.length decimal.block.length where
  pos := decimal.length_block_pos
  visible := by rwa [size_of_shows hshows]
  twice := by rwa [size_of_shows hshows]
  continues := by
    intro i hstart hi
    have hpos := decimal.length_block_pos
    have hmod := Nat.mod_lt (i - decimal.lead.length) hpos
    rw [size_of_shows hshows] at hi
    have hexpected : digits.toArray.getD
        (decimal.lead.length + (i - decimal.lead.length) % decimal.block.length) '0' =
          decimal.digit i :=
      (getD_of_shows hshows (by omega)).trans (decimal.digit_mod (by omega))
    rw [Display.continuesBlock, hexpected, size_of_shows hshows]
    rcases Nat.lt_or_eq_of_le (Nat.le_of_lt_succ hi) with hlt | rfl
    · rw [getD_of_shows hshows hlt, beq_self_eq_true, Bool.true_or]
    · rw [Bool.or_eq_true, Bool.and_eq_true, beq_iff_eq, beq_iff_eq, beq_iff_eq]
      exact (getD_last_of_shows hshows).imp_right (fun hnext => ⟨rfl, hnext⟩)

section OtherBlock

variable {start length : Nat} (hshows : decimal.Shows count digits)
  (hblock : Display.IsBlock digits.toArray start length)
include hshows hblock

theorem digit_eq_of_isBlock {i : Nat} (hstart : start ≤ i) (hi : i < count) :
    decimal.digit i = decimal.digit (start + (i - start) % length) := by
  have hsize := size_of_shows hshows
  rcases Nat.lt_or_ge i (start + length) with hfirst | hlater
  · rw [Nat.mod_eq_of_lt (by omega), Nat.add_sub_of_le hstart]
  · have hmod := Nat.mod_lt (i - start) hblock.pos
    have hcontinues := hblock.continues i hlater (by omega)
    have htwice := hblock.twice
    rw [Display.continuesBlock, getD_of_shows hshows hi, getD_of_shows hshows (by omega),
      hsize] at hcontinues
    simpa [Nat.ne_of_lt hi] using hcontinues

theorem digit_add_of_isBlock {i : Nat} (hstart : start ≤ i) (hi : i + length < count) :
    decimal.digit (i + length) = decimal.digit i := by
  rw [digit_eq_of_isBlock hshows hblock (Nat.le_add_right_of_le hstart) hi,
    digit_eq_of_isBlock hshows hblock hstart (Nat.lt_of_add_right_lt hi), Nat.sub_add_comm hstart,
    Nat.add_mod_right]

theorem repeats_of_isBlock (hstart : start ≤ decimal.lead.length)
    (hcount : 2 * decimal.lead.length + 2 * decimal.block.length ≤ count) :
    decimal.Repeats length := by
  intro i hi
  have htwice := hblock.twice
  rw [size_of_shows hshows] at htwice
  have hmod := Nat.mod_lt (i - decimal.lead.length) decimal.length_block_pos
  -- The digit at `i` is one of the first block, which is repeated among the digits shown.
  have hplace : i = decimal.lead.length + (i - decimal.lead.length) % decimal.block.length +
      decimal.block.length * ((i - decimal.lead.length) / decimal.block.length) := by
    rw [Nat.add_assoc, Nat.mod_add_div, Nat.add_sub_of_le hi]
  calc
    decimal.digit (i + length) =
        decimal.digit (decimal.lead.length +
          (i - decimal.lead.length) % decimal.block.length + length +
            decimal.block.length * ((i - decimal.lead.length) / decimal.block.length)) := by
      rw [Nat.add_right_comm, ← hplace]
    _ = decimal.digit (decimal.lead.length +
          (i - decimal.lead.length) % decimal.block.length + length) :=
      decimal.digit_add_mul (by omega) _
    _ = decimal.digit (decimal.lead.length +
          (i - decimal.lead.length) % decimal.block.length) :=
      digit_add_of_isBlock hshows hblock (by omega) (by omega)
    _ = decimal.digit i := decimal.digit_mod hi

/-- No block comes before the one of the shortest decimal. -/
theorem IsShortest.first_of_isBlock (hshortest : decimal.IsShortest)
    (hcount : 2 * decimal.lead.length + 2 * decimal.block.length ≤ count) :
    decimal.lead.length < start ∨ decimal.lead.length = start ∧ decimal.block.length ≤ length := by
  rcases Nat.lt_or_ge decimal.lead.length start with hlater | hstart
  · exact .inl hlater
  · rcases hshortest.dvd_of_repeats (repeats_of_isBlock hshows hblock hstart hcount) with
      ⟨blocks, rfl⟩
    have hpos := hblock.pos
    rcases blocks with _ | blocks
    · omega
    · rcases Nat.eq_or_lt_of_le hstart with rfl | hearlier
      · exact .inr ⟨rfl, Nat.le_mul_of_pos_right _ (Nat.succ_pos blocks)⟩
      · exfalso
        rcases Nat.exists_eq_add_one_of_ne_zero (Nat.ne_zero_of_lt hearlier) with ⟨before, hlead⟩
        have htwice := hblock.twice
        rw [size_of_shows hshows] at htwice
        -- The digit before the block is repeated like the block.
        have hrepeated := digit_add_of_isBlock hshows hblock (i := before) (by omega) (by omega)
        apply hshortest.last_ne hlead
        rw [← hrepeated, Nat.mul_succ, Nat.add_comm (decimal.block.length * blocks),
          ← Nat.add_assoc]
        have hpositive := decimal.length_block_pos
        exact (decimal.digit_add_mul (by omega) blocks).symm

end OtherBlock

theorem IsShortest.recurringBlock?_eq (hshortest : decimal.IsShortest)
    (hshows : decimal.Shows count digits)
    (hvisible : decimal.lead.length + Display.minRepetition ≤ count + 1)
    (hcount : 2 * decimal.lead.length + 2 * decimal.block.length ≤ count) :
    Display.recurringBlock? digits.toArray =
      some (decimal.lead.length, decimal.block.length) := by
  rw [Display.recurringBlock?_eq_some_iff]
  refine ⟨isBlock_of_shows hshows hvisible (by omega), ?_⟩
  intro start length hblock
  exact hshortest.first_of_isBlock hshows hblock hcount

/-!
## Text
-/

def chars (decimal : RecurringDecimal) : List Char :=
  Nat.toDigits 10 decimal.whole ++ '.' :: (decimal.lead ++
    decimal.block.flatMap (fun c => [Display.overline, c]))

theorem fractionChars_of_shows (hshows : decimal.Shows count digits)
    (hcount : decimal.lead.length + decimal.block.length ≤ count)
    (hfound : Display.recurringBlock? digits.toArray =
      some (decimal.lead.length, decimal.block.length)) :
    Display.fractionChars digits =
      decimal.lead ++ decimal.block.flatMap (fun c => [Display.overline, c]) := by
  rcases hshows with ⟨last, rfl, _⟩
  rcases Nat.exists_eq_add_of_le hcount with ⟨more, rfl⟩
  rw [Display.fractionChars, hfound]
  simp [digitsFrom_add, digitsFrom_lead, digitsFrom_block, List.append_assoc]

theorem exists_ne_nine_of_shows (hforever : ¬ Terminates decimal.value)
    (hshows : decimal.Shows count digits)
    (hcount : decimal.lead.length + decimal.block.length ≤ count) :
    exists c, c ∈ digits ∧ c ≠ '9' := by
  rcases exists_digit_ne hforever (le_refl decimal.lead.length) (d := '9') (.inr rfl) with
    ⟨c, hc, hne⟩
  rcases hshows with ⟨last, rfl, _⟩
  rcases Nat.exists_eq_add_of_le hcount with ⟨more, rfl⟩
  refine ⟨c, ?_, hne⟩
  simp only [digitsFrom_add, Nat.zero_add, List.mem_append]
  exact .inl (.inl (.inr hc))

end RecurringDecimal

namespace Display

theorem terminates_of_endsWithin {x : Rat} {precision : Nat} (h : endsWithin x precision = true) :
    Terminates x :=
  ⟨precision, endsWithin_iff.mp h⟩

theorem not_terminates_abs {x : Rat} (h : ¬ Terminates x) : ¬ Terminates |x| := by
  rintro ⟨digits, n, hn⟩
  rcases abs_choice x with habs | habs
  · exact h ⟨digits, n, by rw [← habs, hn]⟩
  · refine h ⟨digits, -n, ?_⟩
    rw [← neg_neg x, ← habs, hn, Int.cast_neg, neg_div]

theorem recurring_of_fraction {x : Rat} {precision n : Nat} {fraction : List Char} {c : Char}
    (h : ¬ Terminates x) (hn : (nearest |x| precision).natAbs = n)
    (hfraction : trimmedFraction n precision = fraction) (hc : c ∈ fraction) (hne : c ≠ '9') :
    recurring x precision = String.ofList ((if x < 0 then ['-'] else []) ++
      Nat.toDigits 10 (n / unit precision) ++ '.' :: fractionChars fraction) := by
  have hends : endsWithin x precision = false := by
    rw [← Bool.not_eq_true]
    exact fun hends => h (terminates_of_endsWithin hends)
  have hzero : x ≠ 0 := by
    rintro rfl
    exact h ⟨0, 0, by norm_num⟩
  have hnines : ¬ (fraction.all (fun d => d == '9') = true) :=
    fun hall => hne (beq_iff_eq.mp (List.all_eq_true.mp hall c hc))
  have hempty : ¬ (fraction.isEmpty = true) := by
    rw [List.isEmpty_iff]
    exact List.ne_nil_of_mem hc
  simp only [recurring, if_neg hzero, hends, Bool.false_eq_true, if_false, abs_eq_abs, hn,
    hfraction]
  rw [roundedChars, if_neg (fun hcarry => hnines hcarry.right), if_neg hempty]

/-- A number whose expansion does not end is shown in full, as its shortest recurring decimal,
if there are enough digits to see the block and their number fits a word. -/
theorem recurring_of_not_terminates {x : Rat} (h : ¬ Terminates x) :
    (exists decimal : RecurringDecimal, decimal.value = |x| ∧ decimal.IsShortest) ∧
      forall (decimal : RecurringDecimal) (precision : Nat),
        precision < 2 ^ 32 -> decimal.value = |x| -> decimal.IsShortest ->
        2 * decimal.lead.length + 3 * decimal.block.length ≤ precision ->
        decimal.lead.length + decimal.block.length + 6 ≤ precision ->
        let fraction := trimmedFraction (nearest x.abs precision).natAbs precision
        recurring x precision =
            String.ofList ((if x < 0 then ['-'] else []) ++ decimal.chars) ∧
          recurringBlock? fraction.toArray =
            some (decimal.lead.length, decimal.block.length) ∧
          exists c, c ∈ fraction ∧ c ≠ '9' := by
  refine ⟨RecurringDecimal.exists_isShortest (abs_nonneg x), ?_⟩
  intro decimal precision hword hvalue hshortest hblocks hvisible fraction
  have hforever : ¬ Terminates decimal.value := by
    rw [hvalue]
    exact not_terminates_abs h
  have hplaces : decimal.lead.length + decimal.block.length ≤ precision := by omega
  rcases RecurringDecimal.shows_nearest hforever hword hplaces with ⟨hwhole, count, hshows, hcount⟩
  rw [hvalue] at hwhole hshows
  have hfraction : trimmedFraction (nearest |x| precision).natAbs precision = fraction := by
    rw [← abs_eq_abs]
  rw [hfraction] at hshows
  have hfound := hshortest.recurringBlock?_eq hshows (by unfold minRepetition; omega) (by omega)
  have hother := RecurringDecimal.exists_ne_nine_of_shows hforever hshows (by omega)
  refine ⟨?_, hfound, hother⟩
  have hchars := RecurringDecimal.fractionChars_of_shows hshows (by omega) hfound
  rcases hother with ⟨c, hc, hne⟩
  rw [recurring_of_fraction h rfl hfraction hc hne, hwhole, hchars, RecurringDecimal.chars,
    List.append_assoc]

def oneTwentySecond : RecurringDecimal where
  whole := 0
  lead := ['0']
  block := ['4', '5']
  block_ne_nil := by decide
  isDigit_lead := List.all_eq_true.mp rfl
  isDigit_block := List.all_eq_true.mp rfl

theorem value_oneTwentySecond : oneTwentySecond.value = |(-1 / 22 : Rat)| := by
  have hlead : Nat.ofDigitChars 10 ['0'] 0 = 0 := by decide
  have hblock : Nat.ofDigitChars 10 ['4', '5'] 0 = 45 := by decide
  norm_num [RecurringDecimal.value, oneTwentySecond, hlead, hblock, abs_of_neg]

theorem eleven_dvd_of_dvd_pow_mul (places : Nat) {n : Int} (h : 11 ∣ 10 ^ places * n) : 11 ∣ n := by
  have hcoprime : IsCoprime (11 : Int) 10 := ⟨1, -1, by norm_num⟩
  exact (hcoprime.pow_right).dvd_of_dvd_mul_left h

theorem isShortest_oneTwentySecond : oneTwentySecond.IsShortest := by
  intro other hother
  rcases (RecurringDecimal.isCycle_iff other.value_nonneg).mpr ⟨other, rfl, rfl, rfl⟩ with
    ⟨hpos, n, hn⟩
  rw [hother, value_oneTwentySecond, abs_of_neg (by norm_num)] at hn
  have hcycle : (10 : Int) ^ other.lead.length * (10 ^ other.block.length - 1) = 22 * n := by
    have hrat : (10 : Rat) ^ other.lead.length * (10 ^ other.block.length - 1) = 22 * n := by
      linarith
    exact_mod_cast hrat
  constructor
  · by_contra hlead
    have hzero : other.lead.length = 0 := Nat.lt_one_iff.mp (Nat.lt_of_not_le hlead)
    rcases Nat.exists_eq_add_one_of_ne_zero (Nat.ne_of_gt hpos) with ⟨k, hk⟩
    rw [hzero, hk, pow_zero, pow_succ] at hcycle
    omega
  · by_contra hblock
    have hone : other.block.length = 1 := by
      change ¬ 2 ≤ other.block.length at hblock
      omega
    rw [hone] at hcycle
    have hdvd := eleven_dvd_of_dvd_pow_mul other.lead.length (n := 10 ^ 1 - 1)
      ⟨2 * n, by rw [hcycle]; ring⟩
    revert hdvd
    decide

theorem not_terminates_oneTwentySecond : ¬ Terminates (-1 / 22) := by
  rintro ⟨digits, n, hn⟩
  have hpow : (10 : Rat) ^ digits = 11 * (-2 * n) := by
    field_simp at hn
    linarith
  have hdvd := eleven_dvd_of_dvd_pow_mul digits (n := 1)
    ⟨-2 * n, by rw [mul_one]; exact_mod_cast hpow⟩
  revert hdvd
  decide

theorem recurring_of_not_terminates_oneTwentySecond :
    ¬ Terminates (-1 / 22) ∧ 9 < 2 ^ 32 ∧ oneTwentySecond.value = |(-1 / 22 : Rat)| ∧
      oneTwentySecond.IsShortest ∧
        recurring (-1 / 22) 9 = "-0.0\u03054\u03055" := by
  refine ⟨not_terminates_oneTwentySecond, by decide, value_oneTwentySecond,
    isShortest_oneTwentySecond, ?_⟩
  have htext := ((recurring_of_not_terminates not_terminates_oneTwentySecond).right
    oneTwentySecond 9 (by decide) value_oneTwentySecond isShortest_oneTwentySecond (by decide)
      (by decide)).left
  rw [htext, if_pos (by norm_num)]
  decide +kernel

end Display
end AngleCalc
