import AngleCalc.Proofs.Decimal.Literal
import AngleCalc.Proofs.Display.Recurring

/-!
# The number that a text shows

A displayed text is a sign, digits, and behind a point the digits of a fraction. Digits with an
overline are a block, which stands for itself repeated forever.
-/

namespace AngleCalc
namespace Display

open Numeral

/-- The number that a text without a sign shows. An empty block adds nothing. -/
def shownSize (cs : List Char) : Rat :=
  let lead := (fractionOf cs).takeWhile (fun c => c != overline)
  let block := ((fractionOf cs).dropWhile (fun c => c != overline)).filter (fun c => c != overline)
  Nat.ofDigitChars 10 (wholeOf cs) 0 +
    (Nat.ofDigitChars 10 lead 0 + Nat.ofDigitChars 10 block 0 / (10 ^ block.length - 1)) /
      10 ^ lead.length

def shownValue (text : String) : Rat :=
  let (negative, body) := readSign text.toList
  if negative then -shownSize body else shownSize body

theorem not_point_of_isDigit {c : Char} (h : c.isDigit = true) : (c != '.') = true :=
  bne_iff_ne.mpr (ne_of_isDigit h rfl)

theorem not_overline_of_isDigit {c : Char} (h : c.isDigit = true) : (c != overline) = true :=
  bne_iff_ne.mpr (ne_of_isDigit h (by decide))

/-!
## The parts of a text
-/

section Whole

variable {whole : List Char} (hwhole : forall c, c ∈ whole -> c.isDigit = true)
include hwhole

theorem wholeOf_append_point (fraction : List Char) :
    wholeOf (whole ++ '.' :: fraction) = whole := by
  rw [wholeOf, List.takeWhile_append_of_pos (fun c hc => not_point_of_isDigit (hwhole c hc))]
  exact List.append_nil whole

theorem fractionOf_append_point (fraction : List Char) :
    fractionOf (whole ++ '.' :: fraction) = fraction := by
  rw [fractionOf, List.dropWhile_append_of_pos (fun c hc => not_point_of_isDigit (hwhole c hc))]
  rfl

theorem shownSize_of_digits : shownSize whole = Nat.ofDigitChars 10 whole 0 := by
  have hpoint : forall c, c ∈ whole -> (c != '.') = true :=
    fun c hc => not_point_of_isDigit (hwhole c hc)
  have hfraction : fractionOf whole = [] := by
    rw [fractionOf, List.dropWhile_eq_nil_iff.mpr hpoint]
    rfl
  rw [shownSize, hfraction, wholeOf, List.takeWhile_eq_self_iff.mpr hpoint]
  simp

end Whole

section Block

variable {block : List Char} (hblock : forall c, c ∈ block -> c.isDigit = true)
include hblock

theorem filter_overlined :
    (block.flatMap (fun c => [overline, c])).filter (fun c => c != overline) = block := by
  induction block with
  | nil => rfl
  | cons c block ih =>
      rw [List.forall_mem_cons] at hblock
      rw [List.flatMap_cons, List.filter_append, ih hblock.right]
      simp [not_overline_of_isDigit hblock.left]

theorem split_overlined {lead : List Char} (hlead : forall c, c ∈ lead -> c.isDigit = true) :
    let fraction := lead ++ block.flatMap (fun c => [overline, c])
    fraction.takeWhile (fun c => c != overline) = lead ∧
      (fraction.dropWhile (fun c => c != overline)).filter (fun c => c != overline) = block := by
  intro fraction
  have hpass : forall c, c ∈ lead -> (c != overline) = true :=
    fun c hc => not_overline_of_isDigit (hlead c hc)
  have hstop : (block.flatMap (fun c => [overline, c])).takeWhile (fun c => c != overline) = [] ∧
      (block.flatMap (fun c => [overline, c])).dropWhile (fun c => c != overline) =
        block.flatMap (fun c => [overline, c]) := by
    cases block with
    | nil => exact ⟨rfl, rfl⟩
    | cons c block => exact ⟨rfl, rfl⟩
  constructor
  · rw [List.takeWhile_append_of_pos hpass, hstop.left, List.append_nil]
  · rw [List.dropWhile_append_of_pos hpass, hstop.right, filter_overlined hblock]

theorem shownSize_of_block {whole lead : List Char}
    (hwhole : forall c, c ∈ whole -> c.isDigit = true)
    (hlead : forall c, c ∈ lead -> c.isDigit = true) :
    shownSize (whole ++ '.' :: (lead ++ block.flatMap (fun c => [overline, c]))) =
      Nat.ofDigitChars 10 whole 0 +
        (Nat.ofDigitChars 10 lead 0 + Nat.ofDigitChars 10 block 0 / (10 ^ block.length - 1)) /
          10 ^ lead.length := by
  rcases split_overlined hblock hlead with ⟨htake, hfilter⟩
  rw [shownSize, wholeOf_append_point hwhole, fractionOf_append_point hwhole, htake, hfilter]

end Block

theorem isDigit_toDigits (n : Nat) (c : Char) (hc : c ∈ Nat.toDigits 10 n) : c.isDigit = true :=
  Nat.isDigit_of_mem_toDigits (by decide) (by decide) hc

theorem shownSize_of_fraction {whole fraction : List Char}
    (hwhole : forall c, c ∈ whole -> c.isDigit = true)
    (hfraction : forall c, c ∈ fraction -> c.isDigit = true) :
    shownSize (whole ++ '.' :: fraction) =
      Nat.ofDigitChars 10 whole 0 + Nat.ofDigitChars 10 fraction 0 / 10 ^ fraction.length := by
  have hnil : forall c, c ∈ ([] : List Char) -> c.isDigit = true := fun c hc => by cases hc
  simpa using shownSize_of_block hnil hwhole hfraction

theorem shownSize_chars (decimal : RecurringDecimal) : shownSize decimal.chars = decimal.value := by
  rw [RecurringDecimal.chars, shownSize_of_block decimal.isDigit_block
    (isDigit_toDigits decimal.whole) decimal.isDigit_lead, Nat.ofDigitChars_ten_toDigits,
    RecurringDecimal.value]

theorem shownSize_body (spelling : Spelling) :
    shownSize spelling.body = Nat.ofDigitChars 10 spelling.whole 0 +
      Nat.ofDigitChars 10 spelling.fraction 0 / 10 ^ spelling.fraction.length := by
  rw [Spelling.body, Spelling.pointed]
  split
  · rename_i hfraction
    rw [List.append_nil, shownSize_of_digits spelling.isDigit_whole, hfraction]
    simp
  · exact shownSize_of_fraction spelling.isDigit_whole spelling.isDigit_fraction

theorem shownSize_eq_value {spelling : Spelling} (h : spelling.negative = false) :
    shownSize spelling.body = spelling.numeral.value := by
  have hmagnitude : (spelling.numeral.magnitude : Rat) =
      10 ^ spelling.fraction.length * Nat.ofDigitChars 10 spelling.whole 0 +
        Nat.ofDigitChars 10 spelling.fraction 0 := by
    rw [Numeral.magnitude, Spelling.numeral, Decimal.ofDigitChars_append_zero]
    push_cast
    rfl
  have hscale : (10 : Rat) ^ spelling.numeral.scale = (10 ^ spelling.fraction.length)⁻¹ := by
    rw [Spelling.numeral, zpow_neg, zpow_natCast]
  have hnegative : spelling.numeral.negative = false := h
  rw [shownSize_body, Numeral.value, hmagnitude, hscale, hnegative, if_neg Bool.false_ne_true]
  field_simp

/-!
## Signs
-/

/-- A text begins with a digit, so a sign in front of it is the only one. -/
def StartsWithDigit (cs : List Char) : Prop :=
  exists c rest, cs = c :: rest ∧ c.isDigit = true

theorem startsWithDigit_toDigits (n : Nat) (rest : List Char) :
    StartsWithDigit (Nat.toDigits 10 n ++ rest) := by
  rcases List.exists_cons_of_ne_nil (Nat.toDigits_ne_nil (b := 10) (n := n)) with ⟨c, more, hdigits⟩
  rw [hdigits]
  exact ⟨c, more ++ rest, rfl, isDigit_toDigits n c (by rw [hdigits]; exact List.mem_cons_self)⟩

theorem readSign_of_startsWithDigit {cs : List Char} (h : StartsWithDigit cs) :
    readSign cs = (false, cs) := by
  rcases h with ⟨c, rest, rfl, hdigit⟩
  have hminus : c ≠ '-' := ne_of_isDigit hdigit rfl
  have hplus : c ≠ '+' := ne_of_isDigit hdigit rfl
  simp [readSign, hminus, hplus]

/-- The error of a text with the sign of the number is the error of its size. -/
theorem abs_shownValue_sub {x : Rat} {cs : List Char} (h : StartsWithDigit cs) :
    |shownValue (String.ofList ((if x < 0 then ['-'] else []) ++ cs)) - x| =
      abs (shownSize cs - |x|) := by
  by_cases hnegative : x < 0
  · have hvalue : shownValue (String.ofList ('-' :: cs)) = -shownSize cs := by
      rw [shownValue, String.toList_ofList]
      rfl
    rw [if_pos hnegative, List.singleton_append, hvalue, abs_of_neg hnegative, ← abs_neg]
    congr 1
    ring
  · have hvalue : shownValue (String.ofList cs) = shownSize cs := by
      rw [shownValue, String.toList_ofList, readSign_of_startsWithDigit h]
      rfl
    rw [if_neg hnegative, List.nil_append, hvalue, abs_of_nonneg (le_of_not_gt hnegative)]

end Display
end AngleCalc
