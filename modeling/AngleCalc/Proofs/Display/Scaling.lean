import AngleCalc.Display.Engineering
import AngleCalc.Proofs.FixedPoint.Rounding
import AngleCalc.Proofs.Loops
import Mathlib.Data.Int.Log

/-!
# The mantissa and the exponent of a number

A mantissa is divided or multiplied by ten until it lies between one and ten. Neither step
changes the number, and one of them always ends in that range, so whatever the exponent was
guessed to be, it is found to be the one of the leading digit.
-/

namespace AngleCalc

/-!
## The leading digit
-/

theorem ten_zpow_pos (k : Int) : (0 : Rat) < 10 ^ k :=
  zpow_pos (by norm_num) k

/-- The leading digit of `x` counts the power of ten with the exponent `k`. -/
structure IsMagnitude (x : Rat) (k : Int) : Prop where
  le : (10 : Rat) ^ k ≤ |x|
  lt : |x| < (10 : Rat) ^ (k + 1)

theorem isMagnitude_iff {x : Rat} (hx : x ≠ 0) {k : Int} :
    IsMagnitude x k ↔ k = Int.log 10 |x| := by
  have hpos : 0 < |x| := abs_pos.mpr hx
  have hle : (10 : Rat) ^ k ≤ |x| ↔ k ≤ Int.log 10 |x| :=
    Int.zpow_le_iff_le_log (by decide) hpos
  have hlt : |x| < (10 : Rat) ^ (k + 1) ↔ Int.log 10 |x| < k + 1 :=
    Int.lt_zpow_iff_log_lt (by decide) hpos
  constructor
  · rintro ⟨hlower, hupper⟩
    have hlower := hle.mp hlower
    have hupper := hlt.mp hupper
    omega
  · rintro rfl
    exact ⟨hle.mpr le_rfl, hlt.mpr (Int.lt_succ _)⟩

theorem isMagnitude_abs_iff {x : Rat} {k : Int} : IsMagnitude |x| k ↔ IsMagnitude x k := by
  constructor
  · rintro ⟨hle, hlt⟩
    rw [abs_abs] at hle hlt
    exact ⟨hle, hlt⟩
  · rintro ⟨hle, hlt⟩
    rw [← abs_abs] at hle hlt
    exact ⟨hle, hlt⟩

/-!
## The guessed exponent
-/

namespace Decimal

theorem digitCount_pos (n : Nat) : 0 < digitCount n :=
  List.length_pos_iff.mpr Nat.toDigits_ne_nil

theorem digitCount_le_iff {n k : Nat} (hk : 0 < k) : digitCount n ≤ k ↔ n < 10 ^ k :=
  Nat.length_toDigits_le_iff (by decide) hk

theorem zpow_digitCount_le {n : Nat} (hn : 0 < n) :
    (10 : Rat) ^ ((digitCount n : Int) - 1) ≤ n := by
  rcases Nat.exists_eq_add_one_of_ne_zero (digitCount_pos n).ne' with ⟨k, hk⟩
  have hle : 10 ^ k ≤ n := by
    rcases Nat.eq_zero_or_pos k with rfl | hpos
    · exact hn
    · have hmore : ¬ digitCount n ≤ k := by omega
      rw [digitCount_le_iff hpos, Nat.not_lt] at hmore
      exact hmore
  rw [hk, Nat.cast_succ, add_sub_cancel_right, zpow_natCast]
  exact_mod_cast hle

theorem lt_zpow_digitCount (n : Nat) : (n : Rat) < 10 ^ (digitCount n : Int) := by
  have hlt : n < 10 ^ digitCount n := (digitCount_le_iff (digitCount_pos n)).mp le_rfl
  rw [zpow_natCast]
  exact_mod_cast hlt

/-- The guess is the exponent of the leading digit, or one more. -/
theorem exponentGuess_of_isMagnitude {x : Rat} (hx : 0 < x) {k : Int} (hk : IsMagnitude x k) :
    exponentGuess x = k ∨ exponentGuess x = k + 1 := by
  have hten : (10 : Rat) ≠ 0 := by norm_num
  have hden : (0 : Rat) < x.den := Nat.cast_pos.mpr x.den_pos
  have hnum : (x.num.natAbs : Rat) = x * x.den := by
    rw [Rat.mul_den_eq_num, ← Int.cast_natCast, Int.natAbs_of_nonneg (Rat.num_nonneg.mpr hx.le)]
  have hpos : 0 < x.num.natAbs := Int.natAbs_pos.mpr (Rat.num_ne_zero.mpr hx.ne')
  rcases hk with ⟨hle, hlt⟩
  rw [abs_of_pos hx] at hle hlt
  have hupper : (10 : Rat) ^ (k + ((digitCount x.den : Int) - 1)) <
      10 ^ (digitCount x.num.natAbs : Int) :=
    calc
      (10 : Rat) ^ (k + ((digitCount x.den : Int) - 1)) =
          10 ^ k * 10 ^ ((digitCount x.den : Int) - 1) := zpow_add₀ hten _ _
      _ ≤ x * x.den :=
        mul_le_mul hle (zpow_digitCount_le x.den_pos) (ten_zpow_pos _).le hx.le
      _ = x.num.natAbs := hnum.symm
      _ < 10 ^ (digitCount x.num.natAbs : Int) := lt_zpow_digitCount _
  have hlower : (10 : Rat) ^ ((digitCount x.num.natAbs : Int) - 1) <
      10 ^ (k + 1 + (digitCount x.den : Int)) :=
    calc
      (10 : Rat) ^ ((digitCount x.num.natAbs : Int) - 1) ≤ x.num.natAbs := zpow_digitCount_le hpos
      _ = x * x.den := hnum
      _ < 10 ^ (k + 1) * 10 ^ (digitCount x.den : Int) :=
        mul_lt_mul'' hlt (lt_zpow_digitCount _) hx.le hden.le
      _ = 10 ^ (k + 1 + (digitCount x.den : Int)) := (zpow_add₀ hten _ _).symm
  have hupper := (zpow_lt_zpow_iff_right₀ (by norm_num)).mp hupper
  have hlower := (zpow_lt_zpow_iff_right₀ (by norm_num)).mp hlower
  unfold exponentGuess
  omega

end Decimal

namespace Display

namespace Scaled

def value (scaled : Scaled) : Rat :=
  scaled.mantissa * 10 ^ scaled.exponent

def IsHigh (scaled : Scaled) : Prop :=
  10 ≤ scaled.mantissa

def IsLow (scaled : Scaled) : Prop :=
  scaled.mantissa < 1

theorem value_tenth (scaled : Scaled) : scaled.tenth.value = scaled.value := by
  have hten : (10 : Rat) ≠ 0 := by norm_num
  rw [value, tenth, zpow_add_one₀ hten, value]
  field_simp

theorem value_tenfold (scaled : Scaled) : scaled.tenfold.value = scaled.value := by
  have hten : (10 : Rat) ≠ 0 := by norm_num
  rw [value, tenfold, zpow_sub_one₀ hten, value]
  field_simp

section Guess

variable {x : Rat} (hguess : (Decimal.exponentGuess x).natAbs < 2 ^ 32)
include hguess

theorem mantissa_guess : (guess x).mantissa = x * 10 ^ (-Decimal.exponentGuess x) := by
  rw [guess, FixedPoint.tenPower_of_lt (by rwa [Int.natAbs_neg])]

theorem value_guess : (guess x).value = x := by
  have hten : (10 : Rat) ≠ 0 := by norm_num
  have hexponent : (guess x).exponent = Decimal.exponentGuess x := rfl
  rw [value, mantissa_guess hguess, hexponent, zpow_neg, mul_assoc,
    inv_mul_cancel₀ (zpow_ne_zero _ hten), mul_one]

end Guess

theorem loops_lower (scaled : Scaled) : Loops IsHigh tenth scaled scaled.lower := by
  induction scaled using lower.induct with
  | case1 scaled h ih =>
      rw [lower, if_pos h]
      exact .step h ih
  | case2 scaled h =>
      rw [lower, if_neg h]
      exact .stop h

theorem loops_raise {scaled : Scaled} (hpos : 0 < scaled.mantissa) :
    Loops IsLow tenfold scaled scaled.raise := by
  induction scaled using raise.induct with
  | case1 scaled h ih =>
      rw [raise, if_pos h]
      exact .step h.right (ih (mul_pos hpos (by norm_num)))
  | case2 scaled h =>
      rw [raise, if_neg h]
      exact .stop (fun hlow => h ⟨hpos, hlow⟩)

theorem mantissa_eq (scaled : Scaled) :
    scaled.mantissa = scaled.value * 10 ^ (-scaled.exponent) := by
  have hten : (10 : Rat) ≠ 0 := by norm_num
  rw [value, zpow_neg, mul_assoc, mul_inv_cancel₀ (zpow_ne_zero _ hten), mul_one]

theorem isMagnitude_value {scaled : Scaled} (hlow : 1 ≤ scaled.mantissa)
    (hhigh : scaled.mantissa < 10) : IsMagnitude scaled.value scaled.exponent := by
  have hten : (10 : Rat) ≠ 0 := by norm_num
  have hunit := ten_zpow_pos scaled.exponent
  have habs : |scaled.value| = scaled.mantissa * 10 ^ scaled.exponent := by
    rw [value, abs_of_pos (mul_pos (by linarith) hunit)]
  constructor
  · calc
      (10 : Rat) ^ scaled.exponent = 1 * 10 ^ scaled.exponent := (one_mul _).symm
      _ ≤ scaled.mantissa * 10 ^ scaled.exponent := mul_le_mul_of_nonneg_right hlow hunit.le
      _ = |scaled.value| := habs.symm
  · calc
      |scaled.value| = scaled.mantissa * 10 ^ scaled.exponent := habs
      _ < 10 * 10 ^ scaled.exponent := mul_lt_mul_of_pos_right hhigh hunit
      _ = 10 ^ (scaled.exponent + 1) := by rw [zpow_add_one₀ hten, mul_comm]

theorem value_of_loops {scaled lowered raised : Scaled} (hpos : 0 < scaled.mantissa)
    (hlower : Loops IsHigh tenth scaled lowered) (hraise : Loops IsLow tenfold lowered raised) :
    raised.value = scaled.value ∧ 1 ≤ raised.mantissa ∧ raised.mantissa < 10 := by
  have hlowered : (0 < lowered.mantissa ∧ lowered.value = scaled.value) ∧ ¬ lowered.IsHigh := by
    refine hlower.keeps (fun s => 0 < s.mantissa ∧ s.value = scaled.value) ?_ ⟨hpos, rfl⟩
    rintro s _ ⟨hs, hvalue⟩
    exact ⟨div_pos hs (by norm_num), (value_tenth s).trans hvalue⟩
  have hraised : (raised.mantissa < 10 ∧ raised.value = scaled.value) ∧ ¬ raised.IsLow := by
    refine hraise.keeps (fun s => s.mantissa < 10 ∧ s.value = scaled.value) ?_
      ⟨not_le.mp hlowered.right, hlowered.left.right⟩
    rintro s hlow ⟨_, hvalue⟩
    have hlow : s.mantissa < 1 := hlow
    exact ⟨by rw [tenfold]; linarith, (value_tenfold s).trans hvalue⟩
  exact ⟨hraised.left.right, not_lt.mp hraised.right, hraised.left.left⟩

/-- A positive number is scaled to its leading digit, whatever the guess was, if the power of ten
that was guessed can be computed. -/
theorem raise_lower_guess {x : Rat} (hx : 0 < x)
    (hword : (Decimal.exponentGuess x).natAbs < 2 ^ 32) {k : Int} (hk : IsMagnitude x k) :
    Loops IsLow tenfold (guess x).lower ⟨x * 10 ^ (-k), k⟩ ∧
      (guess x).lower.raise = ⟨x * 10 ^ (-k), k⟩ := by
  have hguess : 0 < (guess x).mantissa := by
    rw [mantissa_guess hword]
    exact mul_pos hx (ten_zpow_pos _)
  have hlower := loops_lower (guess x)
  have hlowered : 0 < (guess x).lower.mantissa :=
    (hlower.keeps (fun s => 0 < s.mantissa) (fun s _ hs => div_pos hs (by norm_num)) hguess).left
  have hraise := loops_raise hlowered
  rcases value_of_loops hguess hlower hraise with ⟨hvalue, hlow, hhigh⟩
  have hmagnitude := isMagnitude_value hlow hhigh
  rw [hvalue, value_guess hword, isMagnitude_iff hx.ne'] at hmagnitude
  rw [isMagnitude_iff hx.ne'] at hk
  have hexponent : (guess x).lower.raise.exponent = k := hmagnitude.trans hk.symm
  have hmantissa := mantissa_eq (guess x).lower.raise
  rw [hvalue, value_guess hword, hexponent] at hmantissa
  have hresult : (guess x).lower.raise = ⟨x * 10 ^ (-k), k⟩ := by
    rw [← hmantissa, ← hexponent]
  rw [hresult] at hraise
  exact ⟨hraise, hresult⟩

end Scaled

end Display
end AngleCalc
