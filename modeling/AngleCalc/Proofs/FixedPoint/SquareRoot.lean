import AngleCalc.Power
import AngleCalc.Proofs.FixedPoint.Rounding
import Mathlib.Tactic.MkIffOfInductiveProp

/-!
# Square roots are rounded down

Newton's iteration starts above the root and never leaves a number below its floor behind: as
long as it decreases, the mean of a number and its quotient is not below the root, and it can
only stop at the floor. So nothing is left to be raised or lowered afterwards. The square root of
a rational is the fixed-point number next to the root from below. It grows with the rational, and
it is exact where the root is a fixed-point number itself.
-/

namespace AngleCalc
namespace FixedPoint

variable {target den y root : Nat}

/-!
## The floor of a root
-/

@[mk_iff]
structure IsFloorRoot (target den y : Nat) : Prop where
  le : y * y * den ≤ target
  lt : target < (y + 1) * (y + 1) * den

theorem isFloorRoot_iff_eq_sqrt (hden : 0 < den) :
    IsFloorRoot target den y ↔ y = Nat.sqrt (target / den) := by
  rw [Nat.eq_sqrt, Nat.le_div_iff_mul_le hden, Nat.div_lt_iff_lt_mul hden, isFloorRoot_iff]

theorem raiseToRoot_eq_self (h : target < (y + 1) * (y + 1) * den) :
    raiseToRoot target den y = y := by
  rw [raiseToRoot, if_neg]
  rintro ⟨_, hle⟩
  omega

theorem lowerToRoot_eq_self (h : y * y * den ≤ target) : lowerToRoot target den y = y := by
  rw [lowerToRoot, if_neg (Nat.not_lt.mpr h)]

/-!
## Newton's iteration
-/

/-- Newton's iteration from `y` ends in `root`, and no divisor on the way is zero. -/
inductive Descends (target den : Nat) : Nat -> Nat -> Prop where
  | zero : Descends target den 0 0
  | stop {y : Nat} (hdivisor : den * y ≠ 0) (h : y ≤ newtonStep target den y) :
      Descends target den y y
  | step {y root : Nat} (hdivisor : den * y ≠ 0) (h : newtonStep target den y < y)
      (hrest : Descends target den (newtonStep target den y) root) : Descends target den y root

theorem descends_iff (hden : 0 < den) :
    Descends target den y root ↔ root = newtonDescent target den y := by
  constructor
  · intro h
    induction h with
    | zero => rw [newtonDescent, if_pos rfl]
    | @stop y hdivisor h =>
        rw [newtonDescent, if_neg (Nat.ne_zero_of_mul_ne_zero_right hdivisor),
          if_neg (Nat.not_lt.mpr h)]
    | @step y root hdivisor h _ ih =>
        rw [newtonDescent, if_neg (Nat.ne_zero_of_mul_ne_zero_right hdivisor), if_pos h]
        exact ih
  · rintro rfl
    induction y using newtonDescent.induct target den with
    | case1 =>
        rw [newtonDescent, if_pos rfl]
        exact .zero
    | case2 y hy h ih =>
        rw [newtonDescent, if_neg hy, if_pos h]
        exact .step (Nat.mul_ne_zero (Nat.ne_of_gt hden) hy) h ih
    | case3 y hy h =>
        rw [newtonDescent, if_neg hy, if_neg h]
        exact .stop (Nat.mul_ne_zero (Nat.ne_of_gt hden) hy) (Nat.not_lt.mp h)

/-- The next number is not below the floor of the root. -/
theorem lt_newtonStep (hdivisor : den * y ≠ 0) :
    target < (newtonStep target den y + 1) * (newtonStep target den y + 1) * den := by
  have hpos := Nat.pos_of_ne_zero hdivisor
  have hden := Nat.pos_of_mul_pos_right hpos
  have hquotient := Nat.lt_mul_div_succ target hpos
  have hstep : newtonStep target den y = (y + target / (den * y)) / 2 := rfl
  generalize newtonStep target den y = next at hstep ⊢
  generalize target / (den * y) = quotient at hquotient hstep
  -- The mean of `y` and the quotient is not below their geometric mean.
  have hmean : 4 * y * (quotient + 1) ≤ (y + (quotient + 1)) ^ 2 := four_mul_le_sq_add y _
  have hnext : y + (quotient + 1) ≤ 2 * (next + 1) := by omega
  have hsquare : (y + (quotient + 1)) ^ 2 ≤ (2 * (next + 1)) ^ 2 := Nat.pow_le_pow_left hnext 2
  have hproduct : y * (quotient + 1) ≤ (next + 1) * (next + 1) := by
    rw [Nat.mul_pow, Nat.pow_two (next + 1), Nat.mul_assoc] at *
    omega
  calc
    target < den * y * (quotient + 1) := hquotient
    _ = y * (quotient + 1) * den := by ring
    _ ≤ (next + 1) * (next + 1) * den := Nat.mul_le_mul_right den hproduct

theorem le_of_le_newtonStep (hdivisor : den * y ≠ 0) (h : y ≤ newtonStep target den y) :
    y * y * den ≤ target := by
  have hquotient : y ≤ target / (den * y) := by
    unfold newtonStep at h
    omega
  have hle := (Nat.le_div_iff_mul_le (Nat.pos_of_ne_zero hdivisor)).mp hquotient
  rwa [Nat.mul_assoc, Nat.mul_comm y den]

/-- From above the root the iteration ends at its floor. -/
theorem Descends.isFloorRoot (h : Descends target den y root)
    (hstart : target < (y + 1) * (y + 1) * den) : IsFloorRoot target den root := by
  induction h with
  | zero => exact ⟨by simp, hstart⟩
  | stop hdivisor h => exact ⟨le_of_le_newtonStep hdivisor h, hstart⟩
  | step hdivisor _ _ ih => exact ih (lt_newtonStep hdivisor)

theorem bitLength_le_iff {n k : Nat} : bitLength n ≤ k ↔ n < 2 ^ k := by
  unfold bitLength
  split
  · rename_i hzero
    rw [hzero]
    exact iff_of_true (Nat.zero_le k) (Nat.two_pow_pos k)
  · rename_i hne
    rw [Nat.succ_le_iff, Nat.log2_lt hne]

theorem lt_newtonStart (hden : 0 < den) :
    target < (newtonStart target den + 1) * (newtonStart target den + 1) * den := by
  rw [← Nat.div_lt_iff_lt_mul hden]
  have hstart : newtonStart target den = 2 ^ (bitLength (target / den) / 2 + 1) := by
    rw [newtonStart, Nat.one_shiftLeft]
  calc
    target / den < 2 ^ bitLength (target / den) := bitLength_le_iff.mp le_rfl
    _ ≤ newtonStart target den * newtonStart target den := by
      rw [hstart, ← Nat.pow_add]
      exact Nat.pow_le_pow_right (by decide) (by omega)
    _ ≤ (newtonStart target den + 1) * (newtonStart target den + 1) :=
      Nat.mul_self_le_mul_self (Nat.le_succ _)

theorem isFloorRoot_newtonDescent (hden : 0 < den) :
    IsFloorRoot target den (newtonDescent target den (newtonStart target den)) :=
  ((descends_iff hden).mpr rfl).isFloorRoot (lt_newtonStart hden)

theorem floorRoot_eq (hden : 0 < den) :
    floorRoot target den = newtonDescent target den (newtonStart target den) := by
  have h : IsFloorRoot target den _ := isFloorRoot_newtonDescent hden
  rw [floorRoot, raiseToRoot_eq_self h.lt, lowerToRoot_eq_self h.le]

/-!
## Square roots of rationals
-/

theorem squareRoot_eq (x : Rat) (digits : Nat) :
    squareRoot x digits =
      newtonDescent (radicand x digits) x.den (newtonStart (radicand x digits) x.den) := by
  unfold squareRoot
  split
  · rename_i hzero
    have h : IsFloorRoot (radicand x digits) x.den _ := isFloorRoot_newtonDescent x.den_pos
    have hradicand : radicand x digits = 0 := by simp [radicand, hzero]
    rw [hradicand] at h ⊢
    have hle := h.le
    simp only [Nat.le_zero, Nat.mul_eq_zero, or_self, x.den_ne_zero, or_false] at hle
    exact hle.symm
  · exact floorRoot_eq x.den_pos

theorem isFloorRoot_squareRoot (x : Rat) (digits : Nat) :
    IsFloorRoot (radicand x digits) x.den (squareRoot x digits) := by
  rw [squareRoot_eq]
  exact isFloorRoot_newtonDescent x.den_pos

section Exact

variable {x : Rat} (hx : 0 ≤ x) {digits : Nat} (hword : 2 * digits < 2 ^ 32)
include hx hword

theorem cast_radicand :
    (radicand x digits : Rat) = x * 10 ^ (2 * digits) * x.den := by
  have hnum : ((x.num.toNat : Nat) : Rat) = x.num :=
    congrArg (Int.cast (R := Rat)) (Int.toNat_of_nonneg (Rat.num_nonneg.mpr hx))
  rw [radicand, Nat.cast_mul, cast_unit hword, hnum, ← Rat.mul_den_eq_num x]
  ring

theorem isFloorRoot_radicand_iff (y : Nat) :
    IsFloorRoot (radicand x digits) x.den y ↔
      (y : Rat) ^ 2 ≤ x * 10 ^ (2 * digits) ∧ x * 10 ^ (2 * digits) < ((y : Rat) + 1) ^ 2 := by
  have hden : (0 : Rat) < x.den := Nat.cast_pos.mpr x.den_pos
  have hle : y * y * x.den ≤ radicand x digits ↔ (y : Rat) ^ 2 ≤ x * 10 ^ (2 * digits) := by
    rw [← mul_le_mul_iff_left₀ hden, ← cast_radicand hx hword, pow_two]
    exact_mod_cast Iff.rfl
  have hlt : radicand x digits < (y + 1) * (y + 1) * x.den ↔
      x * 10 ^ (2 * digits) < ((y : Rat) + 1) ^ 2 := by
    rw [← mul_lt_mul_iff_left₀ hden, ← cast_radicand hx hword, pow_two]
    exact_mod_cast Iff.rfl
  rw [isFloorRoot_iff, hle, hlt]

theorem eq_squareRoot_iff (y : Int) :
    (0 ≤ y ∧ (y : Rat) ^ 2 ≤ x * 10 ^ (2 * digits) ∧ x * 10 ^ (2 * digits) < ((y : Rat) + 1) ^ 2) ↔
      y = squareRoot x digits := by
  have hroot := (isFloorRoot_iff_eq_sqrt x.den_pos).mp (isFloorRoot_squareRoot x digits)
  constructor
  · rintro ⟨hy, hbounds⟩
    lift y to Nat using hy
    have hfloor := (isFloorRoot_radicand_iff hx hword y).mpr (by exact_mod_cast hbounds)
    rw [(isFloorRoot_iff_eq_sqrt x.den_pos).mp hfloor, hroot]
  · rintro rfl
    have hbounds := (isFloorRoot_radicand_iff hx hword _).mp (isFloorRoot_squareRoot x digits)
    exact ⟨Int.natCast_nonneg _, by exact_mod_cast hbounds⟩

theorem squareRoot_le_squareRoot {x' : Rat} (hle : x ≤ x') :
    squareRoot x digits ≤ squareRoot x' digits := by
  have hlower := (isFloorRoot_radicand_iff hx hword _).mp (isFloorRoot_squareRoot x digits)
  have hupper := (isFloorRoot_radicand_iff (hx.trans hle) hword _).mp
    (isFloorRoot_squareRoot x' digits)
  have hscaled : x * 10 ^ (2 * digits) ≤ x' * 10 ^ (2 * digits) :=
    mul_le_mul_of_nonneg_right hle (by positivity)
  have hsquare : (squareRoot x digits : Rat) ^ 2 < ((squareRoot x' digits : Rat) + 1) ^ 2 :=
    (hlower.left.trans hscaled).trans_lt hupper.right
  have hlt : (squareRoot x digits : Rat) < (squareRoot x' digits : Rat) + 1 :=
    lt_of_pow_lt_pow_left₀ 2 (by positivity) hsquare
  exact Nat.lt_succ_iff.mp (by exact_mod_cast hlt)

theorem toRat_squareRoot_bounds :
    (toRat (squareRoot x digits) digits) ^ 2 ≤ x ∧
      x < (toRat (squareRoot x digits) digits + 1 / 10 ^ digits) ^ 2 := by
  have hbounds := (isFloorRoot_radicand_iff hx hword _).mp (isFloorRoot_squareRoot x digits)
  have hroot : toRat (squareRoot x digits) digits * 10 ^ digits = (squareRoot x digits : Rat) := by
    rw [← cast_unit (by omega), toRat_mul_unit]
    rfl
  have hunit : (0 : Rat) < 10 ^ digits := by positivity
  rw [← hroot, Nat.mul_comm 2 digits, pow_mul] at hbounds
  constructor
  · refine le_of_mul_le_mul_right ?_ (pow_pos hunit 2)
    rw [← mul_pow]
    exact hbounds.left
  · refine lt_of_mul_lt_mul_right ?_ (pow_pos hunit 2).le
    rw [← mul_pow, add_mul, one_div_mul_cancel hunit.ne']
    exact hbounds.right

end Exact

theorem toRat_squareRoot_nonneg (x : Rat) (digits : Nat) :
    0 ≤ toRat (squareRoot x digits) digits := by
  rw [toRat_eq_div]
  positivity

theorem toRat_squareRoot_sq {t : Rat} {digits : Nat} (hword : 2 * digits < 2 ^ 32) {k : Int}
    (ht : t = k / 10 ^ digits) :
    toRat (squareRoot (t ^ 2) digits) digits = |t| := by
  have hunit : (0 : Rat) < 10 ^ digits := by positivity
  have hk : (k : Rat) = t * 10 ^ digits := by rw [ht, div_mul_cancel₀ _ hunit.ne']
  have hroot : |k| = (squareRoot (t ^ 2) digits : Int) := by
    refine (eq_squareRoot_iff (sq_nonneg t) hword |k|).mp ⟨abs_nonneg k, ?_⟩
    have hsquare : t ^ 2 * 10 ^ (2 * digits) = (|k| : Int) ^ 2 := by
      rw [Int.cast_abs, sq_abs, hk, Nat.mul_comm 2 digits, pow_mul, mul_pow]
    rw [hsquare]
    refine ⟨le_rfl, ?_⟩
    have hnonneg : (0 : Rat) ≤ (|k| : Int) := Int.cast_nonneg (abs_nonneg k)
    nlinarith
  rw [← hroot, toRat_eq_div, cast_unit (by omega), Int.cast_abs, ht, abs_div, abs_of_pos hunit]

end FixedPoint

namespace Power

open FixedPoint

theorem squareRoot_of_nonneg {x : Rat} (hx : 0 ≤ x) :
    squareRoot x = .ok (toRat (FixedPoint.squareRoot x workingDigits) workingDigits) := by
  rw [squareRoot, if_neg (not_lt.mpr hx)]

/-- On every scale Newton's iteration ends without dividing by zero, and what it ends at is neither
raised nor lowered. If twice the digits fit a word, it is the only integer that is not negative and
next to the root from below. The square root of a value is therefore less than one unit of its last
place below the real one, does not decrease, and is exact where the real one is a fixed-point
number. -/
theorem squareRoot_is_floor {x : Rat} (hx : 0 ≤ x) (digits : Nat) :
    (exists root, FixedPoint.squareRoot x digits = root ∧ x.den ≠ 0 ∧
      Descends (radicand x digits) x.den (newtonStart (radicand x digits) x.den) root ∧
      ¬ (root + 1) * (root + 1) * x.den ≤ radicand x digits ∧
      ¬ radicand x digits < root * root * x.den ∧
      (2 * digits < 2 ^ 32 -> forall y : Int, (0 ≤ y ∧ (y : Rat) ^ 2 ≤ x * 10 ^ (2 * digits) ∧
        x * 10 ^ (2 * digits) < ((y : Rat) + 1) ^ 2) ↔ y = root)) ∧
    exists s, squareRoot x = .ok s ∧ 0 ≤ s ∧ s ^ 2 ≤ x ∧ x < (s + 1 / 10 ^ 60) ^ 2 ∧
      (forall x', x ≤ x' -> exists s', squareRoot x' = .ok s' ∧ s ≤ s') ∧
      forall (t : Rat) (k : Int), t = k / 10 ^ 60 -> x = t ^ 2 -> s = |t| := by
  have hfloor := isFloorRoot_squareRoot x digits
  have hworking : 2 * workingDigits < 2 ^ 32 := by decide
  rcases toRat_squareRoot_bounds hx hworking with ⟨hle, hlt⟩
  constructor
  · exact ⟨_, rfl, x.den_ne_zero, (descends_iff x.den_pos).mpr (squareRoot_eq x digits),
      Nat.not_le.mpr hfloor.lt, Nat.not_lt.mpr hfloor.le, eq_squareRoot_iff hx⟩
  refine ⟨_, squareRoot_of_nonneg hx, toRat_squareRoot_nonneg x workingDigits, hle, hlt, ?_, ?_⟩
  · intro x' hle'
    refine ⟨_, squareRoot_of_nonneg (hx.trans hle'), ?_⟩
    rw [toRat_eq_div, toRat_eq_div]
    have hmono := squareRoot_le_squareRoot hx hworking hle'
    gcongr
  · rintro t k ht rfl
    exact toRat_squareRoot_sq hworking ht

/-- The root of two with twenty digits, and a root that is not less. -/
theorem squareRoot_is_floor_two : (0 : Rat) ≤ 2 ∧ 2 * 20 < 2 ^ 32 ∧
    FixedPoint.squareRoot 2 20 = 141421356237309504880 ∧
    exists s, squareRoot 2 = .ok s ∧ s ^ 2 ≤ 2 ∧
      exists s', squareRoot (25 / 4) = .ok s' ∧ s ≤ s' := by
  have hx : (0 : Rat) ≤ 2 := by norm_num
  rcases squareRoot_is_floor hx 20 with
    ⟨⟨_, rfl, _, _, _, _, hroot⟩, s, hs, _, hle, _, hmono, _⟩
  rcases hmono (25 / 4) (by norm_num) with ⟨s', hs', hle'⟩
  have hword : 2 * 20 < 2 ^ 32 := by decide
  have hdigits := (hroot hword 141421356237309504880).mp ⟨by norm_num, by norm_num, by norm_num⟩
  exact ⟨hx, hword, by exact_mod_cast hdigits.symm, s, hs, hle, s', hs', hle'⟩

/-- Where the word starts over again, one is the unit, and the root of one is one with any number
of digits. -/
theorem squareRoot_one_of_eq {digits : Nat} (h : 2 * digits = 2 ^ 32) :
    FixedPoint.squareRoot 1 digits = 1 := by
  have hradicand : radicand 1 digits = 1 := by
    rw [radicand, unit_of_eq h]
    rfl
  have hroot := (isFloorRoot_iff_eq_sqrt (1 : Rat).den_pos).mp (isFloorRoot_squareRoot 1 digits)
  rw [hroot, hradicand]
  rfl

theorem four_le_ten_pow {places : Nat} (h : 0 < places) :
    ((1 : Rat) + 1) ^ 2 ≤ 1 * 10 ^ places := by
  have hten : (10 : Rat) ≤ 10 ^ places := le_self_pow₀ (by norm_num) h.ne'
  norm_num
  linarith

/-- At the end of the word the root is computed to be one, and the next integer is not above the
root either. -/
theorem squareRoot_wrapped :
    FixedPoint.squareRoot 1 2147483648 = 1 ∧ ((1 : Rat) + 1) ^ 2 ≤ 1 * 10 ^ (2 * 2147483648) :=
  ⟨squareRoot_one_of_eq (by decide), four_le_ten_pow (by decide)⟩

end Power
end AngleCalc
