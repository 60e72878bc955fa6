import AngleCalc.Proofs.Decimal.Canonical
import Mathlib.Algebra.Order.Floor.Semifield
import Mathlib.Data.Nat.Cast.Order.Field
import Mathlib.Tactic.Linarith

/-!
# Rounding to a number of digits

A number is rounded to the nearest one with the given number of digits after the
point, and from the middle between two of them to the one that is further from zero.
These two rules leave one number only, and it is the one the fixed-point numbers
compute. The number that a canonical text writes is rounded in this way.
-/

namespace AngleCalc

/-- The absolute value that is computed is the one of an ordered field. -/
theorem abs_eq_abs (x : Rat) : x.abs = |x| := by
  rw [Rat.abs]
  split
  · rename_i hnonneg
    exact (abs_of_nonneg hnonneg).symm
  · rename_i hnegative
    exact (abs_of_neg (lt_of_not_ge hnegative)).symm

theorem natCast_div_bounds (a b : Nat) :
    ((a / b : Nat) : Rat) ≤ a / b ∧ (a / b : Rat) < (a / b : Nat) + 1 := by
  refine ⟨Nat.cast_div_le, ?_⟩
  have hfloor : ⌊(a / b : Rat)⌋₊ = a / b := Nat.floor_div_eq_div a b
  rw [← hfloor]
  exact Nat.lt_floor_add_one _

/-!
## The nearest integer
-/

/-- The integer `n` is nearest to `x`, and in the middle of two it is the one further
from zero. -/
structure IsNearest (x : Rat) (n : Int) : Prop where
  error_le : |x - n| ≤ 1 / 2
  away : |x - n| = 1 / 2 -> |x| < |(n : Rat)|

theorem isNearest_roundHalfAway (x : Rat) : IsNearest x (roundHalfAway x) := by
  unfold roundHalfAway
  split
  · rename_i hneg
    have hle := Rat.floor_le (1 / 2 - x)
    have hlt := Rat.lt_floor_add_one (1 / 2 - x)
    push_cast at hlt
    constructor
    · rw [Int.cast_neg, abs_le]
      constructor <;> linarith
    · intro hmiddle
      rw [Int.cast_neg] at hmiddle ⊢
      rw [abs_neg, abs_of_neg hneg]
      refine lt_of_lt_of_le ?_ (le_abs_self _)
      rcases eq_or_eq_neg_of_abs_eq hmiddle with h | h <;> linarith
  · rename_i hneg
    have hle := Rat.floor_le (x + 1 / 2)
    have hlt := Rat.lt_floor_add_one (x + 1 / 2)
    push_cast at hlt
    constructor
    · rw [abs_le]
      constructor <;> linarith
    · intro hmiddle
      rw [abs_of_nonneg (not_lt.mp hneg)]
      refine lt_of_lt_of_le ?_ (le_abs_self _)
      rcases eq_or_eq_neg_of_abs_eq hmiddle with h | h <;> linarith

theorem abs_le_abs_middle {x : Rat} {n : Int} (h : x = n + 1 / 2) :
    |(n : Rat)| ≤ |x| ∨ |((n + 1 : Int) : Rat)| ≤ |x| := by
  rcases le_or_gt 0 n with hn | hn
  · left
    have hpos : (0 : Rat) ≤ n := Int.cast_nonneg hn
    rw [abs_of_nonneg hpos, abs_of_nonneg (by linarith)]
    linarith
  · right
    have hneg : ((n + 1 : Int) : Rat) ≤ 0 := Int.cast_nonpos.mpr hn
    rw [abs_of_nonpos hneg]
    push_cast at hneg ⊢
    exact le_trans (by linarith) (neg_le_abs x)

theorem IsNearest.le {x : Rat} {n m : Int} (hn : IsNearest x n) (hm : IsNearest x m) :
    m ≤ n := by
  by_contra hlt
  have hstep : n + 1 ≤ m := by omega
  have hcast : (n : Rat) + 1 ≤ m := by exact_mod_cast hstep
  have hleft := (abs_le.mp hn.error_le).right
  have hright := (abs_le.mp hm.error_le).left
  -- The distance of both leaves no choice: they are neighbours, and `x` is their middle.
  have hmiddle : x = n + 1 / 2 := by linarith
  have hsucc : m = n + 1 := by
    have hle : (m : Rat) ≤ n + 1 := by linarith
    have hle : m ≤ n + 1 := by exact_mod_cast hle
    omega
  subst hsucc
  have hhalf : |(1 / 2 : Rat)| = 1 / 2 := abs_of_pos (by norm_num)
  have hawayLeft := hn.away (by rw [hmiddle, add_sub_cancel_left, hhalf])
  have hawayRight := hm.away (by
    rw [hmiddle, abs_sub_comm]
    push_cast
    rw [show (n : Rat) + 1 - (n + 1 / 2) = 1 / 2 by ring, hhalf])
  rcases abs_le_abs_middle hmiddle with h | h
  · exact absurd hawayLeft (not_lt.mpr h)
  · exact absurd hawayRight (not_lt.mpr h)

theorem IsNearest.unique {x : Rat} {n m : Int} (hn : IsNearest x n) (hm : IsNearest x m) :
    n = m :=
  le_antisymm (hm.le hn) (hn.le hm)

theorem isNearest_iff {x : Rat} {n : Int} : IsNearest x n ↔ n = roundHalfAway x := by
  constructor
  · exact fun h => h.unique (isNearest_roundHalfAway x)
  · rintro rfl
    exact isNearest_roundHalfAway x

theorem isNearest_intCast (n : Int) : IsNearest n n :=
  isNearest_iff.mpr (FixedPoint.roundHalfAway_intCast n).symm

theorem IsNearest.neg {x : Rat} {n : Int} (h : IsNearest x n) : IsNearest (-x) (-n) := by
  have hdistance : |-x - ((-n : Int) : Rat)| = |x - n| := by
    rw [Int.cast_neg, ← neg_sub', abs_neg]
  constructor
  · rw [hdistance]
    exact h.error_le
  · rw [hdistance, Int.cast_neg, abs_neg, abs_neg]
    exact h.away

theorem IsNearest.mono {x : Rat} {n low high : Int} (h : IsNearest x n) (hlow : low ≤ x)
    (hhigh : x ≤ high) : low ≤ n ∧ n ≤ high := by
  have herror := abs_le.mp h.error_le
  have hlower : (low : Rat) < n + 1 := by linarith
  have hupper : (n : Rat) < high + 1 := by linarith
  have hlower : low < n + 1 := by exact_mod_cast hlower
  have hupper : n < high + 1 := by exact_mod_cast hupper
  omega

namespace FixedPoint

/-!
## The nearest number with some digits
-/

/-- The number `y` is `x` rounded to `digits` digits after the point, a half going away
from zero. -/
def RoundsTo (x : Rat) (digits : Nat) (y : Rat) : Prop :=
  exists n : Int, IsNearest (x * 10 ^ digits) n ∧ y = n / 10 ^ digits

theorem isNearest_mul_unit (x : Rat) (digits : Nat) :
    IsNearest (x * unit digits) (nearest x digits) :=
  isNearest_roundHalfAway _

theorem isNearest_nearest (x : Rat) {digits : Nat} (h : digits < 2 ^ 32) :
    IsNearest (x * 10 ^ digits) (nearest x digits) := by
  rw [← cast_unit h]
  exact isNearest_mul_unit x digits

theorem roundsTo_nearest (x : Rat) {digits : Nat} (h : digits < 2 ^ 32) :
    RoundsTo x digits (toRat (nearest x digits) digits) := by
  refine ⟨nearest x digits, isNearest_nearest x h, ?_⟩
  rw [toRat_eq_div, cast_unit h]

theorem RoundsTo.unique {x y z : Rat} {digits : Nat} (hy : RoundsTo x digits y)
    (hz : RoundsTo x digits z) : y = z := by
  rcases hy with ⟨n, hn, rfl⟩
  rcases hz with ⟨m, hm, rfl⟩
  rw [hn.unique hm]

/-- Rounding keeps the numbers that have no more digits and no others. -/
theorem RoundsTo.eq_self_iff {x y : Rat} {digits : Nat} (h : RoundsTo x digits y) :
    y = x ↔ exists n : Int, x = n / 10 ^ digits := by
  have hunit : (10 : Rat) ^ digits ≠ 0 := pow_ne_zero _ (by norm_num)
  rcases h with ⟨n, hnearest, rfl⟩
  constructor
  · intro hself
    exact ⟨n, hself.symm⟩
  · rintro ⟨m, rfl⟩
    rw [div_mul_cancel₀ _ hunit] at hnearest
    rw [hnearest.unique (isNearest_intCast m)]

end FixedPoint

namespace Decimal

theorem roundsTo_rounded (x : Rat) : FixedPoint.RoundsTo x canonicalDigits (rounded x) := by
  have hplaces : canonicalPlaces x = canonicalDigits ∨
      x.den ∣ 10 ^ canonicalPlaces x := by
    unfold canonicalPlaces
    split
    · rename_i hterminates
      split
      · exact .inr (den_dvd_of_terminatingDigits? hterminates)
      · exact .inl rfl
    · exact .inl rfl
  rcases hplaces with hplaces | hden
  · rw [rounded, hplaces]
    exact FixedPoint.roundsTo_nearest x (by decide)
  · -- A number that is written in full has at most as many digits as it may have.
    have hlong : x.den ∣ 10 ^ canonicalDigits :=
      hden.trans (Nat.pow_dvd_pow 10 (canonicalPlaces_le x))
    have hword : canonicalDigits < 2 ^ 32 := by decide
    rcases FixedPoint.exists_toRat (canonicalPlaces_lt x) hden with ⟨n, hn⟩
    rcases FixedPoint.exists_toRat hword hlong with ⟨m, hm⟩
    have hrounded : rounded x = x := by
      have hnearest : FixedPoint.nearest x (canonicalPlaces x) = n :=
        (congrArg (fun y => FixedPoint.nearest y (canonicalPlaces x)) hn).trans
          (FixedPoint.nearest_toRat n _)
      rw [rounded, hnearest, ← hn]
    have hself := FixedPoint.roundsTo_nearest x hword
    rw [hm, FixedPoint.nearest_toRat, ← hm] at hself
    rwa [hrounded]

end Decimal
end AngleCalc
