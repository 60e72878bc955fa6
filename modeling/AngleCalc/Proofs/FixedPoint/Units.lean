import AngleCalc.FixedPoint.Basic
import Mathlib.Algebra.Order.Ring.Rat
import Mathlib.Tactic.NormNum

/-!
# Units of the last place

The exponent of a power of ten is held in a word of 32 bits. Every number of digits below `2 ^ 32`
has its power of ten, and no number of digits has a larger one than its own.
-/

namespace AngleCalc
namespace FixedPoint

theorem unit_eq_pow_mod (digits : Nat) : unit digits = 10 ^ (digits % 2 ^ 32) :=
  rfl

theorem unit_pos (digits : Nat) : 0 < unit digits :=
  Nat.pow_pos (by decide)

theorem unit_ne_zero (digits : Nat) : (unit digits : Rat) ≠ 0 :=
  Nat.cast_ne_zero.mpr (Nat.ne_of_gt (unit_pos digits))

theorem unit_dvd_pow (digits : Nat) : unit digits ∣ 10 ^ digits :=
  Nat.pow_dvd_pow 10 (Nat.mod_le digits _)

theorem unit_le_pow (digits : Nat) : unit digits ≤ 10 ^ digits :=
  Nat.le_of_dvd (Nat.pow_pos (by decide)) (unit_dvd_pow digits)

/-- The word starts over again at its size. -/
theorem unit_add_size (digits : Nat) : unit (digits + 2 ^ 32) = unit digits := by
  rw [unit_eq_pow_mod, unit_eq_pow_mod, Nat.add_mod_right]

theorem unit_of_eq {digits : Nat} (h : digits = 2 ^ 32) : unit digits = 1 := by
  rw [h, ← Nat.zero_add (2 ^ 32), unit_add_size, unit_eq_pow_mod, Nat.zero_mod, Nat.pow_zero]

section Exact

variable {digits more : Nat}

theorem unit_of_lt (h : digits < 2 ^ 32) : unit digits = 10 ^ digits := by
  rw [unit_eq_pow_mod, Nat.mod_eq_of_lt h]

theorem cast_unit (h : digits < 2 ^ 32) : (unit digits : Rat) = 10 ^ digits := by
  rw [unit_of_lt h, Nat.cast_pow, Nat.cast_ofNat]

theorem unit_add (h : digits + more < 2 ^ 32) : unit (digits + more) = unit digits * unit more := by
  rw [unit_of_lt h, unit_of_lt (Nat.lt_of_add_right_lt h), unit_of_lt (Nat.lt_of_add_left_lt h),
    Nat.pow_add]

theorem tenPower_of_lt {exponent : Int} (h : exponent.natAbs < 2 ^ 32) :
    tenPower exponent = 10 ^ exponent := by
  rw [tenPower, cast_unit h]
  split
  · rename_i hneg
    rw [← zpow_natCast, ← zpow_neg, Int.ofNat_natAbs_of_nonpos (Int.le_of_lt hneg), Int.neg_neg]
  · rename_i hneg
    rw [← zpow_natCast, Int.natAbs_of_nonneg (Int.not_lt.mp hneg)]

end Exact

end FixedPoint
end AngleCalc
