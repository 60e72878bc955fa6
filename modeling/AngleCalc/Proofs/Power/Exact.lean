import AngleCalc.Proofs.FixedPoint.SquareRoot
import Mathlib.Algebra.BigOperators.Group.List.Basic
import Mathlib.Data.Rat.Lemmas
import Mathlib.Algebra.Order.Field.Rat
import Mathlib.Tactic.Ring

/-!
# Exact powers

Repeated squaring keeps the product of what is multiplied already and of what the base and the
exponent still stand for. So a power with a small exponent is the product of its factors, or the
reciprocal of one, and it is not larger than the exponent allows.
-/

namespace AngleCalc
namespace Power

open FixedPoint

/-!
## Repeated squaring
-/

theorem powerLoop_eq (acc base : Rat) (n : Nat) : powerLoop acc base n = acc * base ^ n := by
  induction acc, base, n using powerLoop.induct with
  | case1 acc base => rw [powerLoop, if_pos rfl, pow_zero, mul_one]
  | case2 acc base n hn ih =>
      simp only [dite_eq_ite] at ih
      have hfactor : (if n % 2 = 1 then acc * base else acc) = acc * base ^ (n % 2) := by
        rcases Nat.mod_two_eq_zero_or_one n with hmod | hmod <;> simp [hmod]
      -- In the last round the base is not squared, but no factor is left to take.
      have hsquares : (if 0 < n / 2 then base * base else base) ^ (n / 2) =
          base ^ (2 * (n / 2)) := by
        split
        · rw [← pow_two, pow_mul]
        · rename_i hzero
          rw [Nat.eq_zero_of_not_pos hzero, Nat.mul_zero, pow_zero]
      rw [powerLoop, if_neg hn, ih, hfactor, hsquares, mul_assoc, ← pow_add, Nat.mod_add_div]

theorem natPower_eq_pow (x : Rat) (n : Nat) : natPower x n = x ^ n := by
  rw [natPower, powerLoop_eq, one_mul]

theorem intPower_eq (x : Rat) (n : Int) :
    intPower x n = if x = 0 ∧ n < 0 then .error .divisionByZero else .ok (x ^ n) := by
  unfold intPower
  cases n with
  | ofNat n =>
      have hsign : 0 ≤ Int.ofNat n := Int.natCast_nonneg n
      simp only [natPower_eq_pow, if_pos hsign, Int.not_lt.mpr hsign, and_false, if_false]
      rfl
  | negSucc n =>
      have hsign : Int.negSucc n < 0 := Int.negSucc_lt_zero n
      simp only [natPower_eq_pow, Int.not_le.mpr hsign, if_false, hsign, and_true,
        Int.natAbs_negSucc, pow_eq_zero_iff (Nat.succ_ne_zero n), zpow_negSucc]

/-!
## The size of a power
-/

theorem bitSize_le_iff {x : Rat} {k : Nat} :
    bitSize x ≤ k ↔ x.num.natAbs < 2 ^ k ∧ x.den < 2 ^ k := by
  rw [bitSize, Nat.max_le, bitLength_le_iff, bitLength_le_iff]

theorem bitSize_pow_le (x : Rat) {n : Nat} (hn : n ≠ 0) : bitSize (x ^ n) ≤ n * bitSize x := by
  rcases bitSize_le_iff.mp (le_refl (bitSize x)) with ⟨hnum, hden⟩
  rw [bitSize_le_iff, Rat.num_pow, Rat.den_pow, Int.natAbs_pow, Nat.mul_comm, Nat.pow_mul]
  exact ⟨Nat.pow_lt_pow_left hnum hn, Nat.pow_lt_pow_left hden hn⟩

theorem bitSize_inv_le (x : Rat) : bitSize x⁻¹ ≤ bitSize x := by
  by_cases hx : x = 0
  · rw [hx, inv_zero]
  · have hnum : x⁻¹.num.natAbs = x.den := by
      rw [Rat.num_inv, Int.natAbs_mul, Int.natAbs_sign_of_ne_zero (Rat.num_ne_zero.mpr hx),
        Nat.one_mul, Int.natAbs_natCast]
    have hden : x⁻¹.den = x.num.natAbs := by
      rw [Rat.den_inv, if_neg (Rat.num_ne_zero.mpr hx)]
    rw [bitSize, bitSize, hnum, hden, Nat.max_comm]

theorem bitSize_zpow_le (x : Rat) {n : Int} (hn : n ≠ 0) :
    bitSize (x ^ n) ≤ n.natAbs * bitSize x := by
  cases n with
  | ofNat n => exact bitSize_pow_le x (fun hzero => hn (congrArg Int.ofNat hzero))
  | negSucc n =>
      rw [zpow_negSucc]
      exact (bitSize_inv_le _).trans (bitSize_pow_le x (Nat.succ_ne_zero n))

/-!
## The window of exact powers
-/

def InWindow (x : Rat) (n : Int) : Prop :=
  n.natAbs ≤ 1024 ∧ n.natAbs * max (bitLength x.num.natAbs) (bitLength x.den) ≤ 65536

/-- The limits of 64 bits do not matter for the window. -/
theorem isExact_iff (x : Rat) (n : Int) : isExact x n = true ↔ InWindow x n := by
  have hword : n.natAbs ≤ maxExponent -> isWord n = true := by
    intro hle
    have hle : n.natAbs ≤ 1024 := hle
    simp only [isWord, Bool.and_eq_true, decide_eq_true_eq, Int64.toInt_minValue,
      Int64.toInt_maxValue]
    omega
  have hproduct : saturatingProduct n.natAbs (bitSize x) ≤ maxBits ↔
      n.natAbs * bitSize x ≤ maxBits := by
    unfold saturatingProduct maxBits UInt64.size
    split <;> omega
  simp only [isExact, Bool.and_eq_true, decide_eq_true_eq, hproduct]
  constructor
  · rintro ⟨⟨_, hle⟩, hsize⟩
    exact ⟨hle, hsize⟩
  · rintro ⟨hle, hsize⟩
    exact ⟨⟨hword hle, hle⟩, hsize⟩

theorem power_intCast_of_inWindow {x : Rat} {n : Int} (h : InWindow x n) :
    power x n = if x = 0 ∧ n < 0 then .error .divisionByZero else .ok (x ^ n) := by
  have hexact : (n : Rat).den = 1 ∧ isExact x (n : Rat).num = true := by
    rw [Rat.num_intCast]
    exact ⟨Rat.den_intCast n, (isExact_iff x n).mpr h⟩
  rw [power, if_pos hexact, Rat.num_intCast, intPower_eq]

theorem bitSize_zpow_of_inWindow {x : Rat} {n : Int} (h : InWindow x n) :
    bitSize (x ^ n) ≤ 65536 := by
  by_cases hn : n = 0
  · rw [hn, zpow_zero]
    decide
  · exact (bitSize_zpow_le x hn).trans h.right

/-- In the window a power is a division by zero or the exact one. The exact one is in lowest terms
and not larger than the window allows. It is made of a product of factors, and it turns a sum of
exponents into a product of powers. -/
theorem power_eq_zpow {x : Rat} {n : Int} (h : InWindow x n) :
    power x n = (if x = 0 ∧ n < 0 then .error .divisionByZero else .ok (x ^ n)) ∧
      (0 < (x ^ n).den ∧ (x ^ n).num.natAbs.Coprime (x ^ n).den ∧
        bitLength (x ^ n).num.natAbs ≤ 65536 ∧ bitLength (x ^ n).den ≤ 65536) ∧
      (forall (base : Rat) (m : Nat), natPower base m = (List.replicate m base).prod) ∧
      forall k l : Int, x ≠ 0 -> n = k + l -> InWindow x k -> InWindow x l ->
        exists p q, power x k = .ok p ∧ power x l = .ok q ∧ power x n = .ok (p * q) := by
  have hnonzero : forall k : Int, x ≠ 0 -> InWindow x k -> power x k = .ok (x ^ k) := by
    intro k hx hk
    rw [power_intCast_of_inWindow hk, if_neg (fun hboth => hx hboth.left)]
  refine ⟨power_intCast_of_inWindow h, ⟨(x ^ n).den_pos, (x ^ n).reduced, ?_⟩, ?_, ?_⟩
  · exact Nat.max_le.mp (bitSize_zpow_of_inWindow h)
  · intro base m
    rw [natPower_eq_pow, List.prod_replicate]
  · rintro k l hx rfl hk hl
    refine ⟨x ^ k, x ^ l, hnonzero k hx hk, hnonzero l hx hl, ?_⟩
    rw [hnonzero _ hx h, zpow_add₀ hx]

/-- A negative base with a negative exponent, which is the sum of two exponents. -/
theorem power_eq_zpow_negative : InWindow (-3 / 2) (-3) ∧
    power (-3 / 2) (-3 : Int) = .ok (-8 / 27) ∧
    exists p q, power (-3 / 2) (2 : Int) = .ok p ∧ power (-3 / 2) (-5 : Int) = .ok q ∧
      p * q = -8 / 27 := by
  have hwindow : InWindow (-3 / 2) (-3) ∧ InWindow (-3 / 2) 2 ∧ InWindow (-3 / 2) (-5) := by
    unfold InWindow
    decide +kernel
  rcases hwindow with ⟨h, hleft, hright⟩
  rcases power_eq_zpow h with ⟨hpower, _, _, hsum⟩
  have hvalue : (-3 / 2 : Rat) ^ (-3 : Int) = -8 / 27 := by norm_num
  rw [if_neg (by norm_num), hvalue] at hpower
  rcases hsum 2 (-5) (by norm_num) (by norm_num) hleft hright with ⟨p, q, hp, hq, hproduct⟩
  rw [hpower] at hproduct
  exact ⟨h, hpower, p, q, hp, hq, (Except.ok.inj hproduct).symm⟩

end Power
end AngleCalc
