import AngleCalc.Proofs.FixedPoint.Rounding
import AngleCalc.Proofs.Loops
import Mathlib.Data.Nat.Prime.Basic
import Mathlib.Order.Bounds.Defs

/-!
# The length of an expansion

A denominator divides a power of ten if and only if nothing is left of it once the twos and
the fives are divided out, and the power it needs is the larger one of their numbers. So the
length that is found for an expansion is the least number of digits that are enough for it.
A denominator is not zero, so the twos and the fives come to an end.
-/

namespace AngleCalc
namespace Decimal

open FixedPoint

/-!
## Factors
-/

/-- What is left, behind the count of divisions, is a multiple of `p`. -/
def IsMultiple (p : Nat) (state : Nat × Nat) : Prop :=
  state.2 % p = 0

def divideOnce (p : Nat) (state : Nat × Nat) : Nat × Nat :=
  (state.1 + 1, state.2 / p)

theorem loops_divideOut {p n : Nat} (hp : 1 < p) (hn : 0 < n) (count : Nat) :
    Loops (IsMultiple p) (divideOnce p) (count, n) (divideOut p n count) := by
  induction n, count using divideOut.induct p with
  | case1 n count h ih =>
      have hquotient : 0 < n / p :=
        Nat.div_pos (Nat.le_of_dvd h.2.1 (Nat.dvd_of_mod_eq_zero h.2.2)) (by omega)
      rw [divideOut, dif_pos h]
      exact .step h.2.2 (ih hquotient)
  | case2 n count h =>
      rw [divideOut, dif_neg h]
      exact .stop (fun hmultiple => h ⟨hp, hn, hmultiple⟩)

theorem not_dvd_divideOut {p n : Nat} (hp : 1 < p) (hn : 0 < n) (count : Nat) :
    ¬ p ∣ (divideOut p n count).2 := by
  induction n, count using divideOut.induct p with
  | case1 n count h ih =>
      rw [divideOut, dif_pos h]
      exact ih (Nat.div_pos (Nat.le_of_dvd h.2.1 (Nat.dvd_of_mod_eq_zero h.2.2)) (by omega))
  | case2 n count h =>
      rw [divideOut, dif_neg h]
      exact fun hdvd => h ⟨hp, hn, Nat.mod_eq_zero_of_dvd hdvd⟩

theorem divideOut_parts {p n count rest : Nat} (hp : 1 < p) (hn : 0 < n)
    (h : divideOut p n 0 = (count, rest)) : p ^ count * rest = n ∧ 0 < rest ∧ ¬ p ∣ rest := by
  have hproduct := divideOut_mul p n 0
  have hrest := not_dvd_divideOut hp hn 0
  rw [Nat.pow_zero, Nat.one_mul, h] at hproduct
  rw [h] at hrest
  exact ⟨hproduct, Nat.pos_of_ne_zero (fun hzero => hrest (hzero ▸ Nat.dvd_zero p)), hrest⟩

theorem le_of_two_pow_dvd {twos digits : Nat} (h : 2 ^ twos ∣ 10 ^ digits) : twos ≤ digits := by
  rw [ten_pow_eq_mul] at h
  have hcoprime : Nat.Coprime (2 ^ twos) (5 ^ digits) := Nat.Coprime.pow _ _ (by decide)
  exact (Nat.pow_dvd_pow_iff_le_right (by decide)).mp (hcoprime.dvd_of_dvd_mul_right h)

theorem le_of_five_pow_dvd {fives digits : Nat} (h : 5 ^ fives ∣ 10 ^ digits) :
    fives ≤ digits := by
  rw [ten_pow_eq_mul] at h
  have hcoprime : Nat.Coprime (5 ^ fives) (2 ^ digits) := Nat.Coprime.pow _ _ (by decide)
  exact (Nat.pow_dvd_pow_iff_le_right (by decide)).mp (hcoprime.dvd_of_dvd_mul_left h)

theorem eq_one_of_dvd_ten_pow {rest digits : Nat} (htwo : ¬ 2 ∣ rest) (hfive : ¬ 5 ∣ rest)
    (h : rest ∣ 10 ^ digits) : rest = 1 := by
  have htwos : Nat.Coprime rest 2 :=
    Nat.Coprime.symm ((Nat.Prime.coprime_iff_not_dvd Nat.prime_two).mpr htwo)
  have hfives : Nat.Coprime rest 5 :=
    Nat.Coprime.symm ((Nat.Prime.coprime_iff_not_dvd Nat.prime_five).mpr hfive)
  rw [ten_pow_eq_mul] at h
  exact ((htwos.pow_right digits).mul_right (hfives.pow_right digits)).eq_one_of_dvd h

/-!
## The least number of digits
-/

theorem exists_terminatingDigits? {x : Rat} {digits : Nat} (h : x.den ∣ 10 ^ digits) :
    exists places, terminatingDigits? x = some places ∧ places ≤ digits := by
  rcases htwos : divideOut 2 x.den 0 with ⟨twos, odd⟩
  rcases hfives : divideOut 5 odd 0 with ⟨fives, rest⟩
  rcases divideOut_parts (by decide) x.den_pos htwos with ⟨hden, hpos, hodd⟩
  rcases divideOut_parts (by decide) hpos hfives with ⟨hproduct, _, hrest⟩
  have hoddDvd : odd ∣ 10 ^ digits := (Dvd.intro_left _ hden).trans h
  have hone : rest = 1 := by
    have htwo : ¬ 2 ∣ rest := fun hdvd => hodd (hdvd.trans (Dvd.intro_left _ hproduct))
    exact eq_one_of_dvd_ten_pow htwo hrest ((Dvd.intro_left _ hproduct).trans hoddDvd)
  refine ⟨max twos fives, ?_, Nat.max_le.mpr ⟨?_, ?_⟩⟩
  · simp only [terminatingDigits?, htwos, hfives, if_pos hone]
  · exact le_of_two_pow_dvd ((Dvd.intro _ hden).trans h)
  · exact le_of_five_pow_dvd ((Dvd.intro _ hproduct).trans hoddDvd)

/-- The length of an expansion that ends is the least number of digits that are enough. -/
theorem terminatingDigits?_eq_some_iff {x : Rat} {digits : Nat} :
    terminatingDigits? x = some digits ↔
      x.den ∣ 10 ^ digits ∧ forall fewer, x.den ∣ 10 ^ fewer -> digits ≤ fewer := by
  constructor
  · intro h
    refine ⟨den_dvd_of_terminatingDigits? h, ?_⟩
    intro fewer hfewer
    rcases exists_terminatingDigits? hfewer with ⟨places, hplaces, hle⟩
    rw [h] at hplaces
    rwa [Option.some.inj hplaces]
  · rintro ⟨hdvd, hleast⟩
    rcases exists_terminatingDigits? hdvd with ⟨places, hplaces, hle⟩
    rw [hplaces, Nat.le_antisymm hle (hleast places (den_dvd_of_terminatingDigits? hplaces))]

theorem den_dvd_ten_pow_iff {x : Rat} {digits : Nat} :
    x.den ∣ 10 ^ digits ↔ exists n : Int, x = n / 10 ^ digits := by
  rw [den_dvd_iff (pow_ne_zero digits (by decide))]
  push_cast
  rfl

/-!
## Exact expansions
-/

theorem den_dvd_ten_pow_iff_mul {x : Rat} {digits : Nat} :
    x.den ∣ 10 ^ digits ↔ exists n : Int, 10 ^ digits * x = n := by
  have hunit : (10 : Rat) ^ digits ≠ 0 := pow_ne_zero _ (by norm_num)
  rw [den_dvd_ten_pow_iff]
  apply exists_congr
  intro n
  rw [eq_div_iff hunit, mul_comm]

/-- The twos and the fives of a denominator are divided out in finitely many steps. The length
of an expansion is found if and only if some power of ten makes the number an integer, and it is
the exponent of the least such power. -/
theorem terminatingDigits?_isLeast (x : Rat) :
    (exists twos odd fives rest,
      Loops (IsMultiple 2) (divideOnce 2) (0, x.den) (twos, odd) ∧
      Loops (IsMultiple 5) (divideOnce 5) (0, odd) (fives, rest) ∧
      terminatingDigits? x = if rest = 1 then some (max twos fives) else none) ∧
    ((terminatingDigits? x).isSome = true ↔
      exists (digits : Nat) (n : Int), 10 ^ digits * x = n) ∧
    forall digits, terminatingDigits? x = some digits ↔
      IsLeast {enough : Nat | exists n : Int, 10 ^ enough * x = n} digits := by
  refine ⟨?_, ?_, ?_⟩
  · rcases htwos : divideOut 2 x.den 0 with ⟨twos, odd⟩
    rcases hfives : divideOut 5 odd 0 with ⟨fives, rest⟩
    have hodd := (divideOut_parts (by decide) x.den_pos htwos).right.left
    refine ⟨twos, odd, fives, rest, ?_, ?_, ?_⟩
    · rw [← htwos]
      exact loops_divideOut (by decide) x.den_pos 0
    · rw [← hfives]
      exact loops_divideOut (by decide) hodd 0
    · simp only [terminatingDigits?, htwos, hfives]
  · rw [Option.isSome_iff_exists]
    constructor
    · rintro ⟨digits, hdigits⟩
      exact ⟨digits, den_dvd_ten_pow_iff_mul.mp (den_dvd_of_terminatingDigits? hdigits)⟩
    · rintro ⟨digits, hinteger⟩
      rcases exists_terminatingDigits? (den_dvd_ten_pow_iff_mul.mpr hinteger) with
        ⟨places, hplaces, _⟩
      exact ⟨places, hplaces⟩
  · intro digits
    rw [terminatingDigits?_eq_some_iff]
    simp only [den_dvd_ten_pow_iff_mul]
    rfl

end Decimal
end AngleCalc
