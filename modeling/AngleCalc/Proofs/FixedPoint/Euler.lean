import AngleCalc.FixedPoint.Euler
import AngleCalc.Proofs.FixedPoint.Rounding
import AngleCalc.Proofs.Loops
import Mathlib.Analysis.Complex.Exponential
import Mathlib.Topology.Algebra.InfiniteSum.Basic

/-!
# The error of e

Each term is the term before it divided by the next number and rounded down. Rounding down at
every step is rounding down once, so a term is the unit divided by a factorial, and the terms that
are added are all that do not vanish. Each of them is off by less than one unit of the last guard
digit, and the terms that vanish are no more than two units together. Nothing is rounded up, so
dividing the guard digits away leaves a number that is not above the series and less than two
units of its last digit below it.
-/

namespace AngleCalc
namespace FixedPoint

def inverseFactorialSum (n : Nat) : Rat :=
  ∑ k ∈ Finset.range (n + 1), 1 / k.factorial

/-!
## The loop over the terms
-/

/-- The state in which the inverse factorials are summed: the number that the term is divided by
next, the term, and the sum of the terms before it. -/
structure InverseSum where
  divisor : Nat
  term : Nat
  sum : Nat

namespace InverseSum

def HasTerm (s : InverseSum) : Prop :=
  s.term ≠ 0

def addTerm (s : InverseSum) : InverseSum where
  divisor := s.divisor + 1
  term := s.term / s.divisor
  sum := s.sum + s.term

/-- A step with the divisor in a machine word, which holds the numbers below `size` and begins
again at zero behind them. -/
def addTermInWord (size : Nat) (s : InverseSum) : InverseSum :=
  { s.addTerm with divisor := (s.divisor + 1) % size }

def start (scale : Nat) : InverseSum :=
  ⟨1, scale, 0⟩

end InverseSum

open InverseSum

theorem loops_factorialTail (term k sum : Nat) :
    exists s, Loops HasTerm addTerm ⟨k + 2, term, sum⟩ s ∧ s.sum = sum + factorialTail term k := by
  induction term, k using factorialTail.induct generalizing sum with
  | case1 k =>
      refine ⟨_, .stop (fun hterm => hterm rfl), ?_⟩
      rw [factorialTail, dif_pos rfl]
      rfl
  | case2 term k hterm ih =>
      rcases ih (sum + term) with ⟨s, hloop, hsum⟩
      refine ⟨s, .step hterm hloop, ?_⟩
      rw [hsum, factorialTail.eq_1 term k, dif_neg hterm, Nat.add_assoc]

theorem loops_inverseFactorials {scale : Nat} (hscale : scale ≠ 0) :
    exists s, Loops HasTerm addTerm (start scale) s ∧ s.sum = inverseFactorials scale := by
  rcases loops_factorialTail scale 0 scale with ⟨s, hloop, hsum⟩
  have hsecond : addTerm (start scale) = ⟨2, scale, scale⟩ := by
    simp only [start, addTerm, Nat.div_one, Nat.zero_add]
  refine ⟨s, .step hscale ?_, hsum⟩
  rw [hsecond]
  exact hloop

theorem loops_addTermInWord {size : Nat} {s t : InverseSum} (h : Loops HasTerm addTerm s t)
    (hsize : t.divisor < size) :
    Loops HasTerm (addTermInWord size) s t ∧ s.divisor ≤ t.divisor := by
  induction h with
  | stop hstop => exact ⟨.stop hstop, le_rfl⟩
  | @step s t hterm _ ih =>
      rcases ih hsize with ⟨hloop, hle⟩
      have hnext : s.divisor + 1 ≤ t.divisor := hle
      have hsame : addTermInWord size s = addTerm s := by
        rw [addTermInWord, Nat.mod_eq_of_lt (hnext.trans_lt hsize)]
        rfl
      refine ⟨.step hterm ?_, (Nat.le_succ _).trans hnext⟩
      rw [hsame]
      exact hloop

/-!
## What is added
-/

section Terms

variable {scale k last : Nat} {s : InverseSum}

/-- What is kept while the inverse factorials are summed: the terms before the index `k` have been
added, and none of them vanished. -/
structure IsInverseSum (scale k : Nat) (s : InverseSum) : Prop where
  divisor_eq : s.divisor = k + 1
  term_eq : s.term = scale / k.factorial
  sum_eq : s.sum = ∑ i ∈ Finset.range k, scale / i.factorial
  factorial_le : forall i, i < k -> i.factorial ≤ scale

theorem isInverseSum_start (scale : Nat) : IsInverseSum scale 0 (start scale) where
  divisor_eq := rfl
  term_eq := (Nat.div_one scale).symm
  sum_eq := rfl
  factorial_le _ h := absurd h (Nat.not_lt_zero _)

theorem isInverseSum_addTerm (h : IsInverseSum scale k s) (hterm : HasTerm s) :
    IsInverseSum scale (k + 1) (addTerm s) := by
  constructor
  · exact congrArg Nat.succ h.divisor_eq
  · -- Rounding down twice is rounding down once.
    change s.term / s.divisor = scale / (k + 1).factorial
    rw [h.term_eq, h.divisor_eq, Nat.div_div_eq_div_mul, Nat.mul_comm, Nat.factorial_succ]
  · change s.sum + s.term = _
    rw [Finset.sum_range_succ, h.sum_eq, h.term_eq]
  · intro i hi
    rcases Nat.lt_succ_iff_lt_or_eq.mp hi with hlt | rfl
    · exact h.factorial_le i hlt
    · have hpos := Nat.pos_of_ne_zero hterm
      rw [h.term_eq] at hpos
      exact (Nat.div_pos_iff.mp hpos).right

/-- Where the terms vanish, all factorials up to the scale have been used. -/
theorem IsInverseSum.isGreatest (h : IsInverseSum scale (last + 1) s) (hstop : ¬ HasTerm s) :
    IsGreatest {k | k.factorial ≤ scale} last := by
  constructor
  · exact h.factorial_le last (Nat.lt_succ_self last)
  · intro k hk
    have hnone : scale / (last + 1).factorial = 0 := h.term_eq.symm.trans (not_not.mp hstop)
    have hlt : scale < (last + 1).factorial :=
      (Nat.div_eq_zero_iff_lt (Nat.factorial_pos _)).mp hnone
    by_contra hgt
    exact absurd (Nat.factorial_le (Nat.lt_of_not_le hgt)) (Nat.not_le.mpr (hk.trans_lt hlt))

theorem isInverseSum_of_loops (hscale : scale ≠ 0) (h : Loops HasTerm addTerm (start scale) s) :
    exists last, IsInverseSum scale (last + 1) s ∧ IsGreatest {k | k.factorial ≤ scale} last := by
  have hbody : forall s, HasTerm s -> (exists k, IsInverseSum scale k s) ->
      exists k, IsInverseSum scale k (addTerm s) := by
    rintro s hterm ⟨k, hk⟩
    exact ⟨k + 1, isInverseSum_addTerm hk hterm⟩
  rcases h.keeps (fun s => exists k, IsInverseSum scale k s) hbody
    ⟨0, isInverseSum_start scale⟩ with ⟨⟨k, hk⟩, hstop⟩
  cases k with
  | zero =>
      -- The first term is the scale itself.
      refine absurd ?_ hstop
      rw [HasTerm, hk.term_eq, Nat.factorial_zero, Nat.div_one]
      exact hscale
  | succ last => exact ⟨last, hk, hk.isGreatest hstop⟩

theorem lt_factorial_of_isGreatest (h : IsGreatest {k | k.factorial ≤ scale} last) {k : Nat}
    (hk : last < k) : scale < k.factorial :=
  Nat.lt_of_not_le fun hle => absurd (h.right hle) (Nat.not_le.mpr hk)

theorem IsInverseSum.hasSum (h : IsInverseSum scale (last + 1) s)
    (hlast : IsGreatest {k | k.factorial ≤ scale} last) :
    HasSum (fun k : Nat => scale / k.factorial) s.sum := by
  rw [h.sum_eq]
  apply hasSum_sum_of_ne_finset_zero
  intro k hk
  rw [Finset.mem_range, Nat.not_lt] at hk
  exact Nat.div_eq_of_lt (lt_factorial_of_isGreatest hlast hk)

end Terms

/-- From the factorial of 32 on a factorial has more digits than its number says. -/
theorem le_of_factorial_le {k digits : Nat} (h : k.factorial ≤ 10 ^ digits) :
    k < 32 ∨ k + 3 < digits := by
  rcases Nat.lt_or_ge k 32 with hk | hk
  · exact .inl hk
  · rcases Nat.exists_eq_add_of_le hk with ⟨j, rfl⟩
    have hlt : 10 ^ (35 + j) < 10 ^ digits :=
      calc
        10 ^ (35 + j) = 10 ^ 35 * 10 ^ j := Nat.pow_add 10 35 j
        _ < Nat.factorial 32 * 10 ^ j :=
          Nat.mul_lt_mul_of_pos_right (by decide) (Nat.pow_pos (by decide))
        _ ≤ Nat.factorial 32 * (32 + 1) ^ j :=
          Nat.mul_le_mul_left _ (Nat.pow_le_pow_left (by decide) j)
        _ ≤ (32 + j).factorial := Nat.factorial_mul_pow_le_factorial
        _ ≤ 10 ^ digits := h
    have hexponent := (Nat.pow_lt_pow_iff_right (by decide)).mp hlt
    omega

/-!
## The error of the sum
-/

section Error

variable {scale last n : Nat}

theorem scale_mul_sum_bounds (scale last : Nat) :
    ((∑ k ∈ Finset.range (last + 1), scale / k.factorial : Nat) : Rat) ≤
        scale * inverseFactorialSum last ∧
      scale * inverseFactorialSum last ≤
        (∑ k ∈ Finset.range (last + 1), scale / k.factorial : Nat) + (last + 1) := by
  have hscaled : scale * inverseFactorialSum last =
      ∑ k ∈ Finset.range (last + 1), (scale / k.factorial : Rat) := by
    simp only [inverseFactorialSum, Finset.mul_sum, mul_one_div]
  have hcount : ((last + 1 : Nat) : Rat) = ∑ _k ∈ Finset.range (last + 1), 1 := by
    rw [Finset.sum_const, Finset.card_range, nsmul_one]
  rw [hscaled, Nat.cast_sum, ← Nat.cast_succ, hcount, ← Finset.sum_add_distrib]
  constructor
  · exact Finset.sum_le_sum fun k _ => (natCast_div_bounds scale k.factorial).left
  · exact Finset.sum_le_sum fun k _ => (natCast_div_bounds scale k.factorial).right.le

theorem inverseFactorialSum_sub (h : last ≤ n) :
    inverseFactorialSum n - inverseFactorialSum last =
      ∑ k ∈ Finset.range (n + 1) with last + 1 ≤ k, (1 / k.factorial : Rat) := by
  have hfirst : (Finset.range (n + 1)).filter (fun k => ¬ last + 1 ≤ k) =
      Finset.range (last + 1) := by
    ext k
    simp only [Finset.mem_filter, Finset.mem_range]
    omega
  rw [inverseFactorialSum, inverseFactorialSum, ← hfirst, sub_eq_iff_eq_add]
  exact (Finset.sum_filter_add_sum_filter_not _ _ _).symm

/-- The terms that vanish are no more than two units together. -/
theorem scale_mul_tail_bounds (hlast : IsGreatest {k : Nat | k.factorial ≤ scale} last)
    (h : last ≤ n) :
    0 ≤ scale * (inverseFactorialSum n - inverseFactorialSum last) ∧
      scale * (inverseFactorialSum n - inverseFactorialSum last) ≤ 2 := by
  rw [inverseFactorialSum_sub h]
  constructor
  · exact mul_nonneg (Nat.cast_nonneg scale) (Finset.sum_nonneg fun k _ => by positivity)
  · have hfactorial : (0 : Rat) < (last + 1).factorial := Nat.cast_pos.mpr (Nat.factorial_pos _)
    have hscale : (scale : Rat) ≤ (last + 1).factorial := by
      exact_mod_cast (lt_factorial_of_isGreatest hlast (Nat.lt_succ_self last)).le
    calc
      scale * ∑ k ∈ Finset.range (n + 1) with last + 1 ≤ k, (1 / k.factorial : Rat) ≤
          (last + 1).factorial * ((last + 1).succ / ((last + 1).factorial * (last + 1 : Nat))) :=
        mul_le_mul hscale (Complex.sum_div_factorial_le (last + 1) (n + 1) last.succ_pos)
          (Finset.sum_nonneg fun k _ => by positivity) hfactorial.le
      _ = (last + 2) / (last + 1) := by
        push_cast
        field_simp
        ring
      _ ≤ 2 := by
        rw [div_le_iff₀ (by positivity)]
        have hnonneg : (0 : Rat) ≤ last := Nat.cast_nonneg last
        linarith

/-- The sum is never too large. It is too small by one unit for each term, and two for those that
vanish. -/
theorem inverseFactorials_error (hlast : IsGreatest {k : Nat | k.factorial ≤ scale} last)
    (h : last ≤ n) :
    ((∑ k ∈ Finset.range (last + 1), scale / k.factorial : Nat) : Rat) ≤
        scale * inverseFactorialSum n ∧
      scale * inverseFactorialSum n ≤
        (∑ k ∈ Finset.range (last + 1), scale / k.factorial : Nat) + (last + 3) := by
  rcases scale_mul_sum_bounds scale last with ⟨hlow, hhigh⟩
  rcases scale_mul_tail_bounds hlast h with ⟨htailLow, htailHigh⟩
  rw [mul_sub] at htailLow htailHigh
  constructor <;> linarith

theorem guarded_bounds {digits total : Nat} {x : Rat}
    (hlow : (total : Rat) ≤ 10 ^ (digits + 10) * x)
    (hhigh : 10 ^ (digits + 10) * x ≤ total + 10 ^ 10) :
    0 ≤ 10 ^ digits * x - (total / 10 ^ 10 : Nat) ∧
      10 ^ digits * x - (total / 10 ^ 10 : Nat) < 2 := by
  have hunit : (0 : Rat) < 10 ^ 10 := by positivity
  rcases natCast_div_bounds total (10 ^ 10) with ⟨hfloor, hceiling⟩
  push_cast at hfloor hceiling
  rw [pow_add, mul_right_comm] at hlow hhigh
  have hbelow : (total : Rat) / 10 ^ 10 ≤ 10 ^ digits * x := (div_le_iff₀ hunit).mpr hlow
  have habove : 10 ^ digits * x ≤ (total : Rat) / 10 ^ 10 + 1 := by
    rw [← div_self hunit.ne', ← add_div, le_div_iff₀ hunit]
    exact hhigh
  constructor <;> linarith

end Error

/-- The loop ends behind the last factorial that is not above the unit, and its sum is that of all
inverse factorials in units of the last guard digit, each rounded down. As long as the digits and
the guard digits fit a word, the divisor, which grows by one for each term, fits it too, and the
guard digits can hold a unit for each term and two more. Then e is not above its series and less
than two units of the last digit below it, however many terms behind the last one of the loop are
taken. -/
theorem euler_error {digits : Nat} (h : digits + 10 < 2 ^ 32) :
    exists (last : Nat) (s : InverseSum),
      IsGreatest {k : Nat | k.factorial ≤ 10 ^ (digits + 10)} last ∧
      Loops HasTerm (addTermInWord (2 ^ 32)) (start (10 ^ (digits + 10))) s ∧
      s.divisor = last + 2 ∧ last + 2 < 2 ^ 32 ∧
      HasSum (fun k : Nat => 10 ^ (digits + 10) / k.factorial) s.sum ∧
      euler digits = s.sum / 10 ^ 10 ∧
      forall n, last ≤ n ->
        0 ≤ 10 ^ digits * inverseFactorialSum n - euler digits ∧
        10 ^ digits * inverseFactorialSum n - euler digits < 2 := by
  have hscale : 10 ^ (digits + 10) ≠ 0 := (Nat.pow_pos (by decide)).ne'
  rcases loops_inverseFactorials hscale with ⟨s, hloop, hsum⟩
  rcases isInverseSum_of_loops hscale hloop with ⟨last, hs, hlast⟩
  have hdivisor : s.divisor = last + 2 := hs.divisor_eq
  have hsmall : last + 2 < 2 ^ 32 := by
    rcases le_of_factorial_le hlast.left with hle | hle <;> omega
  have heuler : euler digits = s.sum / 10 ^ 10 := by
    have hunits : euler digits = inverseFactorials (unit (digits + 10)) / unit 10 := rfl
    rw [hunits, unit_of_lt h, unit_of_lt (by decide), ← hsum]
  refine ⟨last, s, hlast, (loops_addTermInWord hloop (hdivisor.trans_lt hsmall)).left, hdivisor,
    hsmall, hs.hasSum hlast, heuler, ?_⟩
  intro n hn
  rcases inverseFactorials_error hlast hn with ⟨hlow, hhigh⟩
  rw [← hs.sum_eq, Nat.cast_pow, Nat.cast_ofNat] at hlow hhigh
  have hguard : last + 3 ≤ 10 ^ 10 := by omega
  have hcast : (last : Rat) + 3 ≤ 10 ^ 10 := by exact_mod_cast hguard
  rw [heuler]
  exact guarded_bounds hlow (hhigh.trans (add_le_add_right hcast _))

/-- The working precision is far below the one at which the word is too short. -/
theorem euler_error_sixty :
    60 + 10 < 2 ^ 32 ∧ exists last : Nat, last ≤ 73 ∧
      (exists s, Loops HasTerm (addTermInWord (2 ^ 32)) (start (10 ^ 70)) s) ∧
      0 ≤ 10 ^ 60 * inverseFactorialSum 73 - euler 60 ∧
      10 ^ 60 * inverseFactorialSum 73 - euler 60 < 2 := by
  have hword : 60 + 10 < 2 ^ 32 := by decide
  rcases euler_error hword with ⟨last, s, hlast, hloop, _, _, _, _, herror⟩
  have hle : last ≤ 73 := by
    rcases le_of_factorial_le hlast.left with hle | hle <;> omega
  exact ⟨hword, last, hle, ⟨s, hloop⟩, herror 73 hle⟩

/-!
## Digits that do not fit a word
-/

theorem euler_of_eq {digits : Nat} (h : digits + 10 = 2 ^ 32) : euler digits = 0 := by
  have hunits : euler digits = inverseFactorials (unit (digits + 10)) / unit 10 := rfl
  have htwo : inverseFactorials 1 = 2 := by
    rw [inverseFactorials, factorialTail, dif_neg Nat.one_ne_zero, factorialTail, dif_pos rfl]
  rw [hunits, unit_of_eq h, htwo]
  rfl

theorem two_le_pow_mul_sum {digits : Nat} (h : 0 < digits) (n : Nat) :
    2 ≤ 10 ^ digits * inverseFactorialSum n := by
  have hten : (10 : Rat) ≤ 10 ^ digits := le_self_pow₀ (by norm_num) h.ne'
  have hsum : (1 : Rat) ≤ inverseFactorialSum n := by
    have hfirst : (1 : Rat) / Nat.factorial 0 ≤ inverseFactorialSum n :=
      Finset.single_le_sum (f := fun k : Nat => (1 : Rat) / k.factorial)
        (fun k _ => by positivity) (Finset.mem_range.mpr n.succ_pos)
    simpa using hfirst
  nlinarith

/-- At the end of the word the sum is two, whose guard digits are divided away, and e is computed
to be zero. The series has fewer terms than the word and the guard digits can hold. -/
theorem euler_wrapped :
    (forall last, IsGreatest {k : Nat | k.factorial ≤ 10 ^ (4294967286 + 10)} last ->
      last + 2 < 2 ^ 32 ∧ last + 3 ≤ 10 ^ 10) ∧
    euler 4294967286 = 0 ∧
    forall n, 2 ≤ 10 ^ 4294967286 * inverseFactorialSum n - euler 4294967286 := by
  have hword : 4294967286 + 10 = 2 ^ 32 := by decide
  have heuler := euler_of_eq hword
  refine ⟨?_, heuler, ?_⟩
  · intro last hlast
    rcases le_of_factorial_le hlast.left with hle | hle <;> omega
  · intro n
    rw [heuler, Nat.cast_zero, sub_zero]
    exact two_le_pow_mul_sum (by decide) n

end FixedPoint
end AngleCalc
