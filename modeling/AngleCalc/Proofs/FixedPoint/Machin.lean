import AngleCalc.FixedPoint.Machin
import AngleCalc.Proofs.FixedPoint.Rounding
import AngleCalc.Proofs.Loops
import Mathlib.Algebra.BigOperators.Group.Finset.Basic
import Mathlib.Tactic.LinearCombination
import Mathlib.Tactic.Positivity
import Mathlib.Tactic.Ring

/-!
# The error of pi

Each term of an arctangent is rounded down, so a sum of them is off by less than one unit for
every term. The terms that are left out have alternating signs and get smaller, and the first of
them is less than a unit. The multiples of both arctangents in Machin's formula are therefore off
by few units of the last guard digit, and dividing the guard digits away leaves an error of less
than two units.
-/

namespace AngleCalc
namespace FixedPoint

/-!
## The series of an arctangent
-/

/-- The term of index `k` in the series of `arctan (1 / q)`, without its sign. -/
def arctanTerm (q k : Nat) : Rat :=
  1 / ((2 * k + 1) * q ^ (2 * k + 1))

def arctanSum (q n : Nat) : Rat :=
  ∑ k ∈ Finset.range n, (-1) ^ k / ((2 * k + 1) * q ^ (2 * k + 1))

section Series

variable {q : Nat}

theorem arctanSum_succ (q n : Nat) :
    arctanSum q (n + 1) = arctanSum q n + (-1) ^ n * arctanTerm q n := by
  rw [arctanSum, Finset.sum_range_succ, arctanTerm, mul_one_div]
  rfl

theorem arctanTerm_pos (hq : 0 < q) (k : Nat) : 0 < arctanTerm q k := by
  unfold arctanTerm
  positivity

theorem arctanTerm_succ_le (hq : 0 < q) (k : Nat) : arctanTerm q (k + 1) ≤ arctanTerm q k := by
  have hone : (1 : Rat) ≤ q := by exact_mod_cast hq
  unfold arctanTerm
  apply one_div_le_one_div_of_le
  · positivity
  · gcongr <;> omega

/-- The sign of the terms from the index `k` on is the sign of the first of them, and they are no
more than this one together. -/
theorem arctanSum_tail (hq : 0 < q) (count k : Nat) :
    0 ≤ (-1) ^ k * (arctanSum q (k + count) - arctanSum q k) ∧
      (-1) ^ k * (arctanSum q (k + count) - arctanSum q k) ≤ arctanTerm q k := by
  induction count generalizing k with
  | zero =>
      rw [Nat.add_zero, sub_self, mul_zero]
      exact ⟨le_rfl, (arctanTerm_pos hq k).le⟩
  | succ count ih =>
      have hsign : ((-1) ^ k * (-1) ^ k : Rat) = 1 := by
        rw [← mul_pow, neg_one_mul, neg_neg, one_pow]
      have hsplit : (-1) ^ k * (arctanSum q (k + (count + 1)) - arctanSum q k) =
          arctanTerm q k -
            (-1) ^ (k + 1) * (arctanSum q (k + 1 + count) - arctanSum q (k + 1)) := by
        rw [Nat.add_comm count 1, ← Nat.add_assoc, arctanSum_succ, pow_succ]
        linear_combination arctanTerm q k * hsign
      have hnext := arctanTerm_succ_le hq k
      rcases ih (k + 1) with ⟨hlow, hhigh⟩
      rw [hsplit]
      constructor <;> linarith

theorem abs_arctanSum_sub_le (hq : 0 < q) {k n : Nat} (h : k ≤ n) :
    |arctanSum q n - arctanSum q k| ≤ arctanTerm q k := by
  rcases Nat.exists_eq_add_of_le h with ⟨count, rfl⟩
  rcases arctanSum_tail hq count k with ⟨hlow, hhigh⟩
  have habs : |(-1) ^ k * (arctanSum q (k + count) - arctanSum q k)| =
      |arctanSum q (k + count) - arctanSum q k| := by
    rw [abs_mul, abs_neg_one_pow, one_mul]
  rw [← habs, abs_of_nonneg hlow]
  exact hhigh

end Series

/-!
## The loop over the terms
-/

/-- The state in which a series is summed: the index of the next term, the power of `q` in it, and
the sum of the terms before it. -/
structure PartialSum where
  index : Nat
  power : Nat
  sum : Int

namespace PartialSum

/-- The next term in units of `1 / scale`, rounded down and without its sign. -/
def term (scale : Nat) (s : PartialSum) : Nat :=
  scale / (s.power * (2 * s.index + 1))

def HasTerm (scale : Nat) (s : PartialSum) : Prop :=
  s.term scale ≠ 0

def addTerm (q scale : Nat) (s : PartialSum) : PartialSum where
  index := s.index + 1
  power := s.power * q * q
  sum := if s.index % 2 = 0 then s.sum + s.term scale else s.sum - s.term scale

def start (q : Nat) : PartialSum :=
  ⟨0, q, 0⟩

end PartialSum

open PartialSum

theorem loops_arctanTail {q : Nat} (hq : 1 < q) (scale k power : Nat) (sum : Int) :
    exists s, Loops (HasTerm scale) (addTerm q scale) ⟨k, power, sum⟩ s ∧
      s.sum = sum + arctanTail q scale k power := by
  induction k, power using arctanTail.induct q scale generalizing sum with
  | case1 k power term h =>
      have hnone : ¬ HasTerm scale ⟨k, power, sum⟩ :=
        fun hterm => hterm (h.resolve_right (by omega))
      refine ⟨_, .stop hnone, ?_⟩
      rw [arctanTail, dif_pos h, add_zero]
  | case2 k power term h ih =>
      have hterm : HasTerm scale ⟨k, power, sum⟩ := fun hnone => h (.inl hnone)
      rcases ih (addTerm q scale ⟨k, power, sum⟩).sum with ⟨s, hloop, hsum⟩
      have htail : arctanTail q scale k power =
          (if k % 2 = 0 then (term : Int) else -(term : Int)) +
            arctanTail q scale (k + 1) (power * q * q) := by
        rw [arctanTail, dif_neg h]
      refine ⟨s, .step hterm hloop, ?_⟩
      rw [hsum, htail, ← add_assoc]
      congr 1
      unfold addTerm
      split
      · rfl
      · rfl

/-!
## The error of a sum
-/

section Error

variable {q scale : Nat} {s : PartialSum}

/-- What is kept while a series is summed: the error is at most one unit for each term. -/
structure IsPartialSum (q scale : Nat) (s : PartialSum) : Prop where
  power_eq : s.power = q ^ (2 * s.index + 1)
  error_le : |(s.sum : Rat) - scale * arctanSum q s.index| ≤ s.index

theorem isPartialSum_start (q scale : Nat) : IsPartialSum q scale (start q) := by
  constructor
  · exact (pow_one q).symm
  · simp [start, arctanSum]

theorem power_addTerm (h : s.power = q ^ (2 * s.index + 1)) :
    (addTerm q scale s).power = q ^ (2 * (addTerm q scale s).index + 1) := by
  simp only [addTerm, h]
  ring

theorem term_bounds (scale : Nat) (h : s.power = q ^ (2 * s.index + 1)) :
    (s.term scale : Rat) ≤ scale * arctanTerm q s.index ∧
      scale * arctanTerm q s.index < s.term scale + 1 := by
  have hquotient : (scale : Rat) * arctanTerm q s.index =
      scale / (s.power * (2 * s.index + 1) : Nat) := by
    rw [arctanTerm, mul_one_div, h]
    push_cast
    rw [mul_comm]
  rw [hquotient]
  exact natCast_div_bounds scale _

theorem sum_addTerm (q scale : Nat) (s : PartialSum) :
    ((addTerm q scale s).sum : Rat) = s.sum + (-1) ^ s.index * s.term scale := by
  unfold addTerm
  split
  · rename_i heven
    rw [(Nat.even_iff.mpr heven).neg_one_pow, one_mul, Int.cast_add, Int.cast_natCast]
  · rename_i hodd
    rw [(Nat.odd_iff.mpr (Nat.mod_two_ne_zero.mp hodd)).neg_one_pow, neg_one_mul, ← sub_eq_add_neg,
      Int.cast_sub, Int.cast_natCast]

theorem isPartialSum_addTerm (h : IsPartialSum q scale s) :
    IsPartialSum q scale (addTerm q scale s) := by
  have hindex : (addTerm q scale s).index = s.index + 1 := rfl
  have hsplit : ((addTerm q scale s).sum : Rat) - scale * arctanSum q (addTerm q scale s).index =
      (s.sum - scale * arctanSum q s.index) +
        (-1) ^ s.index * (s.term scale - scale * arctanTerm q s.index) := by
    rw [sum_addTerm, hindex, arctanSum_succ]
    ring
  have hterm : |(-1) ^ s.index * (s.term scale - scale * arctanTerm q s.index)| ≤ 1 := by
    rcases term_bounds scale h.power_eq with ⟨hlow, hhigh⟩
    rw [abs_mul, abs_neg_one_pow, one_mul, abs_le]
    constructor <;> linarith
  constructor
  · exact power_addTerm h.power_eq
  · rw [hsplit, hindex, Nat.cast_succ]
    exact (abs_add_le _ _).trans (add_le_add h.error_le hterm)

/-- Behind the last term the rest of the series is less than a unit. -/
theorem error_of_isPartialSum (hq : 0 < q) (h : IsPartialSum q scale s)
    (hlast : ¬ HasTerm scale s) {n : Nat} (hn : s.index ≤ n) :
    |(s.sum : Rat) - scale * arctanSum q n| ≤ s.index + 1 := by
  have hnone : s.term scale = 0 := not_not.mp hlast
  have hrest : |scale * (arctanSum q s.index - arctanSum q n)| ≤ 1 := by
    have hterm := (term_bounds scale h.power_eq).right
    rw [hnone, Nat.cast_zero, zero_add] at hterm
    rw [abs_mul, abs_of_nonneg (Nat.cast_nonneg scale), abs_sub_comm]
    exact (mul_le_mul_of_nonneg_left (abs_arctanSum_sub_le hq hn) (Nat.cast_nonneg scale)).trans
      hterm.le
  calc
    |(s.sum : Rat) - scale * arctanSum q n| =
        |(s.sum - scale * arctanSum q s.index) +
          scale * (arctanSum q s.index - arctanSum q n)| := by
      congr 1
      ring
    _ ≤ |s.sum - scale * arctanSum q s.index| +
        |scale * (arctanSum q s.index - arctanSum q n)| := abs_add_le _ _
    _ ≤ s.index + 1 := add_le_add h.error_le hrest

theorem error_of_loops (hq : 0 < q) (h : Loops (HasTerm scale) (addTerm q scale) (start q) s)
    {n : Nat} (hn : s.index ≤ n) : |(s.sum : Rat) - scale * arctanSum q n| ≤ s.index + 1 := by
  rcases h.keeps (IsPartialSum q scale) (fun _ _ hs => isPartialSum_addTerm hs)
    (isPartialSum_start q scale) with ⟨hsum, hlast⟩
  exact error_of_isPartialSum hq hsum hlast hn

end Error

/-!
## The number of terms
-/

/-- A term that does not vanish has an index below the number of digits. -/
theorem index_lt_of_hasTerm {q digits : Nat} {s : PartialSum} (hq : 5 ≤ q)
    (hpower : s.power = q ^ (2 * s.index + 1)) (h : HasTerm (unit digits) s) :
    s.index < digits := by
  have hle : s.power * (2 * s.index + 1) ≤ unit digits :=
    (Nat.div_pos_iff.mp (Nat.pos_of_ne_zero h)).right
  have hlt : 10 ^ s.index < 10 ^ digits :=
    calc
      10 ^ s.index ≤ 25 ^ s.index := Nat.pow_le_pow_left (by decide) _
      _ < 5 ^ (2 * s.index + 1) := by
        have hsquare : 5 ^ (2 * s.index) = 25 ^ s.index := Nat.pow_mul 5 2 s.index
        have hpos : 0 < 25 ^ s.index := Nat.pow_pos (by decide)
        rw [Nat.pow_succ, hsquare]
        omega
      _ ≤ s.power := by
        rw [hpower]
        exact Nat.pow_le_pow_left hq _
      _ ≤ s.power * (2 * s.index + 1) := Nat.le_mul_of_pos_right _ (Nat.succ_pos _)
      _ ≤ unit digits := hle
      _ ≤ 10 ^ digits := unit_le_pow digits
  exact (Nat.pow_lt_pow_iff_right (by decide)).mp hlt

theorem index_le_of_loops {q digits : Nat} {s : PartialSum} (hq : 5 ≤ q)
    (h : Loops (HasTerm (unit digits)) (addTerm q (unit digits)) (start q) s) :
    s.index ≤ digits := by
  have hkept := h.keeps (fun s => s.power = q ^ (2 * s.index + 1) ∧ s.index ≤ digits) ?_
    ⟨(pow_one q).symm, Nat.zero_le digits⟩
  · exact hkept.left.right
  · rintro s hterm ⟨hpower, _⟩
    exact ⟨power_addTerm hpower, index_lt_of_hasTerm hq hpower hterm⟩

/-!
## Machin's formula
-/

theorem abs_tdiv_sub_lt (a : Int) {b : Nat} (hb : 0 < b) :
    |((a.tdiv b : Int) : Rat) - a / b| < 1 := by
  have hcast : (0 : Rat) < b := Nat.cast_pos.mpr hb
  have hlow := Int.lt_tmod_of_pos a (Int.natCast_pos.mpr hb)
  have hhigh := Int.tmod_lt_of_pos a (Int.natCast_pos.mpr hb)
  have hsplit : (a : Rat) = b * (a.tdiv b : Int) + (a.tmod b : Int) := by
    exact_mod_cast (Int.mul_tdiv_add_tmod a b).symm
  have hquotient : ((a.tdiv b : Int) : Rat) - a / b = -((a.tmod b : Int) : Rat) / b := by
    rw [hsplit]
    field_simp
    ring
  rw [hquotient, abs_div, abs_neg, abs_of_pos hcast, div_lt_one hcast, abs_lt]
  exact ⟨by exact_mod_cast hlow, by exact_mod_cast hhigh⟩

/-- The guard digits absorb the errors of both sums. -/
theorem abs_pi_sub_lt {digits : Nat} {x y errorX errorY : Rat}
    (hx : |(arctanInverse 5 (unit (digits + 10)) : Rat) - 10 ^ (digits + 10) * x| ≤ errorX)
    (hy : |(arctanInverse 239 (unit (digits + 10)) : Rat) - 10 ^ (digits + 10) * y| ≤ errorY)
    (herror : 16 * errorX + 4 * errorY ≤ 10 ^ 10) :
    |(pi digits : Rat) - 10 ^ digits * (16 * x - 4 * y)| < 2 := by
  have hpi : pi digits = (16 * arctanInverse 5 (unit (digits + 10)) -
      4 * arctanInverse 239 (unit (digits + 10))).tdiv (unit 10) := rfl
  rw [hpi]
  generalize arctanInverse 5 (unit (digits + 10)) = a at hx
  generalize arctanInverse 239 (unit (digits + 10)) = b at hy
  have hguard : (unit 10 : Rat) = 10 ^ 10 := cast_unit (by decide)
  have htruncated := abs_tdiv_sub_lt (16 * a - 4 * b) (unit_pos 10)
  rw [hguard] at htruncated
  have hsums : |((16 * a - 4 * b : Int) : Rat) - 10 ^ (digits + 10) * (16 * x - 4 * y)| ≤
      10 ^ 10 := by
    rw [abs_le] at hx hy ⊢
    push_cast
    constructor <;> linarith
  have hscaled : |((16 * a - 4 * b : Int) : Rat) / 10 ^ 10 - 10 ^ digits * (16 * x - 4 * y)| ≤
      1 := by
    have hunit : (0 : Rat) < 10 ^ 10 := by positivity
    have hsplit : ((16 * a - 4 * b : Int) : Rat) / 10 ^ 10 - 10 ^ digits * (16 * x - 4 * y) =
        ((16 * a - 4 * b : Int) - 10 ^ (digits + 10) * (16 * x - 4 * y)) / 10 ^ 10 := by
      rw [pow_add, sub_div, mul_right_comm, mul_div_cancel_right₀ _ hunit.ne']
    rw [hsplit, abs_div, abs_of_pos hunit, div_le_one hunit]
    exact hsums
  rw [abs_lt] at htruncated ⊢
  rw [abs_le] at hscaled
  constructor <;> linarith

/-- Both loops end after fewer terms than there are digits with the guard digits, or as many. Each
sum is off from the series by one unit for each term and one more, and as long as this is less than
the guard digits can hold, pi is off from Machin's formula by less than two units of its last
digit, however many terms of the series are taken. The digits and the guard digits have to fit a
word. -/
theorem pi_error {digits : Nat} (h : digits + 10 < 2 ^ 32) :
    exists first second : PartialSum,
      Loops (HasTerm (unit (digits + 10))) (addTerm 5 (unit (digits + 10))) (start 5) first ∧
      Loops (HasTerm (unit (digits + 10))) (addTerm 239 (unit (digits + 10))) (start 239) second ∧
      first.sum = arctanInverse 5 (unit (digits + 10)) ∧
      second.sum = arctanInverse 239 (unit (digits + 10)) ∧
      first.index ≤ digits + 10 ∧ second.index ≤ digits + 10 ∧
      forall n, max first.index second.index ≤ n ->
        |(first.sum : Rat) - 10 ^ (digits + 10) * arctanSum 5 n| ≤ first.index + 1 ∧
        |(second.sum : Rat) - 10 ^ (digits + 10) * arctanSum 239 n| ≤ second.index + 1 ∧
        (16 * (first.index + 1) + 4 * (second.index + 1) ≤ 10 ^ 10 ->
          |(pi digits : Rat) - 10 ^ digits * (16 * arctanSum 5 n - 4 * arctanSum 239 n)| < 2) := by
  have hloop : forall q, 1 < q -> exists s,
      Loops (HasTerm (unit (digits + 10))) (addTerm q (unit (digits + 10))) (start q) s ∧
        s.sum = arctanInverse q (unit (digits + 10)) := by
    intro q hq
    rcases loops_arctanTail hq (unit (digits + 10)) 0 q 0 with ⟨s, hs, hsum⟩
    exact ⟨s, hs, by rw [hsum, zero_add, arctanInverse]⟩
  rcases hloop 5 (by decide) with ⟨first, hfirst, hfirstSum⟩
  rcases hloop 239 (by decide) with ⟨second, hsecond, hsecondSum⟩
  refine ⟨first, second, hfirst, hsecond, hfirstSum, hsecondSum,
    index_le_of_loops (by decide) hfirst, index_le_of_loops (by decide) hsecond, ?_⟩
  intro n hn
  have hfirstError := error_of_loops (by decide) hfirst ((Nat.le_max_left _ _).trans hn)
  have hsecondError := error_of_loops (by decide) hsecond ((Nat.le_max_right _ _).trans hn)
  rw [cast_unit h] at hfirstError hsecondError
  refine ⟨hfirstError, hsecondError, ?_⟩
  intro hguard
  rw [hfirstSum] at hfirstError
  rw [hsecondSum] at hsecondError
  exact abs_pi_sub_lt hfirstError hsecondError (by exact_mod_cast hguard)

/-- The working precision is far below the one at which ten guard digits are too few. -/
theorem pi_error_sixty :
    60 + 10 < 2 ^ 32 ∧ exists first second : PartialSum, max first.index second.index ≤ 70 ∧
      16 * (first.index + 1) + 4 * (second.index + 1) ≤ 10 ^ 10 ∧
      |(pi 60 : Rat) - 10 ^ 60 * (16 * arctanSum 5 70 - 4 * arctanSum 239 70)| < 2 := by
  have hword : 60 + 10 < 2 ^ 32 := by decide
  rcases pi_error hword with ⟨first, second, _, _, _, _, hfirst, hsecond, herror⟩
  have hguard : 16 * (first.index + 1) + 4 * (second.index + 1) ≤ 10 ^ 10 := by omega
  have hterms : max first.index second.index ≤ 70 := Nat.max_le.mpr ⟨hfirst, hsecond⟩
  exact ⟨hword, first, second, hterms, hguard, (herror 70 hterms).right.right hguard⟩

/-!
## Digits that do not fit a word
-/

/-- Where the word starts over again, one is the unit and no series has a term. -/
theorem loops_start_of_eq {digits q : Nat} (hdigits : digits = 2 ^ 32) (hq : 1 < q) :
    Loops (HasTerm (unit digits)) (addTerm q (unit digits)) (start q) (start q) := by
  rw [unit_of_eq hdigits]
  exact .stop (fun hterm => hterm (Nat.div_eq_of_lt (by simpa [start] using hq)))

theorem arctanInverse_one {q : Nat} (hq : 1 < q) : arctanInverse q 1 = 0 := by
  have hterm : 1 / (q * (2 * 0 + 1)) = 0 := Nat.div_eq_of_lt (by simpa using hq)
  rw [arctanInverse, arctanTail, dif_pos (.inl hterm)]

theorem pi_of_eq {digits : Nat} (h : digits + 10 = 2 ^ 32) : pi digits = 0 := by
  have hpi : pi digits = (16 * arctanInverse 5 (unit (digits + 10)) -
      4 * arctanInverse 239 (unit (digits + 10))).tdiv (unit 10) := rfl
  rw [hpi, unit_of_eq h, arctanInverse_one (by decide), arctanInverse_one (by decide)]
  exact Int.zero_tdiv _

theorem two_le_pow_mul_machin {digits : Nat} (h : 0 < digits) :
    2 ≤ (10 : Rat) ^ digits * (16 * arctanSum 5 1 - 4 * arctanSum 239 1) := by
  have hten : (10 : Rat) ≤ 10 ^ digits := le_self_pow₀ (by norm_num) h.ne'
  have hsum : (1 : Rat) ≤ 16 * arctanSum 5 1 - 4 * arctanSum 239 1 := by
    norm_num [arctanSum]
  nlinarith

/-- At the end of the word both loops end at once, and pi is computed to be zero. -/
theorem pi_wrapped :
    Loops (HasTerm (unit (4294967286 + 10))) (addTerm 5 (unit (4294967286 + 10)))
        (start 5) (start 5) ∧
      Loops (HasTerm (unit (4294967286 + 10))) (addTerm 239 (unit (4294967286 + 10)))
        (start 239) (start 239) ∧
      16 * ((start 5).index + 1) + 4 * ((start 239).index + 1) ≤ 10 ^ 10 ∧
      pi 4294967286 = 0 ∧
      2 ≤ |(pi 4294967286 : Rat) -
        10 ^ 4294967286 * (16 * arctanSum 5 1 - 4 * arctanSum 239 1)| := by
  have hword : 4294967286 + 10 = 2 ^ 32 := by decide
  have hpi := pi_of_eq hword
  refine ⟨loops_start_of_eq hword (by decide), loops_start_of_eq hword (by decide), by decide,
    hpi, ?_⟩
  rw [hpi, Int.cast_zero, zero_sub, abs_neg]
  exact (two_le_pow_mul_machin (by decide)).trans (le_abs_self _)

end FixedPoint
end AngleCalc
