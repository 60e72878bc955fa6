import AngleCalc.Proofs.Decimal.Expansion
import Mathlib.Algebra.Ring.GeomSum
import Mathlib.Data.Fintype.Pigeonhole

/-!
# The shortest recurring decimal

A rational has a recurring decimal with given numbers of digits if and only if its shifts
behind the digits that stand alone and behind one more block differ by an integer. The least
numbers of digits that are possible for the two parts are possible together. In the decimal
that has them every period is made of whole blocks, and the last digit that stands alone is
not the last digit of the block.
-/

namespace AngleCalc

namespace Decimal

/-- The shifts of `x` by `start` and by `length` more digits differ by an integer. -/
def IsCycle (x : Rat) (start length : Nat) : Prop :=
  0 < length ∧ exists n : Int, x * 10 ^ start * (10 ^ length - 1) = n

variable {x : Rat}

/-- The powers of ten repeat themselves up to multiples of the denominator. -/
theorem exists_isCycle (x : Rat) : exists start length, IsCycle x start length := by
  have hpos := x.den_pos
  rcases Finite.exists_ne_map_eq_of_infinite
    (fun places : Nat => (⟨10 ^ places % x.den, Nat.mod_lt _ hpos⟩ : Fin x.den)) with
    ⟨i, j, hne, hpowers⟩
  have hmod : 10 ^ i % x.den = 10 ^ j % x.den := congrArg Fin.val hpowers
  wlog hlt : i < j generalizing i j
  · exact this j i hne.symm hpowers.symm hmod.symm (by omega)
  rcases Nat.dvd_of_mod_eq_zero (Nat.sub_mod_eq_zero_of_mod_eq hmod.symm) with ⟨factor, hfactor⟩
  refine ⟨i, j - i, by omega, x.num * factor, ?_⟩
  have hcast : (10 : Rat) ^ j - 10 ^ i = x.den * factor := by
    have hle : 10 ^ i ≤ 10 ^ j := Nat.pow_le_pow_right (by decide) hlt.le
    rw [← Nat.cast_mul, ← hfactor, Nat.cast_sub hle]
    push_cast
    rfl
  calc
    x * 10 ^ i * (10 ^ (j - i) - 1) = x * (10 ^ j - 10 ^ i) := by
      rw [mul_assoc, mul_sub, ← pow_add, Nat.add_sub_of_le hlt.le, mul_one]
    _ = ((x.num * factor : Int) : Rat) := by
      rw [hcast, ← mul_assoc, Rat.mul_den_eq_num]
      push_cast
      rfl

/-- The lengths of two cycles can be exchanged, since a power of ten has nothing in common
with its predecessor. -/
theorem isCycle_of_isCycle {start length other more : Nat} (hstart : IsCycle x start more)
    (hlength : IsCycle x other length) : IsCycle x start length := by
  rcases hstart with ⟨hmore, n, hn⟩
  rcases hlength with ⟨hpos, m, hm⟩
  rcases Nat.exists_eq_add_one_of_ne_zero (Nat.ne_of_gt hmore) with ⟨k, rfl⟩
  rcases sub_one_dvd_pow_sub_one ((10 : Int) ^ (k + 1)) other with ⟨q, hq⟩
  refine ⟨hpos, m * 10 ^ start * (10 ^ k) ^ other - n * (10 ^ length - 1) * q, ?_⟩
  have hqRat : ((10 : Rat) ^ (k + 1)) ^ other - 1 = (10 ^ (k + 1) - 1) * q := by
    exact_mod_cast congrArg (Int.cast : Int -> Rat) hq
  have hpower : ((10 : Rat) ^ (k + 1)) ^ other = 10 ^ other * (10 ^ k) ^ other := by
    rw [pow_succ, mul_pow, mul_comm]
  push_cast
  rw [← hm, ← hn]
  calc
    x * 10 ^ start * (10 ^ length - 1) =
        x * 10 ^ start * (10 ^ length - 1) *
          (((10 : Rat) ^ (k + 1)) ^ other - (((10 : Rat) ^ (k + 1)) ^ other - 1)) := by ring
    _ = x * 10 ^ other * (10 ^ length - 1) * 10 ^ start * (10 ^ k) ^ other -
          x * 10 ^ start * (10 ^ (k + 1) - 1) * (10 ^ length - 1) * q := by
      rw [mul_sub, hqRat, hpower]
      ring

theorem exists_shortest_isCycle (x : Rat) : exists start length, IsCycle x start length ∧
    forall other more, IsCycle x other more -> start ≤ other ∧ length ≤ more := by
  classical
  have hstart : exists start, exists length, IsCycle x start length := exists_isCycle x
  have hlength : exists length, exists start, IsCycle x start length := by
    rcases exists_isCycle x with ⟨start, length, h⟩
    exact ⟨length, start, h⟩
  rcases Nat.find_spec hstart with ⟨more, hmore⟩
  rcases Nat.find_spec hlength with ⟨other, hother⟩
  refine ⟨_, _, isCycle_of_isCycle hmore hother, ?_⟩
  intro start length h
  exact ⟨Nat.find_min' hstart ⟨length, h⟩, Nat.find_min' hlength ⟨start, h⟩⟩

/-!
## Decimals from cycles
-/

theorem block_unit_cast {length : Nat} :
    ((10 ^ length - 1 : Nat) : Rat) = 10 ^ length - 1 := by
  rw [Nat.cast_sub (Nat.one_le_pow _ _ (by decide))]
  push_cast
  rfl

/-- The shift over one cycle, in units of a block: what is left over is the block. -/
theorem exists_block_of_isCycle {start length : Nat} (hx : 0 ≤ x) (h : IsCycle x start length) :
    exists quotient block : Nat, block < 10 ^ length - 1 ∧
      x * 10 ^ start = quotient + block / (10 ^ length - 1) := by
  rcases h with ⟨hpos, n, hn⟩
  have hlt : 1 < 10 ^ length := Nat.one_lt_pow (Nat.ne_of_gt hpos) (by decide)
  have hunit : (0 : Rat) < 10 ^ length - 1 := by
    rw [← block_unit_cast, Nat.cast_pos]
    exact Nat.sub_pos_of_lt hlt
  have hnonneg : 0 ≤ n := by
    have hle : (0 : Rat) ≤ n := by
      rw [← hn]
      positivity
    exact_mod_cast hle
  rcases Int.eq_ofNat_of_zero_le hnonneg with ⟨m, rfl⟩
  refine ⟨m / (10 ^ length - 1), m % (10 ^ length - 1), Nat.mod_lt _ (by omega), ?_⟩
  have hdivision : (m : Rat) =
      (10 ^ length - 1) * (m / (10 ^ length - 1) : Nat) + (m % (10 ^ length - 1) : Nat) := by
    rw [← block_unit_cast]
    exact_mod_cast (Nat.div_add_mod m (10 ^ length - 1)).symm
  rw [Int.cast_natCast, hdivision] at hn
  field_simp
  linarith

theorem exists_of_block {start length quotient block : Nat} (hpos : 0 < length)
    (hblock : block < 10 ^ length - 1) :
    exists decimal : RecurringDecimal,
      decimal.value * 10 ^ start = quotient + block / (10 ^ length - 1) ∧
        decimal.lead.length = start ∧ decimal.block.length = length := by
  rcases exists_digits (Nat.mod_lt quotient (Nat.pow_pos (n := start) (by decide : 0 < 10))) with
    ⟨leadDigits, hleadLength, hleadDigits, hlead⟩
  rcases exists_digits (lt_of_lt_of_le hblock (Nat.sub_le _ _)) with
    ⟨blockDigits, hblockLength, hblockDigits, hdigits⟩
  refine ⟨⟨quotient / 10 ^ start, leadDigits, blockDigits, ?_, hleadDigits, hblockDigits⟩, ?_,
    hleadLength, hblockLength⟩
  · rw [← List.length_pos_iff, hblockLength]
    exact hpos
  · have hquotient : (quotient : Rat) =
        10 ^ start * (quotient / 10 ^ start : Nat) + (quotient % 10 ^ start : Nat) := by
      exact_mod_cast (Nat.div_add_mod quotient (10 ^ start)).symm
    rw [RecurringDecimal.value]
    simp only [hlead, hdigits, hleadLength, hblockLength]
    rw [hquotient, add_mul, div_mul_cancel₀ _ (by positivity)]
    ring

end Decimal

namespace RecurringDecimal

variable {decimal : RecurringDecimal}

theorem value_nonneg (decimal : RecurringDecimal) : 0 ≤ decimal.value := by
  have hunit := decimal.block_unit_pos
  unfold value
  positivity

theorem isCycle_of_repeats {period : Nat} (hpos : 0 < period) (h : decimal.Repeats period) :
    Decimal.IsCycle decimal.value decimal.lead.length period := by
  have hrest := decimal.rest_add_period h (le_refl decimal.lead.length)
  have hshort := decimal.value_mul_pow (le_refl decimal.lead.length)
  have hlong := decimal.value_mul_pow (Nat.le_add_right decimal.lead.length period)
  refine ⟨hpos, decimal.whole * 10 ^ (decimal.lead.length + period) +
    Nat.ofDigitChars 10 (decimal.digitsFrom 0 (decimal.lead.length + period)) 0 -
    (decimal.whole * 10 ^ decimal.lead.length +
      Nat.ofDigitChars 10 (decimal.digitsFrom 0 decimal.lead.length) 0), ?_⟩
  rw [mul_sub, mul_one, mul_assoc, ← pow_add, hlong, hshort, hrest]
  push_cast
  ring

theorem isCycle_of_last_eq {start : Nat} (hstart : decimal.lead.length = start + 1)
    (h : decimal.digit (start + decimal.block.length) = decimal.digit start) :
    Decimal.IsCycle decimal.value start decimal.block.length := by
  have hrest := decimal.rest_add_period (fun _ hi => decimal.digit_add_block hi)
    (le_of_eq hstart)
  have hshort := decimal.value_mul_pow (le_of_eq hstart)
  have hbehind : decimal.lead.length ≤ start + 1 + decimal.block.length := by omega
  have hlong := decimal.value_mul_pow hbehind
  rw [Nat.add_right_comm start, digitsFrom_succ, Decimal.ofDigitChars_append_zero, Nat.zero_add, h,
    List.length_singleton, Nat.pow_one] at hlong
  rw [digitsFrom_succ, Decimal.ofDigitChars_append_zero, Nat.zero_add, List.length_singleton,
    Nat.pow_one] at hshort
  refine ⟨decimal.length_block_pos, decimal.whole * 10 ^ (start + decimal.block.length) +
    Nat.ofDigitChars 10 (decimal.digitsFrom 0 (start + decimal.block.length)) 0 -
    (decimal.whole * 10 ^ start + Nat.ofDigitChars 10 (decimal.digitsFrom 0 start) 0), ?_⟩
  -- Ten times the difference is the one of the shifts by one more digit.
  rw [Nat.add_right_comm start] at hrest
  rw [hrest, pow_succ, pow_add] at hlong
  rw [pow_succ] at hshort
  push_cast at hlong hshort ⊢
  rw [pow_add]
  linarith

/-- A cycle is what the digits of a recurring decimal go through. -/
theorem isCycle_iff {x : Rat} {start length : Nat} (hx : 0 ≤ x) :
    Decimal.IsCycle x start length ↔ exists decimal : RecurringDecimal,
      decimal.value = x ∧ decimal.lead.length = start ∧ decimal.block.length = length := by
  constructor
  · intro h
    rcases Decimal.exists_block_of_isCycle hx h with ⟨quotient, block, hblock, hshift⟩
    rcases Decimal.exists_of_block h.left hblock with ⟨decimal, hvalue, hlead, hlength⟩
    refine ⟨decimal, ?_, hlead, hlength⟩
    exact mul_right_cancel₀ (pow_ne_zero start (by norm_num)) (hvalue.trans hshift.symm)
  · rintro ⟨decimal, rfl, rfl, rfl⟩
    exact isCycle_of_repeats decimal.length_block_pos (fun _ h => decimal.digit_add_block h)

/-- Every rational that is not negative has a shortest recurring decimal. -/
theorem exists_isShortest {x : Rat} (h : 0 ≤ x) :
    exists decimal : RecurringDecimal, decimal.value = x ∧ decimal.IsShortest := by
  rcases Decimal.exists_shortest_isCycle x with ⟨start, length, hcycle, hleast⟩
  rcases (isCycle_iff h).mp hcycle with ⟨decimal, rfl, rfl, rfl⟩
  refine ⟨decimal, rfl, ?_⟩
  intro other hother
  exact hleast _ _ ((isCycle_iff h).mpr ⟨other, hother, rfl, rfl⟩)

/-!
## Periods of the shortest decimal
-/

theorem IsShortest.length_le (hshortest : decimal.IsShortest) {start length : Nat}
    (h : Decimal.IsCycle decimal.value start length) :
    decimal.lead.length ≤ start ∧ decimal.block.length ≤ length := by
  rcases (isCycle_iff decimal.value_nonneg).mp h with ⟨other, hvalue, rfl, rfl⟩
  exact hshortest other hvalue

/-- Every period is made of whole blocks. -/
theorem IsShortest.dvd_of_repeats (hshortest : decimal.IsShortest) {period : Nat}
    (h : decimal.Repeats period) : decimal.block.length ∣ period := by
  have hremainder : decimal.Repeats (period % decimal.block.length) := by
    intro i hi
    have hblocks := decimal.digit_add_mul (i := i + period % decimal.block.length) (by omega)
      (period / decimal.block.length)
    rw [Nat.add_assoc, Nat.mod_add_div, h i hi] at hblocks
    exact hblocks.symm
  rw [Nat.dvd_iff_mod_eq_zero]
  by_contra hne
  have hle := (hshortest.length_le (isCycle_of_repeats (Nat.pos_of_ne_zero hne) hremainder)).right
  have hlt := Nat.mod_lt period decimal.length_block_pos
  omega

/-- The block cannot start one digit earlier. -/
theorem IsShortest.last_ne (hshortest : decimal.IsShortest) {start : Nat}
    (hstart : decimal.lead.length = start + 1) :
    decimal.digit (start + decimal.block.length) ≠ decimal.digit start := by
  intro h
  have hle := (hshortest.length_le (isCycle_of_last_eq hstart h)).left
  omega

end RecurringDecimal
end AngleCalc
