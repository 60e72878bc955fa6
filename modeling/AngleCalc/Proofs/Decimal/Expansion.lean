import AngleCalc.Proofs.Decimal.Canonical
import Mathlib.Data.List.GetD
import Mathlib.Tactic.Linarith

/-!
# Recurring decimals

A recurring decimal has digits that stand alone behind its point, and then a block of digits
that is repeated forever. It stands for a rational, and what a rational lacks to an integer
after a shift of its digits is the same again one block later. So a rational has a recurring
decimal with some numbers of digits if and only if the two shifts differ by an integer. Each
rational has one, and among all of its recurring decimals there is one with the fewest digits
in both parts.
-/

namespace AngleCalc

namespace Decimal

def Terminates (x : Rat) : Prop :=
  exists (digits : Nat) (n : Int), x = n / 10 ^ digits

end Decimal

/-- An integer, digits behind the point that stand alone, and a block of digits that is
repeated forever. -/
structure RecurringDecimal where
  whole : Nat
  lead : List Char
  block : List Char
  block_ne_nil : block ≠ []
  isDigit_lead : forall c, c ∈ lead -> c.isDigit = true
  isDigit_block : forall c, c ∈ block -> c.isDigit = true

namespace RecurringDecimal

/-- The rational that a recurring decimal stands for. The blocks add up as a geometric
series. -/
def value (decimal : RecurringDecimal) : Rat :=
  decimal.whole +
    (Nat.ofDigitChars 10 decimal.lead 0 +
      Nat.ofDigitChars 10 decimal.block 0 / (10 ^ decimal.block.length - 1)) /
        10 ^ decimal.lead.length

/-- No recurring decimal of the same value has fewer digits in one of the parts. -/
def IsShortest (decimal : RecurringDecimal) : Prop :=
  forall other : RecurringDecimal, other.value = decimal.value ->
    decimal.lead.length ≤ other.lead.length ∧ decimal.block.length ≤ other.block.length

/-!
## Digits
-/

def digit (decimal : RecurringDecimal) (i : Nat) : Char :=
  if i < decimal.lead.length then decimal.lead.getD i '0'
  else decimal.block.getD ((i - decimal.lead.length) % decimal.block.length) '0'

def digitsFrom (decimal : RecurringDecimal) (start count : Nat) : List Char :=
  (List.range count).map (fun i => decimal.digit (start + i))

variable (decimal : RecurringDecimal)

theorem length_block_pos : 0 < decimal.block.length :=
  List.length_pos_iff.mpr decimal.block_ne_nil

theorem length_digitsFrom (start count : Nat) :
    (decimal.digitsFrom start count).length = count := by
  rw [digitsFrom, List.length_map, List.length_range]

theorem digitsFrom_succ (start count : Nat) :
    decimal.digitsFrom start (count + 1) =
      decimal.digitsFrom start count ++ [decimal.digit (start + count)] := by
  rw [digitsFrom, List.range_succ, List.map_append]
  rfl

theorem digitsFrom_cons (start count : Nat) :
    decimal.digitsFrom start (count + 1) =
      decimal.digit start :: decimal.digitsFrom (start + 1) count := by
  rw [digitsFrom, List.range_succ_eq_map, List.map_cons, List.map_map]
  congr 1
  apply List.map_congr_left
  intro i _
  exact congrArg decimal.digit (by simp only [Nat.succ_eq_add_one]; omega)

theorem digitsFrom_add (start count more : Nat) :
    decimal.digitsFrom start (count + more) =
      decimal.digitsFrom start count ++ decimal.digitsFrom (start + count) more := by
  induction more with
  | zero => simp [digitsFrom]
  | succ more ih =>
      rw [← Nat.add_assoc, digitsFrom_succ, ih, digitsFrom_succ, List.append_assoc,
        Nat.add_assoc]

theorem digitsFrom_lead : decimal.digitsFrom 0 decimal.lead.length = decimal.lead := by
  apply List.ext_getElem
  · exact decimal.length_digitsFrom 0 _
  · intro i hi hlead
    simp [digitsFrom, digit, hlead]

theorem digitsFrom_block :
    decimal.digitsFrom decimal.lead.length decimal.block.length = decimal.block := by
  apply List.ext_getElem
  · exact decimal.length_digitsFrom _ _
  · intro i hi hblock
    simp [digitsFrom, digit, Nat.mod_eq_of_lt hblock, hblock]

theorem isDigit_digit (i : Nat) : (decimal.digit i).isDigit = true := by
  unfold digit
  split
  · rename_i hlt
    rw [List.getD_eq_getElem _ _ hlt]
    exact decimal.isDigit_lead _ (List.getElem_mem hlt)
  · have hlt := Nat.mod_lt (i - decimal.lead.length) decimal.length_block_pos
    rw [List.getD_eq_getElem _ _ hlt]
    exact decimal.isDigit_block _ (List.getElem_mem hlt)

theorem isDigit_of_mem_digitsFrom {start count : Nat} (c : Char)
    (h : c ∈ decimal.digitsFrom start count) : c.isDigit = true := by
  rcases List.mem_map.mp h with ⟨i, _, rfl⟩
  exact decimal.isDigit_digit _

theorem digit_add_mul {i : Nat} (h : decimal.lead.length ≤ i) (count : Nat) :
    decimal.digit (i + decimal.block.length * count) = decimal.digit i := by
  have hplace : i + decimal.block.length * count - decimal.lead.length =
      i - decimal.lead.length + decimal.block.length * count := by
    omega
  rw [digit, digit, if_neg (by omega), if_neg (by omega), hplace, Nat.add_mul_mod_self_left]

theorem digit_add_block {i : Nat} (h : decimal.lead.length ≤ i) :
    decimal.digit (i + decimal.block.length) = decimal.digit i := by
  have hone := decimal.digit_add_mul h 1
  rwa [Nat.mul_one] at hone

def Repeats (decimal : RecurringDecimal) (period : Nat) : Prop :=
  forall i, decimal.lead.length ≤ i -> decimal.digit (i + period) = decimal.digit i

/-!
## Shifted values
-/

/-- What is left of the value behind the first digits, in units of the last of them. -/
def rest (decimal : RecurringDecimal) (start : Nat) : Rat :=
  Nat.ofDigitChars 10 (decimal.digitsFrom start decimal.block.length) 0 /
    (10 ^ decimal.block.length - 1)

theorem block_unit_pos : (0 : Rat) < 10 ^ decimal.block.length - 1 := by
  have hone : (1 : Rat) < 10 ^ decimal.block.length :=
    one_lt_pow₀ (by norm_num) (Nat.ne_of_gt decimal.length_block_pos)
  linarith

theorem rest_add_period {start period : Nat} (hrepeats : decimal.Repeats period)
    (h : decimal.lead.length ≤ start) : decimal.rest (start + period) = decimal.rest start := by
  have hdigits : decimal.digitsFrom (start + period) decimal.block.length =
      decimal.digitsFrom start decimal.block.length := by
    apply List.map_congr_left
    intro i _
    rw [Nat.add_right_comm]
    exact hrepeats (start + i) (by omega)
  rw [rest, hdigits, rest]

/-- A shift by one place takes the first of the digits out. -/
theorem ten_mul_rest {start : Nat} (h : decimal.lead.length ≤ start) :
    10 * decimal.rest start =
      Nat.ofDigitChars 10 [decimal.digit start] 0 + decimal.rest (start + 1) := by
  rcases Nat.exists_eq_succ_of_ne_zero (Nat.ne_of_gt decimal.length_block_pos) with ⟨count, hcount⟩
  rw [Nat.succ_eq_add_one] at hcount
  have hlast : decimal.digit (start + 1 + count) = decimal.digit start := by
    have hblock := decimal.digit_add_block h
    rwa [hcount, Nat.add_comm count, ← Nat.add_assoc] at hblock
  have hfirst : Nat.ofDigitChars 10 (decimal.digitsFrom start (count + 1)) 0 =
      10 ^ count * Nat.ofDigitChars 10 [decimal.digit start] 0 +
        Nat.ofDigitChars 10 (decimal.digitsFrom (start + 1) count) 0 := by
    rw [digitsFrom_cons, ← List.singleton_append, Decimal.ofDigitChars_append_zero,
      length_digitsFrom]
  have hsecond : Nat.ofDigitChars 10 (decimal.digitsFrom (start + 1) (count + 1)) 0 =
      10 * Nat.ofDigitChars 10 (decimal.digitsFrom (start + 1) count) 0 +
        Nat.ofDigitChars 10 [decimal.digit start] 0 := by
    rw [digitsFrom_succ, Decimal.ofDigitChars_append_zero, hlast, List.length_singleton,
      Nat.pow_one]
  have hunit := decimal.block_unit_pos
  rw [hcount] at hunit
  rw [rest, rest, hcount, hfirst, hsecond]
  field_simp
  push_cast
  ring

theorem value_mul_pow {places : Nat} (h : decimal.lead.length ≤ places) :
    decimal.value * 10 ^ places =
      decimal.whole * 10 ^ places + Nat.ofDigitChars 10 (decimal.digitsFrom 0 places) 0 +
        decimal.rest places := by
  induction places, h using Nat.le_induction with
  | base =>
      rw [digitsFrom_lead, rest, digitsFrom_block, value]
      field_simp
      ring
  | succ places hle ih =>
      have hstep := decimal.ten_mul_rest hle
      rw [digitsFrom_succ, Decimal.ofDigitChars_append_zero, Nat.zero_add,
        List.length_singleton, pow_succ, ← mul_assoc, ih]
      push_cast
      linarith

/-!
## Expansions that do not end
-/

theorem rest_nonneg (start : Nat) : 0 ≤ decimal.rest start :=
  div_nonneg (Nat.cast_nonneg _) decimal.block_unit_pos.le

theorem rest_le_one (start : Nat) : decimal.rest start ≤ 1 := by
  have hdigits : forall c, c ∈ decimal.digitsFrom start decimal.block.length -> c.isDigit = true :=
    decimal.isDigit_of_mem_digitsFrom
  have hlt := Decimal.ofDigitChars_lt hdigits
  rw [length_digitsFrom] at hlt
  have hle : (Nat.ofDigitChars 10 (decimal.digitsFrom start decimal.block.length) 0 : Rat) + 1 ≤
      10 ^ decimal.block.length := by
    exact_mod_cast hlt
  rw [rest, div_le_one decimal.block_unit_pos]
  linarith

theorem terminates_of_rest_eq {places : Nat} {n : Int} (h : decimal.lead.length ≤ places)
    (hrest : decimal.rest places = n) : Decimal.Terminates decimal.value := by
  refine ⟨places, decimal.whole * 10 ^ places +
    Nat.ofDigitChars 10 (decimal.digitsFrom 0 places) 0 + n, ?_⟩
  rw [eq_div_iff (by positivity), decimal.value_mul_pow h, hrest]
  push_cast
  ring

theorem rest_eq_zero {start : Nat}
    (h : forall c, c ∈ decimal.digitsFrom start decimal.block.length -> c = '0') :
    decimal.rest start = 0 := by
  rw [rest, (Decimal.ofDigitChars_eq_zero_iff decimal.isDigit_of_mem_digitsFrom).mpr h,
    Nat.cast_zero, zero_div]

theorem rest_eq_one {start : Nat}
    (h : forall c, c ∈ decimal.digitsFrom start decimal.block.length -> c = '9') :
    decimal.rest start = 1 := by
  have hnines := Decimal.ofDigitChars_nines decimal.block.length
  rw [← decimal.length_digitsFrom start decimal.block.length, ← List.eq_replicate_of_mem h,
    length_digitsFrom] at hnines
  have hcast : (Nat.ofDigitChars 10 (decimal.digitsFrom start decimal.block.length) 0 : Rat) =
      10 ^ decimal.block.length - 1 := by
    rw [eq_sub_iff_add_eq]
    exact_mod_cast hnines
  rw [rest, hcast, div_self decimal.block_unit_pos.ne']

theorem digit_mem_digitsFrom_succ {start : Nat} (h : decimal.lead.length ≤ start) :
    decimal.digit start ∈ decimal.digitsFrom (start + 1) decimal.block.length := by
  have hpos := decimal.length_block_pos
  have hplace : start + 1 + (decimal.block.length - 1) = start + decimal.block.length := by omega
  refine List.mem_map.mpr ⟨decimal.block.length - 1, List.mem_range.mpr (by omega), ?_⟩
  rw [hplace, decimal.digit_add_block h]

theorem unit_lt_rest {start : Nat} (h : decimal.lead.length ≤ start)
    (hdigit : decimal.digit start ≠ '0') :
    1 / 10 ^ decimal.block.length < decimal.rest (start + 1) := by
  have hne : Nat.ofDigitChars 10 (decimal.digitsFrom (start + 1) decimal.block.length) 0 ≠ 0 := by
    intro hzero
    exact hdigit ((Decimal.ofDigitChars_eq_zero_iff decimal.isDigit_of_mem_digitsFrom).mp hzero _
      (decimal.digit_mem_digitsFrom_succ h))
  have hone : (1 : Rat) ≤
      Nat.ofDigitChars 10 (decimal.digitsFrom (start + 1) decimal.block.length) 0 := by
    exact_mod_cast Nat.one_le_iff_ne_zero.mpr hne
  have hunit := decimal.block_unit_pos
  calc
    1 / 10 ^ decimal.block.length < 1 / (10 ^ decimal.block.length - 1) := by
      apply one_div_lt_one_div_of_lt hunit
      linarith
    _ ≤ decimal.rest (start + 1) := by
      rw [rest]
      gcongr

theorem rest_lt_sub_unit {start : Nat} (h : decimal.lead.length ≤ start)
    (hdigit : decimal.digit start ≠ '9') :
    decimal.rest (start + 1) < 1 - 1 / 10 ^ decimal.block.length := by
  have hdigits : forall c, c ∈ decimal.digitsFrom (start + 1) decimal.block.length ->
      c.isDigit = true :=
    decimal.isDigit_of_mem_digitsFrom
  have hlt := Decimal.ofDigitChars_lt hdigits
  have hne := mt (Decimal.ofDigitChars_add_one_eq_iff hdigits).mp
    (fun hall => hdigit (hall _ (decimal.digit_mem_digitsFrom_succ h)))
  rw [length_digitsFrom] at hlt hne
  have htwo : (Nat.ofDigitChars 10 (decimal.digitsFrom (start + 1) decimal.block.length) 0 : Rat) +
      2 ≤ 10 ^ decimal.block.length := by
    exact_mod_cast (show _ + 2 ≤ 10 ^ decimal.block.length by omega)
  have hunit := decimal.block_unit_pos
  have hrest : decimal.rest (start + 1) ≤ 1 - 1 / (10 ^ decimal.block.length - 1) := by
    rw [rest, div_le_iff₀ hunit, sub_mul, one_div_mul_cancel hunit.ne']
    linarith
  have hshort : (1 : Rat) / 10 ^ decimal.block.length < 1 / (10 ^ decimal.block.length - 1) := by
    apply one_div_lt_one_div_of_lt hunit
    linarith
  linarith

section NotTerminating

variable {decimal} (hforever : ¬ Decimal.Terminates decimal.value)
include hforever

/-- Where the expansion does not end, the rest of it is never nothing and never a unit. -/
theorem rest_bounds {places : Nat} (h : decimal.lead.length ≤ places) :
    0 < decimal.rest places ∧ decimal.rest places < 1 := by
  constructor
  · apply lt_of_le_of_ne (decimal.rest_nonneg places)
    intro hzero
    exact hforever (decimal.terminates_of_rest_eq h (n := 0) (by rw [← hzero, Int.cast_zero]))
  · apply lt_of_le_of_ne (decimal.rest_le_one places)
    intro hone
    exact hforever (decimal.terminates_of_rest_eq h (n := 1) (by rw [hone, Int.cast_one]))

/-- No block of digits is nothing but zeros or nothing but nines. -/
theorem exists_digit_ne {places : Nat} (h : decimal.lead.length ≤ places) {d : Char}
    (hd : d = '0' ∨ d = '9') :
    exists c, c ∈ decimal.digitsFrom places decimal.block.length ∧ c ≠ d := by
  by_contra hnone
  have hall : forall c, c ∈ decimal.digitsFrom places decimal.block.length -> c = d :=
    fun c hc => by_contra fun hne => hnone ⟨c, hc, hne⟩
  rcases rest_bounds hforever h with ⟨hpos, hlt⟩
  rcases hd with rfl | rfl
  · rw [decimal.rest_eq_zero hall] at hpos
    exact lt_irrefl 0 hpos
  · rw [decimal.rest_eq_one hall] at hlt
    exact lt_irrefl 1 hlt

end NotTerminating

end RecurringDecimal
end AngleCalc
