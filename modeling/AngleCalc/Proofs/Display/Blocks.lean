import AngleCalc.Display.Recurring
import AngleCalc.Proofs.Decimal.Digits
import Mathlib.Data.List.GetD

/-!
# The first block that repeats

A block fills the rest of the digits if every digit behind it continues the repetition. The
search finds the first of these blocks, where the earliest start comes before the shortest
length, and it finds none only if there is none.
-/

namespace AngleCalc
namespace Display

/-!
## Searching numbers in order
-/

theorem findSome?_range_eq_some_iff {β : Type} {f : Nat -> Option β} {n : Nat} {found : β} :
    (List.range n).findSome? f = some found ↔
      exists k, k < n ∧ f k = some found ∧ forall j, j < k -> f j = none := by
  induction n with
  | zero => simp
  | succ n ih =>
      rw [List.range_succ, List.findSome?_append, Option.or_eq_some_iff, ih,
        List.findSome?_eq_none_iff, List.findSome?_singleton]
      constructor
      · rintro (⟨k, hk, hfound, hbefore⟩ | ⟨hnone, hlast⟩)
        · exact ⟨k, Nat.lt_succ_of_lt hk, hfound, hbefore⟩
        · exact ⟨n, Nat.lt_succ_self n, hlast, fun j hj => hnone j (List.mem_range.mpr hj)⟩
      · rintro ⟨k, hk, hfound, hbefore⟩
        rcases Nat.eq_or_lt_of_le (Nat.le_of_lt_succ hk) with rfl | hlt
        · exact .inr ⟨fun j hj => hbefore j (List.mem_range.mp hj), hfound⟩
        · exact .inl ⟨k, hlt, hfound, hbefore⟩

/-!
## Blocks
-/

/-- The block of the given start and length fills the rest of the digits, twice at least. -/
structure IsBlock (digits : Array Char) (start length : Nat) : Prop where
  pos : 0 < length
  visible : start + minRepetition ≤ digits.size
  twice : start + 2 * length ≤ digits.size
  continues : forall i, start + length ≤ i -> i < digits.size ->
    continuesBlock digits start length i = true

theorem fillsRest_eq_true {digits : Array Char} {start length : Nat} :
    fillsRest digits start length = true ↔
      forall i, start + length ≤ i -> i < digits.size ->
        continuesBlock digits start length i = true := by
  rw [fillsRest, Nat.all_eq_finRange_all, List.all_eq_true]
  constructor
  · intro h i hle hlt
    have hplace : continuesBlock digits start length (start + length + (i - (start + length))) =
        true :=
      h ⟨i - (start + length), by omega⟩ (List.mem_finRange _)
    rwa [Nat.add_sub_of_le hle] at hplace
  · intro h k _
    have hlt := k.isLt
    exact h _ (Nat.le_add_right _ _) (by omega)

theorem isBlock_succ_iff {digits : Array Char} {start k : Nat} :
    IsBlock digits start (k + 1) ↔
      start < digits.size + 1 - minRepetition ∧ k < (digits.size - start) / 2 ∧
        fillsRest digits start (k + 1) = true := by
  rw [fillsRest_eq_true]
  constructor
  · intro h
    have hvisible := h.visible
    have htwice := h.twice
    exact ⟨by omega, by omega, h.continues⟩
  · rintro ⟨hvisible, htwice, hcontinues⟩
    exact ⟨Nat.succ_pos k, by omega, by omega, hcontinues⟩

theorem fillsRest_eq_false {digits : Array Char} {start k : Nat}
    (hstart : start < digits.size + 1 - minRepetition) (hk : k < (digits.size - start) / 2) :
    fillsRest digits start (k + 1) = false ↔ ¬ IsBlock digits start (k + 1) := by
  rw [← Bool.not_eq_true, isBlock_succ_iff]
  constructor
  · rintro hnot ⟨_, _, hfills⟩
    exact hnot hfills
  · intro hnone hfills
    exact hnone ⟨hstart, hk, hfills⟩

/-- The search finds a block if and only if no other one comes before it. -/
theorem recurringBlock?_eq_some_iff {digits : Array Char} {start length : Nat} :
    recurringBlock? digits = some (start, length) ↔
      IsBlock digits start length ∧ forall other more, IsBlock digits other more ->
        start < other ∨ start = other ∧ length ≤ more := by
  simp only [recurringBlock?, findSome?_range_eq_some_iff, Option.map_eq_some_iff,
    Option.map_eq_none_iff, List.find?_range_eq_some, List.find?_range_eq_none, List.mem_range,
    Bool.not_eq_true', Prod.mk.injEq]
  constructor
  · rintro ⟨first, hstart, ⟨k, ⟨hfills, hk, hshorter⟩, rfl, rfl⟩, hearlier⟩
    refine ⟨isBlock_succ_iff.mpr ⟨hstart, hk, hfills⟩, ?_⟩
    intro other more hblock
    rcases Nat.exists_eq_add_one_of_ne_zero (Nat.ne_of_gt hblock.pos) with ⟨j, rfl⟩
    rcases isBlock_succ_iff.mp hblock with ⟨hother, hj, _⟩
    rcases Nat.lt_trichotomy first other with hlt | rfl | hgt
    · exact .inl hlt
    · right
      refine ⟨rfl, Nat.le_of_not_lt ?_⟩
      intro hlt
      exact (fillsRest_eq_false hother hj).mp (hshorter j (by omega)) hblock
    · exact absurd hblock ((fillsRest_eq_false hother hj).mp (hearlier other hgt j hj))
  · rintro ⟨hblock, hfirst⟩
    rcases Nat.exists_eq_add_one_of_ne_zero (Nat.ne_of_gt hblock.pos) with ⟨k, rfl⟩
    rcases isBlock_succ_iff.mp hblock with ⟨hstart, hk, hfills⟩
    -- A block that fills the rest before this one would come first.
    have hnone : forall other j, other < digits.size + 1 - minRepetition ->
        j < (digits.size - other) / 2 -> (other < start ∨ other = start ∧ j < k) ->
        fillsRest digits other (j + 1) = false := by
      intro other j hother hj hbefore
      rw [fillsRest_eq_false hother hj]
      intro hearlier
      have hcases := hfirst other (j + 1) hearlier
      omega
    refine ⟨start, hstart, ⟨k, ⟨hfills, hk, ?_⟩, rfl, rfl⟩, ?_⟩
    · intro j hj
      exact hnone start j hstart (by omega) (.inr ⟨rfl, hj⟩)
    · intro other hother j hj
      exact hnone other j (by omega) hj (.inl hother)

theorem recurringBlock?_eq_none_iff {digits : Array Char} :
    recurringBlock? digits = none ↔ forall start length, ¬ IsBlock digits start length := by
  simp only [recurringBlock?, List.findSome?_eq_none_iff, Option.map_eq_none_iff,
    List.find?_range_eq_none, List.mem_range, Bool.not_eq_true']
  constructor
  · intro h start length hblock
    rcases Nat.exists_eq_add_one_of_ne_zero (Nat.ne_of_gt hblock.pos) with ⟨k, rfl⟩
    rcases isBlock_succ_iff.mp hblock with ⟨hstart, hk, _⟩
    exact (fillsRest_eq_false hstart hk).mp (h start hstart k hk) hblock
  · intro h start hstart k hk
    exact (fillsRest_eq_false hstart hk).mpr (h start (k + 1))

/-!
## Blocks of a text
-/

def blockDigit (digits : List Char) (start length i : Nat) : Char :=
  digits.getD (start + (i - start) % length) '0'

/-- Six digits or more from `start` to the end are a block of the given length, the block
again, and so on as far as there are digits. The last one may be one more. -/
structure EndsInBlock (digits : List Char) (start length : Nat) : Prop where
  one_le : 1 ≤ length
  visible : 6 ≤ digits.length - start
  twice : start + 2 * length ≤ digits.length
  repeats : forall i, start + length ≤ i -> i < digits.length ->
    digits.getD i '0' = blockDigit digits start length i ∨
      i + 1 = digits.length ∧
        (digits.getD i '0').toNat = (blockDigit digits start length i).toNat + 1

theorem continuesBlock_toArray {digits : List Char} {start length i : Nat} :
    continuesBlock digits.toArray start length i = true ↔
      digits.getD i '0' = blockDigit digits start length i ∨
        i + 1 = digits.length ∧
          (digits.getD i '0').toNat = (blockDigit digits start length i).toNat + 1 := by
  simp [continuesBlock, blockDigit]

theorem isBlock_toArray_iff {digits : List Char} {start length : Nat} :
    IsBlock digits.toArray start length ↔ EndsInBlock digits start length := by
  have hsix : minRepetition = 6 := rfl
  constructor
  · rintro ⟨hpos, hvisible, htwice, hcontinues⟩
    rw [List.size_toArray] at hvisible htwice hcontinues
    exact ⟨hpos, by omega, htwice, fun i hle hlt => continuesBlock_toArray.mp (hcontinues i hle hlt)⟩
  · rintro ⟨hpos, hvisible, htwice, hrepeats⟩
    refine ⟨hpos, ?_, ?_, ?_⟩
    · rw [List.size_toArray]
      omega
    · rwa [List.size_toArray]
    · intro i hle hlt
      exact continuesBlock_toArray.mpr (hrepeats i hle hlt)

theorem isDigit_blockDigit {digits : List Char}
    (hdigits : forall c, c ∈ digits -> c.isDigit = true) (start length i : Nat) :
    (blockDigit digits start length i).isDigit = true := by
  unfold blockDigit
  rcases Nat.lt_or_ge (start + (i - start) % length) digits.length with hlt | hge
  · rw [List.getD_eq_getElem _ _ hlt]
    exact hdigits _ (List.getElem_mem hlt)
  · rw [List.getD_eq_default _ _ hge]
    rfl

theorem toNat_toUInt8_add_one {c : Char} (h : c.isDigit = true) :
    (c.toUInt8 + 1).toNat = c.toNat + 1 := by
  have hbounds := Decimal.bounds_of_isDigit h
  have hzero : '0'.toNat = 48 := rfl
  have hbyte : c.toUInt8.toNat = c.toNat % 256 := rfl
  rw [UInt8.toNat_add, hbyte]
  simp only [UInt8.toNat_one]
  omega

/-- The search in a text of digits finds the first block that the digits end in, and it finds
none only if there is none. The digit that may be one more than the one of the block is computed
without an overflow of its byte. -/
theorem recurringBlock?_first {digits : List Char}
    (hdigits : forall c, c ∈ digits -> c.isDigit = true) :
    (forall start length, recurringBlock? digits.toArray = some (start, length) ↔
      EndsInBlock digits start length ∧ forall other more, EndsInBlock digits other more ->
        start < other ∨ start = other ∧ length ≤ more) ∧
    (recurringBlock? digits.toArray = none ↔
      forall start length, ¬ EndsInBlock digits start length) ∧
    forall start length i, ((blockDigit digits start length i).toUInt8 + 1).toNat =
      (blockDigit digits start length i).toNat + 1 := by
  refine ⟨?_, ?_, ?_⟩
  · intro start length
    rw [recurringBlock?_eq_some_iff]
    simp only [isBlock_toArray_iff]
  · rw [recurringBlock?_eq_none_iff]
    simp only [isBlock_toArray_iff]
  · intro start length i
    exact toNat_toUInt8_add_one (isDigit_blockDigit hdigits start length i)

/-- In 1666667 the block is the first six: the last digit is one more, and no block starts with
the one. In 1666668 there is none. -/
theorem recurringBlock?_first_sixes :
    (forall c, c ∈ ['1', '6', '6', '6', '6', '6', '7'] -> c.isDigit = true) ∧
      EndsInBlock ['1', '6', '6', '6', '6', '6', '7'] 1 1 ∧
      (forall c, c ∈ ['1', '6', '6', '6', '6', '6', '8'] -> c.isDigit = true) ∧
      forall start length, ¬ EndsInBlock ['1', '6', '6', '6', '6', '6', '8'] start length := by
  have hsevens : forall c, c ∈ ['1', '6', '6', '6', '6', '6', '7'] -> c.isDigit = true :=
    List.all_eq_true.mp rfl
  have heights : forall c, c ∈ ['1', '6', '6', '6', '6', '6', '8'] -> c.isDigit = true :=
    List.all_eq_true.mp rfl
  refine ⟨hsevens, ?_, heights, ?_⟩
  · exact (((recurringBlock?_first hsevens).left 1 1).mp (by decide)).left
  · exact (recurringBlock?_first heights).right.left.mp (by decide)

end Display
end AngleCalc
