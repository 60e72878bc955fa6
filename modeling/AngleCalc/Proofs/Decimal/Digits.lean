import AngleCalc.Proofs.Decimal.Spelling
import Mathlib.Tactic.Linarith

/-!
# Numbers written by digits

A list of decimal digits writes a number that is smaller than the power of ten of its
length, and the number determines the digits. The last digit that is not a nine takes the
carry when one is added, and the nines behind it become zeros.
-/

namespace AngleCalc
namespace Decimal

theorem bounds_of_isDigit {c : Char} (h : c.isDigit = true) :
    '0'.toNat ≤ c.toNat ∧ c.toNat < '0'.toNat + 10 := by
  have hbounds : 48 ≤ c.toNat ∧ c.toNat ≤ 57 := by
    simpa [Char.isDigit, UInt32.le_iff_toNat_le] using h
  have hzero : '0'.toNat = 48 := rfl
  omega

theorem toNat_sub_lt_ten {c : Char} (h : c.isDigit = true) : c.toNat - '0'.toNat < 10 := by
  have hbounds := bounds_of_isDigit h
  omega

theorem digitChar_toNat_sub {c : Char} (h : c.isDigit = true) :
    Nat.digitChar (c.toNat - '0'.toNat) = c := by
  have hbounds := bounds_of_isDigit h
  have hzero : '0'.toNat = 48 := rfl
  apply Char.toNat_inj.mp
  rw [Nat.toNat_digitChar_of_lt_ten (toNat_sub_lt_ten h)]
  omega

theorem ofDigitChars_append_zero (front back : List Char) :
    Nat.ofDigitChars 10 (front ++ back) 0 =
      10 ^ back.length * Nat.ofDigitChars 10 front 0 + Nat.ofDigitChars 10 back 0 := by
  rw [Nat.ofDigitChars_append, Nat.ofDigitChars_eq_ofDigitChars_zero]

theorem ofDigitChars_lt {digits : List Char} (h : forall c, c ∈ digits -> c.isDigit = true) :
    Nat.ofDigitChars 10 digits 0 < 10 ^ digits.length := by
  induction digits with
  | nil => exact Nat.one_pos
  | cons c digits ih =>
      have hrest := ih (fun d hd => h d (List.mem_cons_of_mem c hd))
      have hdigit := toNat_sub_lt_ten (h c List.mem_cons_self)
      rw [Nat.ofDigitChars_cons, Nat.ofDigitChars_eq_ofDigitChars_zero, List.length_cons,
        Nat.pow_succ]
      nlinarith

theorem ofDigitChars_eq_zero_iff {digits : List Char}
    (h : forall c, c ∈ digits -> c.isDigit = true) :
    Nat.ofDigitChars 10 digits 0 = 0 ↔ forall c, c ∈ digits -> c = '0' := by
  induction digits with
  | nil => simp
  | cons c digits ih =>
      have hfirst : c.toNat - '0'.toNat = 0 ↔ c = '0' := by
        constructor
        · intro hzero
          rw [← digitChar_toNat_sub (h c List.mem_cons_self), hzero]
          rfl
        · rintro rfl
          rfl
      rw [Nat.ofDigitChars_cons, Nat.ofDigitChars_eq_ofDigitChars_zero, Nat.add_eq_zero_iff,
        ih (fun d hd => h d (List.mem_cons_of_mem c hd)), List.forall_mem_cons]
      simpa using fun _ => hfirst

/-- The digits of a natural number, without a zero in front of others. -/
def IsNatural (n : Nat) (digits : List Char) : Prop :=
  Nat.ofDigitChars 10 digits 0 = n ∧ digits ≠ [] ∧
    (forall c, c ∈ digits -> c.isDigit = true) ∧ (digits.head? = some '0' -> digits = ['0'])

theorem toDigits_of_head?_eq_zero {n : Nat} (h : (Nat.toDigits 10 n).head? = some '0') :
    Nat.toDigits 10 n = ['0'] := by
  induction n using Nat.strongRecOn with
  | ind n ih =>
      by_cases hsmall : n < 10
      · rw [Nat.toDigits_of_lt_base hsmall] at h ⊢
        rw [Option.some.inj h]
      · rw [Nat.toDigits_of_base_le (by decide) (not_lt.mp hsmall),
          List.head?_append_of_ne_nil _ Nat.toDigits_ne_nil] at h
        have hfront := congrArg (fun digits => Nat.ofDigitChars 10 digits 0)
          (ih (n / 10) (by omega) h)
        have hzero : n / 10 = 0 := Nat.ofDigitChars_ten_toDigits.symm.trans hfront
        omega

theorem isNatural_toDigits (n : Nat) : IsNatural n (Nat.toDigits 10 n) :=
  ⟨Nat.ofDigitChars_ten_toDigits, Nat.toDigits_ne_nil,
    fun _ hc => Nat.isDigit_of_mem_toDigits (by decide) (by decide) hc, toDigits_of_head?_eq_zero⟩

/-!
## Padded digits
-/

theorem paddedDigits_append_digit {width n d : Nat} (hwidth : width ≠ 0) (hd : d < 10) :
    FixedPoint.paddedDigits (width + 1) (n * 10 + d) =
      FixedPoint.paddedDigits width n ++ [Nat.digitChar d] := by
  have hpad : forall front : List Char,
      (front ++ [Nat.digitChar d]).leftpad (width + 1) '0' =
        front.leftpad width '0' ++ [Nat.digitChar d] := by
    intro front
    have hlength : width + 1 - (front ++ [Nat.digitChar d]).length = width - front.length := by
      rw [List.length_append, List.length_singleton]
      omega
    rw [List.leftpad, List.leftpad, hlength, List.append_assoc]
  rcases Nat.eq_zero_or_pos n with rfl | hpos
  · rcases Nat.exists_eq_succ_of_ne_zero hwidth with ⟨rest, rfl⟩
    rw [Nat.zero_mul, Nat.zero_add, FixedPoint.paddedDigits, Nat.toDigits_of_lt_base hd,
      FixedPoint.paddedDigits, Nat.toDigits_zero]
    simp [List.leftpad, List.replicate_succ']
  · have htoDigits : Nat.toDigits 10 (n * 10 + d) =
        Nat.toDigits 10 n ++ [Nat.digitChar d] := by
      rw [Nat.toDigits_of_base_le (by decide) (by omega)]
      congr 3 <;> omega
    rw [FixedPoint.paddedDigits, htoDigits, hpad, FixedPoint.paddedDigits]

theorem exists_digits {width n : Nat} (h : n < 10 ^ width) :
    exists digits : List Char, digits.length = width ∧
      (forall c, c ∈ digits -> c.isDigit = true) ∧ Nat.ofDigitChars 10 digits 0 = n := by
  by_cases hwidth : width = 0
  · subst hwidth
    have hzero : n = 0 := Nat.lt_one_iff.mp h
    subst hzero
    exact ⟨[], rfl, fun _ hc => (List.not_mem_nil hc).elim, rfl⟩
  · exact ⟨FixedPoint.paddedDigits width n, FixedPoint.length_paddedDigits hwidth h,
      fun _ hc => FixedPoint.isDigit_of_mem_paddedDigits hc,
      FixedPoint.ofDigitChars_paddedDigits width n⟩

theorem paddedDigits_ofDigitChars {digits : List Char} (hne : digits ≠ [])
    (h : forall c, c ∈ digits -> c.isDigit = true) :
    FixedPoint.paddedDigits digits.length (Nat.ofDigitChars 10 digits 0) = digits := by
  induction digits using List.reverseRecOn with
  | nil => exact absurd rfl hne
  | append_singleton front c ih =>
      have hc := h c (by simp)
      have hvalue : Nat.ofDigitChars 10 (front ++ [c]) 0 =
          Nat.ofDigitChars 10 front 0 * 10 + (c.toNat - '0'.toNat) := by
        rw [ofDigitChars_append_zero, Nat.ofDigitChars_cons]
        simp [Nat.mul_comm]
      rw [hvalue, List.length_append, List.length_singleton]
      by_cases hfront : front = []
      · subst hfront
        have hdigit : FixedPoint.paddedDigits 1 (c.toNat - '0'.toNat) = [c] := by
          rw [FixedPoint.paddedDigits, Nat.toDigits_of_lt_base (toNat_sub_lt_ten hc),
            digitChar_toNat_sub hc]
          rfl
        simpa using hdigit
      · rw [paddedDigits_append_digit (by simpa using hfront) (toNat_sub_lt_ten hc),
          ih hfront (fun d hd => h d (List.mem_append_left _ hd)), digitChar_toNat_sub hc]

/-!
## The last digit that takes a carry
-/

def nextDigit (c : Char) : Char :=
  Nat.digitChar (c.toNat - '0'.toNat + 1)

theorem toNat_sub_lt_nine {c : Char} (h : c.isDigit = true) (hnine : c ≠ '9') :
    c.toNat - '0'.toNat < 9 := by
  have hlt := toNat_sub_lt_ten h
  have hne : c.toNat - '0'.toNat ≠ 9 := by
    intro heq
    apply hnine
    rw [← digitChar_toNat_sub h, heq]
    rfl
  omega

theorem toNat_nextDigit {c : Char} (h : c.isDigit = true) (hnine : c ≠ '9') :
    (nextDigit c).toNat = c.toNat + 1 := by
  have hlt := toNat_sub_lt_nine h hnine
  have hbounds := bounds_of_isDigit h
  have hzero : '0'.toNat = 48 := rfl
  rw [nextDigit, Nat.toNat_digitChar_of_lt_ten (by omega)]
  omega

theorem isDigit_nextDigit {c : Char} (h : c.isDigit = true) (hnine : c ≠ '9') :
    (nextDigit c).isDigit = true := by
  have hlt := toNat_sub_lt_nine h hnine
  rw [nextDigit, Nat.isDigit_digitChar]
  exact decide_eq_true (by omega)

theorem nextDigit_ne_zero {c : Char} (h : c.isDigit = true) (hnine : c ≠ '9') :
    nextDigit c ≠ '0' := by
  intro hzero
  have hnext := toNat_nextDigit h hnine
  have hbounds := bounds_of_isDigit h
  rw [hzero] at hnext
  omega

theorem ofDigitChars_nines (count : Nat) :
    Nat.ofDigitChars 10 (List.replicate count '9') 0 + 1 = 10 ^ count := by
  induction count with
  | zero => rfl
  | succ count ih =>
      have hnine : Nat.ofDigitChars 10 ['9'] 0 = 9 := rfl
      rw [List.replicate_succ', ofDigitChars_append_zero, hnine, List.length_singleton,
        Nat.pow_succ]
      omega

theorem ofDigitChars_add_one_eq_iff {digits : List Char}
    (h : forall c, c ∈ digits -> c.isDigit = true) :
    Nat.ofDigitChars 10 digits 0 + 1 = 10 ^ digits.length ↔ forall c, c ∈ digits -> c = '9' := by
  have hnines := ofDigitChars_nines digits.length
  constructor
  · intro hlast
    by_cases hne : digits = []
    · subst hne
      intro c hc
      cases hc
    · have hvalue : Nat.ofDigitChars 10 digits 0 =
          Nat.ofDigitChars 10 (List.replicate digits.length '9') 0 := by omega
      have hcopies : FixedPoint.paddedDigits (List.replicate digits.length '9').length
          (Nat.ofDigitChars 10 (List.replicate digits.length '9') 0) =
            List.replicate digits.length '9' :=
        paddedDigits_ofDigitChars (by simpa using hne)
          (fun c hc => by rw [List.eq_of_mem_replicate hc]; rfl)
      rw [List.length_replicate, ← hvalue, paddedDigits_ofDigitChars hne h] at hcopies
      exact (List.eq_replicate_iff.mp hcopies).right
  · intro hall
    rwa [← List.eq_replicate_of_mem hall] at hnines

theorem ofDigitChars_carry {c : Char} (h : c.isDigit = true) (hnine : c ≠ '9')
    (front : List Char) (count : Nat) :
    Nat.ofDigitChars 10 (front ++ c :: List.replicate count '9') 0 + 1 =
      Nat.ofDigitChars 10 (front ++ nextDigit c :: List.replicate count '0') 0 := by
  have hlt := toNat_sub_lt_nine h hnine
  have hnines := ofDigitChars_nines count
  have hlast : Nat.ofDigitChars 10 (c :: List.replicate count '9') 0 =
      10 ^ count * (c.toNat - '0'.toNat) + Nat.ofDigitChars 10 (List.replicate count '9') 0 := by
    rw [Nat.ofDigitChars_cons, Nat.ofDigitChars_eq_ofDigitChars_zero, List.length_replicate,
      Nat.mul_zero, Nat.zero_add]
  have hnext : Nat.ofDigitChars 10 (nextDigit c :: List.replicate count '0') 0 =
      10 ^ count * (c.toNat - '0'.toNat) + 10 ^ count := by
    rw [nextDigit, Nat.ofDigitChars_cons_digitChar_of_lt_ten (by omega),
      Nat.ofDigitChars_replicate_zero, Nat.mul_zero, Nat.zero_add, Nat.mul_succ]
  rw [ofDigitChars_append_zero, ofDigitChars_append_zero, hlast, hnext, List.length_cons,
    List.length_cons, List.length_replicate, List.length_replicate, ← hnines]
  omega

theorem exists_last_ne {d : Char} {digits : List Char}
    (h : exists c, c ∈ digits ∧ c ≠ d) :
    exists front c count, digits = front ++ c :: List.replicate count d ∧ c ≠ d := by
  induction digits using List.reverseRecOn with
  | nil =>
      rcases h with ⟨c, hc, _⟩
      cases hc
  | append_singleton digits last ih =>
      by_cases hlast : last = d
      · have hdigits : exists c, c ∈ digits ∧ c ≠ d := by
          rcases h with ⟨c, hc, hne⟩
          rcases List.mem_append.mp hc with hmem | hmem
          · exact ⟨c, hmem, hne⟩
          · exact absurd ((List.mem_singleton.mp hmem).trans hlast) hne
        rcases ih hdigits with ⟨front, c, count, rfl, hne⟩
        refine ⟨front, c, count + 1, ?_, hne⟩
        rw [hlast, List.append_assoc, List.cons_append, ← List.replicate_succ']
      · exact ⟨digits, last, 0, rfl, hlast⟩

end Decimal
end AngleCalc
