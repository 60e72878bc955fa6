import AngleCalc.Proofs.Decimal.Digits
import AngleCalc.Proofs.FixedPoint.Rounding

/-!
# Plain decimal literals

A plain literal is a text of digits with at most one point. It is read as the integer
that its digits write, divided by a power of ten. Rounding such a number drops the digits
behind the last place that is kept, so the number is kept if and only if all of them are
zeros.
-/

namespace AngleCalc

/-!
## Literals
-/

namespace Numeral

def IsPlain (cs : List Char) : Prop :=
  cs ≠ [] ∧ (forall c, c ∈ cs -> c.isDigit = true ∨ c = '.') ∧ cs.count '.' ≤ 1

instance (cs : List Char) : Decidable (IsPlain cs) :=
  -- The search goes through the text and not through all characters.
  letI : Decidable (forall c, c ∈ cs -> c.isDigit = true ∨ c = '.') := List.decidableBAll _ cs
  inferInstanceAs (Decidable (_ ∧ _ ∧ _))

def wholeOf (cs : List Char) : List Char :=
  cs.takeWhile (fun c => c != '.')

def fractionOf (cs : List Char) : List Char :=
  (cs.dropWhile (fun c => c != '.')).drop 1

variable {cs : List Char}

theorem isDigit_wholeOf (h : IsPlain cs) (c : Char) (hc : c ∈ wholeOf cs) :
    c.isDigit = true := by
  rcases h.right.left c ((List.takeWhile_prefix _).subset hc) with hdigit | hpoint
  · exact hdigit
  · have hne := List.mem_takeWhile_imp hc
    exact absurd hpoint (bne_iff_ne.mp hne)

/-- A plain literal has no point, or one between two runs of digits. -/
theorem eq_wholeOf_or (cs : List Char) :
    (cs = wholeOf cs ∧ fractionOf cs = []) ∨ cs = wholeOf cs ++ '.' :: fractionOf cs := by
  have hsplit := List.takeWhile_append_dropWhile (p := fun c => c != '.') (l := cs)
  cases hdrop : cs.dropWhile (fun c => c != '.') with
  | nil =>
      left
      rw [hdrop, List.append_nil] at hsplit
      exact ⟨hsplit.symm, by rw [fractionOf, hdrop]; rfl⟩
  | cons c rest =>
      right
      have hpoint : c = '.' := by
        have hhead := List.head_dropWhile_not (fun c => c != '.') (l := cs) (by simp [hdrop])
        simpa [hdrop] using hhead
      have hfraction : fractionOf cs = rest := by
        rw [fractionOf, hdrop]
        rfl
      rw [hdrop, hpoint] at hsplit
      rw [hfraction]
      exact hsplit.symm

theorem isDigit_fractionOf (h : IsPlain cs) (c : Char) (hc : c ∈ fractionOf cs) :
    c.isDigit = true := by
  rcases eq_wholeOf_or cs with ⟨_, hnil⟩ | hcs
  · rw [hnil] at hc
    cases hc
  · have hmem : c ∈ cs := by
      rw [hcs]
      simp [hc]
    rcases h.right.left c hmem with hdigit | rfl
    · exact hdigit
    · -- A second point is one too many.
      have hcount := h.right.right
      have hsecond := List.count_pos_iff.mpr hc
      rw [hcs, List.count_append, List.count_cons_self] at hcount
      omega

theorem readSign_eq_self (h : forall c, c ∈ cs -> c ≠ '-' ∧ c ≠ '+') :
    readSign cs = (false, cs) := by
  cases cs with
  | nil => rfl
  | cons c rest =>
      rcases h c List.mem_cons_self with ⟨hminus, hplus⟩
      simp [readSign, hminus, hplus]

theorem readSign_of_isPlain (h : IsPlain cs) : readSign cs = (false, cs) := by
  apply readSign_eq_self
  intro c hc
  rcases h.right.left c hc with hdigit | rfl
  · exact ⟨ne_of_isDigit hdigit rfl, ne_of_isDigit hdigit rfl⟩
  · decide

theorem not_isExponentMark_of_isPlain (h : IsPlain cs) (c : Char) (hc : c ∈ cs) :
    (!isExponentMark c) = true := by
  rcases h.right.left c hc with hdigit | rfl
  · simp [isExponentMark, ne_of_isDigit hdigit (d := 'e') rfl,
      ne_of_isDigit hdigit (d := 'E') rfl]
  · rfl

theorem read?_of_isPlain (h : IsPlain cs) :
    read? cs = some ⟨false, wholeOf cs ++ fractionOf cs, -(fractionOf cs).length⟩ := by
  have htake : cs.takeWhile (fun c => !isExponentMark c) = cs :=
    List.takeWhile_eq_self_iff.mpr (not_isExponentMark_of_isPlain h)
  have hdrop : cs.dropWhile (fun c => !isExponentMark c) = [] :=
    List.dropWhile_eq_nil_iff.mpr (not_isExponentMark_of_isPlain h)
  have hwhole : (cs.takeWhile (fun c => c != '.')).all Char.isDigit = true :=
    List.all_eq_true.mpr (isDigit_wholeOf h)
  have hfraction : ((cs.dropWhile (fun c => c != '.')).drop 1).all Char.isDigit = true :=
    List.all_eq_true.mpr (isDigit_fractionOf h)
  simp only [read?, readSign_of_isPlain h, htake, hdrop, hwhole, hfraction, readExponent?,
    List.isEmpty_eq_false_iff.mpr h.left]
  simp [wholeOf, fractionOf]

/-!
## Characters
-/

def IsNumeralChar (c : Char) : Prop :=
  c.isDigit = true ∨ c ∈ ['.', '+', '-', 'e', 'E']

theorem isNumeralChar_of_readSign (h : forall c, c ∈ (readSign cs).2 -> IsNumeralChar c) :
    forall c, c ∈ cs -> IsNumeralChar c := by
  unfold readSign at h
  split at h
  · exact List.forall_mem_cons.mpr ⟨.inr (by decide), h⟩
  · exact List.forall_mem_cons.mpr ⟨.inr (by decide), h⟩
  · exact h

theorem isNumeralChar_of_readInteger? {n : Int} (h : readInteger? cs = some n) :
    forall c, c ∈ cs -> IsNumeralChar c := by
  apply isNumeralChar_of_readSign
  simp only [readInteger?] at h
  split at h
  · cases h
  · rename_i hdigits
    rw [Bool.or_eq_true, not_or, Bool.not_eq_true, Bool.not_eq_true, Bool.not_eq_false'] at hdigits
    exact fun c hc => .inl (List.all_eq_true.mp hdigits.right c hc)

theorem isNumeralChar_of_readExponent? {exponent : Int} (h : readExponent? cs = some exponent)
    (hmark : forall c, cs.head? = some c -> isExponentMark c = true) :
    forall c, c ∈ cs -> IsNumeralChar c := by
  cases cs with
  | nil => exact fun c hc => by cases hc
  | cons mark rest =>
      rw [List.forall_mem_cons]
      refine ⟨.inr ?_, isNumeralChar_of_readInteger? h⟩
      have hmark := hmark mark rfl
      rw [isExponentMark, Bool.or_eq_true, beq_iff_eq, beq_iff_eq] at hmark
      rcases hmark with rfl | rfl <;> decide

theorem isNumeralChar_of_read? {numeral : Numeral} (h : read? cs = some numeral) :
    forall c, c ∈ cs -> IsNumeralChar c := by
  apply isNumeralChar_of_readSign
  simp only [read?] at h
  split at h
  · cases h
  · rename_i hdigits
    rw [Bool.or_eq_true, Bool.or_eq_true, not_or, not_or, Bool.not_eq_true, Bool.not_eq_true,
      Bool.not_eq_true, Bool.not_eq_false', Bool.not_eq_false'] at hdigits
    rcases hdigits with ⟨⟨_, hwhole⟩, hfraction⟩
    split at h
    · cases h
    · rename_i hexponent
      intro c hc
      rw [← List.takeWhile_append_dropWhile (p := fun c => !isExponentMark c)
        (l := (readSign cs).2), List.mem_append] at hc
      rcases hc with hmantissa | hrest
      · rcases eq_wholeOf_or ((readSign cs).2.takeWhile (fun c => !isExponentMark c)) with
          ⟨hparts, _⟩ | hparts
        · rw [hparts] at hmantissa
          exact .inl (List.all_eq_true.mp hwhole c hmantissa)
        · rw [hparts, List.mem_append, List.mem_cons] at hmantissa
          rcases hmantissa with hc | rfl | hc
          · exact .inl (List.all_eq_true.mp hwhole c hc)
          · exact .inr (by decide)
          · exact .inl (List.all_eq_true.mp hfraction c hc)
      · refine isNumeralChar_of_readExponent? hexponent ?_ c hrest
        intro mark hmark
        have hstop := List.head?_dropWhile_not (fun c => !isExponentMark c) (readSign cs).2
        rw [hmark] at hstop
        simpa using hstop

end Numeral

namespace Decimal

open Numeral

theorem isNumeralChar_of_readChars? {cs : List Char} {value : Rat}
    (h : readChars? cs = some value) : forall c, c ∈ cs -> IsNumeralChar c := by
  unfold readChars? at h
  split at h
  · cases h
  · rename_i hread
    exact isNumeralChar_of_read? hread

theorem readChars?_of_isPlain {cs : List Char} (h : IsPlain cs) :
    readChars? cs =
      if (fractionOf cs).length ≤ maxScale then
        some ((Nat.ofDigitChars 10 (wholeOf cs ++ fractionOf cs) 0 : Rat) /
          10 ^ (fractionOf cs).length)
      else none := by
  simp [readChars?, read?_of_isPlain h, Numeral.value, magnitude, div_eq_mul_inv]

theorem value_of_isPlain {cs : List Char} {value : Rat} (h : IsPlain cs)
    (hread : readChars? cs = some value) :
    value = (Nat.ofDigitChars 10 (wholeOf cs ++ fractionOf cs) 0 : Rat) /
      10 ^ (fractionOf cs).length := by
  rw [readChars?_of_isPlain h] at hread
  split at hread
  · cases hread
    rfl
  · cases hread

/-- A number has `places` digits behind the point if the last `dropped` of its digits, all
behind these places, are zeros. -/
theorem exists_div_pow_iff {front back kept dropped places : Nat} (hback : back < 10 ^ dropped)
    (hkept : kept ≤ places) (hall : dropped = 0 ∨ kept = places) :
    (exists n : Int, ((10 ^ dropped * front + back : Nat) : Rat) / 10 ^ (kept + dropped) =
      n / 10 ^ places) ↔ back = 0 := by
  have hten : forall k : Nat, (10 : Rat) ^ k ≠ 0 := fun k => pow_ne_zero k (by norm_num)
  constructor
  · rintro ⟨n, hn⟩
    rcases hall with rfl | rfl
    · exact Nat.lt_one_iff.mp hback
    · rw [pow_add, div_eq_div_iff (mul_ne_zero (hten _) (hten _)) (hten _), mul_comm,
        mul_left_comm, mul_right_inj' (hten _)] at hn
      have hint : (10 ^ dropped * front + back : Int) = n * 10 ^ dropped := by exact_mod_cast hn
      have hdvd : (10 ^ dropped : Int) ∣ back := by
        refine ⟨n - front, ?_⟩
        linarith
      exact Nat.eq_zero_of_dvd_of_lt (by exact_mod_cast hdvd) hback
  · rintro rfl
    rcases Nat.exists_eq_add_of_le hkept with ⟨more, rfl⟩
    refine ⟨front * 10 ^ more, ?_⟩
    have hzeros := hten dropped
    have hplaces := hten kept
    have hmore := hten more
    push_cast
    rw [pow_add, pow_add]
    field_simp
    simp

theorem exists_div_iff_of_isPlain {cs : List Char} {value : Rat} (h : IsPlain cs)
    (hread : readChars? cs = some value) (places : Nat) :
    (exists n : Int, value = n / 10 ^ places) ↔
      forall c, c ∈ (fractionOf cs).drop places -> c = '0' := by
  have hdropped : forall c, c ∈ (fractionOf cs).drop places -> c.isDigit = true :=
    fun c hc => isDigit_fractionOf h c (List.mem_of_mem_drop hc)
  have hsplit : wholeOf cs ++ fractionOf cs =
      (wholeOf cs ++ (fractionOf cs).take places) ++ (fractionOf cs).drop places := by
    rw [List.append_assoc, List.take_append_drop]
  have hlength : (fractionOf cs).length =
      min places (fractionOf cs).length + ((fractionOf cs).drop places).length := by
    rw [List.length_drop]
    omega
  have hall : ((fractionOf cs).drop places).length = 0 ∨
      min places (fractionOf cs).length = places := by
    rw [List.length_drop]
    omega
  rw [← ofDigitChars_eq_zero_iff hdropped, value_of_isPlain h hread, hsplit,
    ofDigitChars_append_zero, hlength]
  exact exists_div_pow_iff (ofDigitChars_lt hdropped) (Nat.min_le_left _ _) hall

end Decimal
end AngleCalc
