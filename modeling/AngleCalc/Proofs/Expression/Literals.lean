import AngleCalc.Proofs.Decimal.Literal
import AngleCalc.Proofs.Expression.Reading
import AngleCalc.Proofs.Lexeme.Numbers

/-!
# Numbers as expressions

A number that stands alone is one token, which holds the canonical text of the number, and
a negative number is a minus sign with such a token behind it. Both are evaluated under any
symbol table, since no name is looked up. What is evaluated is the canonical text, so the
digits of a number that do not fit into it are lost.
-/

namespace AngleCalc

/-!
## Signs
-/

namespace Spelling

def unsigned (spelling : Spelling) : Spelling :=
  { spelling with negative := false }

theorem chars_of_negative {spelling : Spelling} (h : spelling.negative = true) :
    spelling.chars = '-' :: spelling.unsigned.chars := by
  rw [chars, h]
  rfl

theorem value_of_negative {spelling : Spelling} (h : spelling.negative = true) :
    spelling.numeral.value = -spelling.unsigned.numeral.value := by
  have hsigned : spelling.numeral.negative = true := h
  have hunsigned : spelling.unsigned.numeral.negative = false := rfl
  rw [Numeral.value, if_pos hsigned, Numeral.value, hunsigned]
  rfl

end Spelling

namespace Decimal

theorem parse_toText_of_eq_div {x : Rat} {n : Int} (h : x = n / 10 ^ canonicalDigits) :
    parse (toText x) = .ok x := by
  have hrounded : rounded x = x := (roundsTo_rounded x).eq_self_iff.mpr ⟨n, h⟩
  rw [parse_toText]
  exact congrArg Except.ok hrounded

end Decimal

namespace Expression

open Lexeme

variable {table : SymbolTable}

/-!
## One number
-/

theorem evaluate_of_visible {text : String} {tokens : List Token}
    (hvisible : visible table text.toList = tokens)
    (herror : forall token, token ∈ tokens -> token.kind ≠ .error) :
    evaluate table text = valueOf table (Infix.insertProducts tokens) := by
  have hread : read table text = .ok (Infix.insertProducts tokens) := by
    refine read_eq_ok_iff.mpr ⟨?_, ?_⟩
    · rwa [hvisible]
    · rw [hvisible]
  rw [evaluate, hread]

theorem valueOf_number {digits : String} {value : Rat} (h : Decimal.parse digits = .ok value) :
    valueOf table [.number digits] = .ok value := by
  simp [valueOf, Postfix.ofInfix, Postfix.convert, Postfix.evaluate, Postfix.run, Postfix.step,
    Token.number, h, Except.map]

theorem valueOf_minus_number {digits : String} {value : Rat}
    (h : Decimal.parse digits = .ok value) :
    valueOf table [.operator "-", .number digits] = .ok (-value) := by
  have hminus : Operator.ofSymbol? "-" = some .minus := by decide
  have hzero : Decimal.parse "0" = .ok 0 := by decide +kernel
  have hpostfix : Postfix.ofInfix [.operator "-", .number digits] =
      [.number "0", .number digits, .operator "-"] := rfl
  rw [valueOf, hpostfix]
  simp [Postfix.evaluate, Postfix.run, Postfix.step, Token.number, Token.operator, hminus, h,
    hzero, Except.map, Postfix.applyOperator, Operator.apply]

theorem evaluate_of_number {text digits : String} {value : Rat}
    (hvisible : visible table text.toList = [.number digits])
    (h : Decimal.parse digits = .ok value) : evaluate table text = .ok value := by
  have hproducts : Infix.insertProducts [.number digits] = [.number digits] := rfl
  rw [evaluate_of_visible hvisible (by simp [Token.number]), hproducts, valueOf_number h]

theorem evaluate_toText (table : SymbolTable) (x : Rat) :
    evaluate table (Decimal.toText x) = .ok (Decimal.rounded x) := by
  have htext := Decimal.toList_toText x
  have hvalue := Decimal.value_canonicalSpelling x
  have hlength : (Decimal.canonicalSpelling x).fraction.length ≤ Numeral.maxScale :=
    (Decimal.length_fraction_canonicalSpelling x).trans (by decide)
  cases hsign : (Decimal.canonicalSpelling x).negative with
  | false =>
      apply evaluate_of_number _ (Decimal.parse_toText x)
      rw [htext, visible_spelling hsign hlength, hvalue, Decimal.toText_rounded]
  | true =>
      have hvisible : visible table (Decimal.toText x).toList =
          [.operator "-", .number (Decimal.toText (-Decimal.rounded x))] := by
        rw [Spelling.value_of_negative hsign] at hvalue
        have hminus : visible table ('-' :: (Decimal.canonicalSpelling x).unsigned.chars) =
            .operator "-" :: visible table (Decimal.canonicalSpelling x).unsigned.chars :=
          visible_character _ (by decide) (by decide +kernel) (by decide)
        have hunsigned : (Decimal.canonicalSpelling x).unsigned.negative = false := rfl
        rw [htext, Spelling.chars_of_negative hsign, hminus, visible_spelling hunsigned hlength,
          ← hvalue, neg_neg]
      have hdigits : Decimal.parse (Decimal.toText (-Decimal.rounded x)) =
          .ok (-Decimal.rounded x) := by
        rcases Decimal.roundsTo_rounded x with ⟨n, _, hn⟩
        apply Decimal.parse_toText_of_eq_div (n := -n)
        rw [hn, Int.cast_neg, neg_div]
      have hproducts : Infix.insertProducts
          [.operator "-", .number (Decimal.toText (-Decimal.rounded x))] =
          [.operator "-", .number (Decimal.toText (-Decimal.rounded x))] := rfl
      rw [evaluate_of_visible hvisible (by simp [Token.number, Token.operator]), hproducts,
        valueOf_minus_number hdigits, neg_neg]

/-!
## Canonical texts
-/

/-- A canonical text writes the number rounded to the digits that it may have, and the same
number is read from it on its own and as an expression. The text of the rounded number is
the same text. -/
theorem canonical_text_stable (x : Rat) :
    exists y, FixedPoint.RoundsTo x 78 y ∧
      Decimal.parse (Decimal.toText x) = .ok y ∧
      (y = x ↔ exists n : Int, x = n / 10 ^ 78) ∧
      Decimal.toText y = Decimal.toText x ∧
      Decimal.toText x ≠ "-0" ∧
      (Decimal.toText x).toList.getLast? ≠ some '.' ∧
      ('.' ∈ (Decimal.toText x).toList -> (Decimal.toText x).toList.getLast? ≠ some '0') ∧
      forall table, evaluate table (Decimal.toText x) = Decimal.parse (Decimal.toText x) := by
  refine ⟨Decimal.rounded x, Decimal.roundsTo_rounded x, Decimal.parse_toText x,
    (Decimal.roundsTo_rounded x).eq_self_iff, Decimal.toText_rounded x, ?_, ?_, ?_, ?_⟩
  · rw [Ne, ← String.toList_inj, Decimal.toList_toText]
    exact FixedPoint.chars_trimmed_ne _ _
  · rw [Decimal.toList_toText]
    exact Spelling.getLast?_chars_ne_point _
  · rw [Decimal.toList_toText]
    exact Spelling.getLast?_chars_trimmed _
  · intro table
    rw [evaluate_toText, Decimal.parse_toText]
    rfl

/-!
## Plain literals
-/

theorem read_of_isPlain {cs : List Char} (h : Numeral.IsPlain cs) :
    NumericRun.read false cs = ⟨cs, [], false, false⟩ := by
  have hwhole := Numeral.isDigit_wholeOf h
  have hfraction := Numeral.isDigit_fractionOf h
  rcases Numeral.eq_wholeOf_or cs with ⟨hcs, _⟩ | hcs
  · rw [hcs]
    exact NumericRun.read_digits false hwhole
  · have hrun := NumericRun.read_point hwhole hfraction
    rwa [← hcs] at hrun

theorem visible_of_isPlain {cs : List Char} {value : Rat} (h : Numeral.IsPlain cs)
    (hread : Decimal.readChars? cs = some value) :
    visible table cs = [.number (Decimal.toText value)] := by
  rcases List.exists_cons_of_ne_nil h.left with ⟨c, rest, rfl⟩
  have hstarts : startsNumber c = true := by
    rcases h.right.left c List.mem_cons_self with hdigit | rfl
    · exact Bool.or_eq_true_iff.mpr (.inl hdigit)
    · rfl
  exact visible_numeral hstarts (read_of_isPlain h) hread

/-- A plain literal is evaluated as the number that it writes, rounded to 78 digits behind
the point. It keeps its value if and only if all other digits behind the point are zeros. -/
theorem evaluate_literal {literal : String} {value : Rat}
    (hplain : Numeral.IsPlain literal.toList) (hparse : Decimal.parse literal = .ok value) :
    exists kept, FixedPoint.RoundsTo value 78 kept ∧
      (forall table, evaluate table literal = .ok kept) ∧
      (kept = value ↔ forall c, c ∈ (Numeral.fractionOf literal.toList).drop 78 -> c = '0') := by
  have hread : Decimal.readChars? literal.toList = some value := by
    unfold Decimal.parse at hparse
    split at hparse
    · rename_i hsome
      cases hparse
      exact hsome
    · cases hparse
  have hrounds := Decimal.roundsTo_rounded value
  refine ⟨Decimal.rounded value, hrounds, ?_, ?_⟩
  · intro table
    exact evaluate_of_number (visible_of_isPlain hplain hread) (Decimal.parse_toText value)
  · rw [hrounds.eq_self_iff]
    exact Decimal.exists_div_iff_of_isPlain hplain hread 78

/-- The one behind seventy-eight zeros is lost. -/
theorem evaluate_literal_loses_digit :
    let literal := String.ofList ('0' :: '.' :: List.replicate 78 '0' ++ ['1'])
    Numeral.IsPlain literal.toList ∧ Decimal.parse literal = .ok (1 / 10 ^ 79) ∧
      forall table, evaluate table literal = .ok 0 := by
  intro literal
  have hplain : Numeral.IsPlain literal.toList := by decide +kernel
  have hdigits : Nat.ofDigitChars 10
      (Numeral.wholeOf literal.toList ++ Numeral.fractionOf literal.toList) 0 = 1 := by
    decide +kernel
  have hlength : (Numeral.fractionOf literal.toList).length = 79 := by decide +kernel
  have hparse : Decimal.parse literal = .ok (1 / 10 ^ 79) := by
    rw [Decimal.parse, Decimal.readChars?_of_isPlain hplain, hdigits, hlength,
      if_pos (by decide), Nat.cast_one]
  rcases evaluate_literal hplain hparse with ⟨kept, hrounds, hevaluate, _⟩
  have hzero : FixedPoint.RoundsTo (1 / 10 ^ 79) 78 0 := by
    refine ⟨0, ⟨?_, ?_⟩, by simp⟩
    · norm_num
    · norm_num
  rw [hrounds.unique hzero] at hevaluate
  exact ⟨hplain, hparse, hevaluate⟩

end Expression
end AngleCalc
