import AngleCalc.Proofs.Expression.Literals
import AngleCalc.Proofs.Expression.Naming
import AngleCalc.Proofs.Lexeme.Legible
import AngleCalc.Proofs.Postfix.Causes
import AngleCalc.Proofs.Power.Exact

/-!
# Negative powers of zero

Zero has no negative power. The exact computation of powers finds this out and fails with a
division by zero. The computation in double precision does not: it fails for its result, if it
fails, and never with a division by zero. An expression that takes such a power of zero does what
the power does.
-/

namespace AngleCalc

namespace Power

/-!
## The power
-/

theorem inWindow_zero_iff {n : Int} : InWindow 0 n ↔ n.natAbs ≤ 1024 := by
  have hsize : max (FixedPoint.bitLength (0 : Rat).num.natAbs)
      (FixedPoint.bitLength (0 : Rat).den) = 1 := by decide
  rw [InWindow, hsize]
  omega

theorem floatPower_ne_divisionByZero (x y : Rat) : floatPower x y ≠ .error .divisionByZero := by
  intro hfails
  rcases floatPower_error hfails with ⟨call, hcall⟩
  cases hcall

theorem isExact_zero_iff {y : Rat} (hy : y < 0) :
    (y.den = 1 ∧ isExact 0 y.num = true) ↔ y.den = 1 ∧ -1024 ≤ y := by
  apply and_congr_right
  intro hden
  have hnum : (y.num : Rat) = y := Rat.coe_int_num_of_den_eq_one hden
  have hneg : y.num < 0 := Rat.num_neg.mpr hy
  have hlow : -1024 ≤ y ↔ -1024 ≤ y.num := by
    rw [← hnum]
    exact_mod_cast Iff.rfl
  rw [isExact_iff, inWindow_zero_iff, hlow]
  omega

theorem power_zero {y : Rat} (hy : y < 0) :
    power 0 y = if y.den = 1 ∧ -1024 ≤ y then .error .divisionByZero else floatPower 0 y := by
  have hneg : y.num < 0 := Rat.num_neg.mpr hy
  simp only [power, isExact_zero_iff hy, intPower_eq, hneg, and_self, if_true]

end Power

/-!
## The power as an expression
-/

namespace Postfix

theorem ofInfix_operator_group {tokens : List Token} (operator : Operator) (digits : String)
    (hbalanced : Infix.IsBalanced tokens) :
    ofInfix (.number digits :: operator.token :: .opening :: (tokens ++ [.closing])) =
      .number digits :: (ofInfix tokens ++ [operator.token]) := by
  have hsign : signOperand false operator = [] := rfl
  have hheld : convert [operator.token] false [] = [operator.token] := rfl
  have hend : FollowsOperand [] := trivial
  have hgroup : convert (.opening :: [operator.token]) true (tokens ++ .closing :: []) =
      convert [] true tokens ++ convert [operator.token] false [] :=
    convert_balanced rfl rfl hend true hbalanced.unmatchedClosing_eq_zero
      hbalanced.unmatchedOpening_eq_zero
  rw [ofInfix, convert_value _ _ _ rfl,
    convert_operator _ _ _ (Operator.operator?_token operator), hsign, List.takeWhile_nil,
    List.dropWhile_nil, convert_opening _ _ _ rfl, hgroup, hheld]
  rfl

end Postfix

namespace Expression

open Infix Lexeme Postfix

variable {table : SymbolTable}

theorem valueOf_operator_group {tokens : List Token} {operator : Operator} {digits : String}
    {x y : Rat} (hbalanced : IsBalanced tokens) (hnumber : Decimal.parse digits = .ok x)
    (hvalue : valueOf table tokens = .ok y) :
    valueOf table (.number digits :: operator.token :: .opening :: (tokens ++ [.closing])) =
      operator.apply x y := by
  have hleft : step table [] (.number digits) = .ok [x] := by
    simp [step, Token.number, hnumber, Except.map]
  have hright : run table ([] ++ [x]) (ofInfix tokens) = .ok ([y] ++ [x]) :=
    run_above (evaluate_eq_ok.mp hvalue) [x]
  have hresult : step table [y, x] operator.token = applyOperator operator [y, x] := by
    have hsymbol := Operator.ofSymbol?_singleton operator
    simp [step, Operator.token, Token.operator, hsymbol]
  rw [List.nil_append, List.singleton_append] at hright
  rw [valueOf, ofInfix_operator_group operator digits hbalanced, Postfix.evaluate, run, hleft]
  simp only [run_append, hright, run, hresult, applyOperator]
  cases operator.apply x y <;> rfl

theorem visible_zero_power (cs : List Char) :
    visible table ('0' :: '^' :: '(' :: (cs ++ [')'])) =
      .number "0" :: Operator.power.token :: .opening :: (visible table cs ++ [.closing]) := by
  have hpower : standsAlone '^' = true := by decide +kernel
  have hopen : standsAlone '(' = true := by decide +kernel
  have hclose : standsAlone ')' = true := by decide +kernel
  have hplain : Numeral.IsPlain ['0'] := by decide
  have hzero : visible table ['0'] = [.number "0"] := by
    have hread : Decimal.readChars? ['0'] = some 0 := by decide +kernel
    have htext : Decimal.toText 0 = "0" := by decide +kernel
    rw [visible_of_isPlain hplain hread, htext]
  change visible table (['0'] ++ '^' :: '(' :: (cs ++ [')'])) = _
  rw [visible_append_cons (isBoundary_of_standsAlone hpower), hzero, visible_standsAlone _ hpower,
    visible_standsAlone _ hopen, visible_append_cons (isBoundary_of_standsAlone hclose),
    visible_standsAlone _ hclose, visible_nil]
  rfl

theorem insertProducts_operator_group (digits : String) (operator : Operator)
    (tokens : List Token) :
    insertProducts (.number digits :: operator.token :: .opening :: (tokens ++ [.closing])) =
      .number digits :: operator.token :: .opening :: (insertProducts tokens ++ [.closing]) := by
  rw [insertProducts, insertProductsAfter_cons, insertProductsAfter_cons,
    insertProductsAfter_group _ tokens [] rfl rfl]
  rfl

theorem evaluate_zero_power {exponent : String} {tokens : List Token} {y : Rat}
    (hread : read table exponent = .ok tokens) (hbalanced : IsBalanced tokens)
    (hvalue : valueOf table tokens = .ok y) :
    evaluate table ("0^(" ++ exponent ++ ")") = Power.power 0 y := by
  rcases read_eq_ok_iff.mp hread with ⟨herror, rfl⟩
  have hzero : Decimal.parse "0" = .ok 0 := by decide +kernel
  have htext : ("0^(" ++ exponent ++ ")").toList =
      '0' :: '^' :: '(' :: (exponent.toList ++ [')']) := by
    rw [String.toList_append, String.toList_append, List.append_assoc]
    rfl
  have hvisible : visible table ("0^(" ++ exponent ++ ")").toList = _ :=
    htext ▸ visible_zero_power exponent.toList
  rw [evaluate_of_visible hvisible, insertProducts_operator_group,
    valueOf_operator_group hbalanced hzero hvalue]
  · rfl
  · rw [List.forall_mem_cons, List.forall_mem_cons, List.forall_mem_cons, List.forall_mem_append,
      List.forall_mem_singleton]
    exact ⟨TokenKind.noConfusion, TokenKind.noConfusion, TokenKind.noConfusion, herror,
      TokenKind.noConfusion⟩

/-- A negative power of zero is a division by zero if and only if the exponent is an integer that
is not too far from zero. Any other one is computed in double precision, which may give a number
and fails only for its result, as it does for an infinite one. An expression that takes the power
of zero does what the power does. -/
theorem power_zero_of_neg {y : Rat} (hy : y < 0) :
    (Power.power 0 y = .error .divisionByZero ↔ y.den = 1 ∧ -1024 ≤ y) ∧
      (¬ (y.den = 1 ∧ -1024 ≤ y) ->
        Power.power 0 y = Power.floatPower 0 y ∧
          (forall failure, Power.power 0 y = .error failure ->
            exists call, failure = .undefinedCall call) ∧
          forall negative, ((Binary64.ofRat 0).pow (Binary64.ofRat y)).isNaN = false ->
            Binary64.read ((Binary64.ofRat 0).pow (Binary64.ofRat y)) = .infinite negative ->
            Power.power 0 y = .error (.undefinedCall (if negative then "-inf" else "inf"))) ∧
      forall (table : SymbolTable) (exponent : String) (tokens : List Token),
        read table exponent = .ok tokens -> IsBalanced tokens -> valueOf table tokens = .ok y ->
          evaluate table ("0^(" ++ exponent ++ ")") = Power.power 0 y := by
  have hpower := Power.power_zero hy
  refine ⟨?_, ?_, fun _ _ _ hread hbalanced hvalue => evaluate_zero_power hread hbalanced hvalue⟩
  · rw [hpower]
    split
    · rename_i hexact
      exact iff_of_true rfl hexact
    · rename_i hexact
      exact iff_of_false (Power.floatPower_ne_divisionByZero 0 y) hexact
  · intro hexact
    rw [if_neg hexact] at hpower
    refine ⟨hpower, fun failure hfails => Power.floatPower_error (hpower ▸ hfails), ?_⟩
    intro negative hnumber hinfinite
    rw [hpower, Power.floatPower, hnumber, Binary64.toRat, hinfinite]
    rfl

theorem power_zero_of_neg_three :
    (-3 : Rat) < 0 ∧ Power.power 0 (-3) = .error .divisionByZero ∧
      evaluate SymbolTable.empty "0^(-3)" = .error .divisionByZero := by
  have hneg : (-3 : Rat) < 0 := by norm_num
  have hread : read SymbolTable.empty "-3" = .ok [.operator "-", .number "3"] := by decide +kernel
  have hbalanced : IsBalanced [.operator "-", .number "3"] :=
    isBalanced_of_countP_eq_zero (by decide) (by decide)
  have hvalue : valueOf SymbolTable.empty [.operator "-", .number "3"] = .ok (-3) := by
    decide +kernel
  rcases power_zero_of_neg hneg with ⟨hexact, _, hevaluate⟩
  have hpower : Power.power 0 (-3) = .error .divisionByZero := hexact.mpr (by norm_num)
  exact ⟨hneg, hpower, (hevaluate _ _ _ hread hbalanced hvalue).trans hpower⟩

/-- The inverse of the root of zero is no division by zero. -/
theorem power_zero_minus_half :
    (-1 / 2 : Rat) < 0 ∧ Power.power 0 (-1 / 2) ≠ .error .divisionByZero ∧
      evaluate SymbolTable.empty "0^(-1/2)" ≠ .error .divisionByZero := by
  have hneg : (-1 / 2 : Rat) < 0 := by norm_num
  have hread : read SymbolTable.empty "-1/2" =
      .ok [.operator "-", .number "1", .operator "/", .number "2"] := by decide +kernel
  have hbalanced : IsBalanced [.operator "-", .number "1", .operator "/", .number "2"] :=
    isBalanced_of_countP_eq_zero (by decide) (by decide)
  have hvalue : valueOf SymbolTable.empty
      [.operator "-", .number "1", .operator "/", .number "2"] = .ok (-1 / 2) := by decide +kernel
  have hden : ¬ ((-1 / 2 : Rat).den = 1 ∧ -1024 ≤ (-1 / 2 : Rat)) :=
    fun hexact => absurd hexact.left (by decide +kernel)
  have hpower : Power.power 0 (-1 / 2) ≠ .error .divisionByZero := by
    rw [Power.power_zero hneg, if_neg hden]
    exact Power.floatPower_ne_divisionByZero 0 (-1 / 2)
  have htext : "0^(-1/2)" = "0^(" ++ "-1/2" ++ ")" := by decide
  rw [htext, evaluate_zero_power hread hbalanced hvalue]
  exact ⟨hneg, hpower, hpower⟩

end Expression

end AngleCalc
