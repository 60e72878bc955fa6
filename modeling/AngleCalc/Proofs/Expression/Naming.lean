import AngleCalc.Proofs.Infix.Products
import AngleCalc.Proofs.Postfix.Groups
import AngleCalc.Proofs.Postfix.Stack

/-!
# Naming a part of an expression

A group in parentheses can be replaced by a constant with the value of the group.
Products are inserted around both in the same places. The conversion of a balanced
group does not look at the tokens held below its opening parenthesis, and its
evaluation does not look at the values below. A function that waits for the
operand leaves right after the group, or before the token that follows the
constant, which makes no difference.
-/

namespace AngleCalc
namespace Infix

theorem insertProductsAfter_group (afterOperand : Bool) {opening closing : Token}
    (group after : List Token)
    (hopening : opening.kind = .lparen) (hclosing : closing.kind = .rparen) :
    insertProductsAfter afterOperand (opening :: (group ++ closing :: after)) =
      productBefore afterOperand opening ++
        opening :: (insertProducts group ++ closing :: insertProductsAfter true after) := by
  rcases insertProductsAfter_append group false with ⟨afterGroup, hgroup⟩
  have hbefore : productBefore afterGroup closing = [] := by
    simp [productBefore, startsOperand, hclosing]
  have hfalse : endsOperand opening.kind = false := by rw [hopening]; rfl
  rw [insertProductsAfter_cons, hfalse, hgroup, insertProductsAfter_cons, hbefore, hclosing]
  rfl

theorem insertProductsAfter_constant (afterOperand : Bool) (name : String)
    {opening : Token} (after : List Token) (hopening : opening.kind = .lparen) :
    insertProductsAfter afterOperand (.constant name :: after) =
      productBefore afterOperand opening ++
        .constant name :: insertProductsAfter true after := by
  rw [insertProductsAfter_cons, productBefore, productBefore, hopening]
  rfl

end Infix

/-!
## A group and a constant with its value
-/

namespace Postfix

theorem ofInfix_group (front : List Token) {group rest : List Token} {opening closing : Token}
    (hopening : opening.kind = .lparen) (hclosing : closing.kind = .rparen)
    (hunclosed : Infix.unmatchedOpening group = 0)
    (hunopened : Infix.unmatchedClosing group = 0) (hrest : FollowsOperand rest) :
    exists out out', (forall name,
        ofInfix (front ++ .constant name :: rest) = out ++ .constant name :: out') ∧
      ofInfix (front ++ opening :: (group ++ closing :: rest)) = out ++ (ofInfix group ++ out') := by
  rcases convert_append front [] true with ⟨out, held, atStart, hfront⟩
  refine ⟨out, convert held false rest, ?_, ?_⟩
  · intro name
    rw [ofInfix, hfront, convert_value held atStart rest rfl]
  · rw [ofInfix, hfront, convert_opening held atStart _ hopening,
      convert_balanced hopening hclosing hrest true hunopened hunclosed, ofInfix]

/-- Tokens that put one value on an empty stack do to every stack what a constant
of that value does. -/
theorem run_group {table : SymbolTable} {tokens rest : List Token} {name : String} {value : Rat}
    (hvalue : evaluate table tokens = .ok value)
    (hname : table.constant? name = some value) (stack : List Rat) :
    run table stack (tokens ++ rest) = run table stack (.constant name :: rest) := by
  have hrun : run table ([] ++ stack) tokens = .ok ([value] ++ stack) :=
    run_above (evaluate_eq_ok.mp hvalue) stack
  have hstep : step table stack (.constant name) = .ok (value :: stack) := by
    simp [step, Token.constant, hname]
  rw [List.nil_append] at hrun
  rw [run_append, hrun, run, hstep]
  rfl

end Postfix

namespace Expression

open Infix Postfix

/-- A balanced group in parentheses and a constant with the value of the group can
be exchanged in every expression. The tokens before may be of any kind, and so may
those behind, as long as they are tokens of expressions. -/
theorem valueOf_group_eq_constant {table : SymbolTable} {before group after : List Token}
    {name : String} {value : Rat}
    (hafter : forall token, token ∈ after -> token.isPlain = true)
    (hbalanced : IsBalanced group)
    (hvalue : valueOf table (insertProducts group) = .ok value)
    (hname : table.constant? name = some value) :
    valueOf table (insertProducts (before ++ .opening :: (group ++ .closing :: after))) =
      valueOf table (insertProducts (before ++ .constant name :: after)) := by
  rcases insertProductsAfter_append before false with ⟨afterOperand, hbefore⟩
  have hopeningKind : Token.opening.kind = .lparen := rfl
  have hclosingKind : Token.closing.kind = .rparen := rfl
  have hunclosed : unmatchedOpening (insertProducts group) = 0 := by
    rw [insertProducts, unmatchedOpening_insertProductsAfter]
    exact hbalanced.unmatchedOpening_eq_zero
  have hunopened : unmatchedClosing (insertProducts group) = 0 := by
    rw [insertProducts, unmatchedClosing_insertProductsAfter]
    exact hbalanced.unmatchedClosing_eq_zero
  have hrest : FollowsOperand (insertProductsAfter true after) :=
    followsOperand_insertProductsAfter hafter
  rcases ofInfix_group
      (insertProductsAfter false before ++ productBefore afterOperand Token.opening)
      hopeningKind hclosingKind hunclosed hunopened hrest with
    ⟨out, out', hconstant, hgroup⟩
  have hrun : forall stack,
      run table stack (ofInfix (insertProducts group) ++ out') =
        run table stack (.constant name :: out') :=
    fun stack => run_group hvalue hname stack
  rw [insertProducts, insertProducts, hbefore, hbefore,
    insertProductsAfter_group afterOperand group after hopeningKind hclosingKind,
    insertProductsAfter_constant afterOperand name after hopeningKind,
    ← List.append_assoc, ← List.append_assoc, valueOf, valueOf, hgroup, hconstant name]
  unfold Postfix.evaluate
  rw [run_append, run_append]
  cases run table [] out with
  | error failure => rfl
  | ok stack =>
      simp only [hrun]

/-- The forms `3 abs (-2) + 1)` and `3 abs ans + 1)`, where `ans` is -2. -/
theorem valueOf_group_eq_constant_answer :
    let table := SymbolTable.empty.add "ans" (-2)
    let before : List Token := [.number "3", .function "abs"]
    let group : List Token := [.operator "-", .number "2"]
    let after : List Token := [.operator "+", .number "1", .closing]
    IsBalanced group ∧ valueOf table (insertProducts group) = .ok (-2) ∧
      table.constant? "ans" = some (-2) ∧
      valueOf table (insertProducts (before ++ .opening :: (group ++ .closing :: after))) =
        valueOf table (insertProducts (before ++ .constant "ans" :: after)) := by
  intro table before group after
  have hbalanced : IsBalanced group := by
    constructor
    · intro front hfront
      have hnone : group.countP Token.isClosing = 0 := by decide
      exact Nat.le_trans (hfront.sublist.countP_le) (by rw [hnone]; exact Nat.zero_le _)
    · decide
  have hvalue : valueOf table (insertProducts group) = .ok (-2) := by decide +kernel
  have hname : table.constant? "ans" = some (-2) := by decide
  exact ⟨hbalanced, hvalue, hname,
    valueOf_group_eq_constant (by decide) hbalanced hvalue hname⟩

end Expression
end AngleCalc
