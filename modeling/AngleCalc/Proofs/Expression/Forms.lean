import AngleCalc.Proofs.Expression.Tree
import AngleCalc.Proofs.Infix.Grammar

/-!
# The forms of trees are the expressions

The grammar does not know precedences: an expression is a chain of operands. Each
chain is a form of a tree all the same. The tree of a longer chain is found on the
right edge of the tree so far, below the operators that bind less tightly.
-/

namespace AngleCalc

open Infix

namespace Operator

theorem leftLevel_le_of_lt_rightLevel {operator next : Operator}
    (h : next.precedence < operator.rightLevel) : next.leftLevel ≤ operator.precedence := by
  cases operator <;> cases next <;> revert h <;> decide

end Operator

/-!
## From a chain to a tree
-/

theorem exists_written_append {signed : Bool} {level : Nat} {tree : Tree} {tokens : List Token}
    (h : Written signed level tree tokens) {operator : Operator}
    (hlevel : level ≤ operator.precedence) {operand : Tree} {right : List Token}
    (hright : Written false operator.rightLevel operand right) :
    exists longer, Written signed level longer (tokens ++ operator.token :: right) := by
  induction h with
  | number text => exact ⟨_, .binary hlevel (.number text) hright⟩
  | constant name => exact ⟨_, .binary hlevel (.constant name) hright⟩
  | call name hargument _ => exact ⟨_, .binary hlevel (.call name hargument) hright⟩
  | group hopening hclosing hinner _ =>
      exact ⟨_, .binary hlevel (.group hopening hclosing hinner) hright⟩
  | @binary signed level last left _ leftTokens lastTokens hlast hleft hinner _ ih =>
      -- The operand goes to the operator that binds tighter, the last one or the new one.
      by_cases hbelow : last.rightLevel ≤ operator.precedence
      · rcases ih hbelow with ⟨longer, hlonger⟩
        refine ⟨.binary last left longer, ?_⟩
        rw [List.append_assoc, List.cons_append]
        exact .binary hlast hleft hlonger
      · have hwhole := Operator.leftLevel_le_of_lt_rightLevel (Nat.lt_of_not_le hbelow)
        exact ⟨_, .binary hlevel (.binary hwhole hleft hinner) hright⟩
  | @sign level last _ lastTokens hsign hlast hinner ih =>
      by_cases hbelow : last.rightLevel ≤ operator.precedence
      · rcases ih hbelow with ⟨longer, hlonger⟩
        exact ⟨.binary last (.number "0") longer, .sign hsign hlast hlonger⟩
      · have hwhole := Operator.leftLevel_le_of_lt_rightLevel (Nat.lt_of_not_le hbelow)
        exact ⟨_, .binary hlevel (.sign hsign hwhole hinner) hright⟩

/-- What a phrase is a form of: an operand at every level, an expression where an
expression starts. -/
def Infix.Phrase.HasTree : Phrase -> List Token -> Prop
  | .operand, tokens =>
      exists tree, forall signed level, Written signed level tree tokens
  | .expression, tokens => exists tree, Written true 0 tree tokens

theorem hasTree_of_derives {phrase : Phrase} {tokens : List Token}
    (h : Derives phrase tokens) : phrase.HasTree tokens := by
  induction h with
  | @value token hvalue =>
      rcases token with ⟨kind, text⟩
      cases kind with
      | number => exact ⟨.number text, fun _ _ => .number text⟩
      | constant => exact ⟨.constant text, fun _ _ => .constant text⟩
      | function | operator | lparen | rparen | whitespace | finish | error => cases hvalue
  | @call token tokens hfunction _ ih =>
      rcases ih with ⟨argument, hargument⟩
      rcases token with ⟨kind, name⟩
      cases hfunction
      exact ⟨.call name argument, fun _ _ => .call name (hargument false _)⟩
  | group hopening hclosing _ ih =>
      rcases ih with ⟨tree, htree⟩
      exact ⟨tree, fun _ _ => .group hopening hclosing htree⟩
  | single _ ih =>
      rcases ih with ⟨tree, htree⟩
      exact ⟨tree, htree true 0⟩
  | sign hoperator hsign _ ih =>
      rcases ih with ⟨operand, hoperand⟩
      rw [Operator.eq_token_of_operator? hoperator]
      exact ⟨_, .sign hsign (Nat.zero_le _) (hoperand false _)⟩
  | chain hoperator _ _ ihleft ihright =>
      rcases ihleft with ⟨left, hleft⟩
      rcases ihright with ⟨operand, hoperand⟩
      rw [Operator.eq_token_of_operator? hoperator]
      exact exists_written_append hleft (Nat.zero_le _) (hoperand false _)

/-!
## From a tree to a chain
-/

/-- A form is an expression behind whatever awaits an operand, and without a sign it
is one operand above every operator. -/
theorem derives_of_written {signed : Bool} {level : Nat} {tree : Tree} {tokens : List Token}
    (h : Written signed level tree tokens) :
    (forall front, AwaitsOperand front -> (signed = true -> front = []) ->
        Derives .expression (front ++ tokens)) ∧
      (Operator.argumentLevel ≤ level -> Derives .operand tokens) := by
  induction h with
  | number text =>
      have hoperand : Derives .operand [.number text] := .value rfl
      exact ⟨fun front hfront _ => hfront _ hoperand, fun _ => hoperand⟩
  | constant name =>
      have hoperand : Derives .operand [.constant name] := .value rfl
      exact ⟨fun front hfront _ => hfront _ hoperand, fun _ => hoperand⟩
  | @call _ _ name _ tokens _ ih =>
      have hoperand : Derives .operand (.function name :: tokens) :=
        .call rfl (ih.right (Nat.le_refl _))
      exact ⟨fun front hfront _ => hfront _ hoperand, fun _ => hoperand⟩
  | @group _ _ _ tokens opening closing hopening hclosing _ ih =>
      have hinner : Derives .expression tokens := ih.left [] awaitsOperand_nil (fun _ => rfl)
      have hoperand : Derives .operand (opening :: (tokens ++ [closing])) :=
        .group hopening hclosing hinner
      exact ⟨fun front hfront _ => hfront _ hoperand, fun _ => hoperand⟩
  | @binary _ level operator _ _ leftTokens rightTokens hlevel _ _ ihleft ihright =>
      constructor
      · intro front hfront hstart
        have hleft := ihleft.left front hfront hstart
        have hawaits := awaitsOperand_operator (Operator.operator?_token operator) hleft
        have hright := ihright.left _ hawaits (fun h => by cases h)
        simpa using hright
      · intro habove
        have hlt := Operator.precedence_lt_argumentLevel operator
        omega
  | @sign level operator _ rightTokens hsign hlevel _ ih =>
      constructor
      · intro front _ hstart
        have hawaits := awaitsOperand_sign (Operator.operator?_token operator) hsign
        rw [hstart rfl]
        exact ih.left _ hawaits (fun h => by cases h)
      · intro habove
        have hlt := Operator.precedence_lt_argumentLevel operator
        omega

/-- The expressions of the grammar are the forms of trees. -/
theorem derives_iff_written {tokens : List Token} :
    Derives .expression tokens ↔ exists tree, Written true 0 tree tokens := by
  constructor
  · exact hasTree_of_derives
  · rintro ⟨tree, htree⟩
    exact (derives_of_written htree).left [] awaitsOperand_nil (fun _ => rfl)

end AngleCalc
