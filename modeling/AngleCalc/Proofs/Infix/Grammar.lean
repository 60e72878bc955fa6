import AngleCalc.Proofs.Infix.Parentheses
import AngleCalc.Proofs.Postfix.Conversion

/-!
# The grammar of infix expressions

An operand is a number, a constant, an expression in parentheses, or a function
and its operand. An expression is a chain of operands with an operator between
any two of them, and a sign may stand in front of the chain.

An expression is also read off from left to right: at every token, the groups
that are open each hold the start of an expression that awaits an operand.
-/

namespace AngleCalc
namespace Infix

inductive Phrase where
  | operand
  | expression
deriving DecidableEq, Repr

/-- `Derives phrase tokens` says that the tokens form a phrase of that kind. -/
inductive Derives : Phrase -> List Token -> Prop where
  | value {token : Token} :
      token.isValue = true -> Derives .operand [token]
  | call {token : Token} {tokens : List Token} :
      token.kind = .function -> Derives .operand tokens ->
      Derives .operand (token :: tokens)
  | group {opening closing : Token} {tokens : List Token} :
      opening.kind = .lparen -> closing.kind = .rparen -> Derives .expression tokens ->
      Derives .operand (opening :: (tokens ++ [closing]))
  | single {tokens : List Token} :
      Derives .operand tokens -> Derives .expression tokens
  | sign {token : Token} {operator : Operator} {tokens : List Token} :
      token.operator? = some operator -> operator.isSign = true ->
      Derives .operand tokens -> Derives .expression (token :: tokens)
  | chain {token : Token} {operator : Operator} {left right : List Token} :
      token.operator? = some operator ->
      Derives .expression left -> Derives .operand right ->
      Derives .expression (left ++ token :: right)

/-!
## The start of an expression
-/

def AwaitsOperand (tokens : List Token) : Prop :=
  forall operand, Derives .operand operand -> Derives .expression (tokens ++ operand)

theorem awaitsOperand_nil : AwaitsOperand [] := by
  intro operand hoperand
  exact .single hoperand

theorem awaitsOperand_sign {token : Token} {operator : Operator}
    (htoken : token.operator? = some operator) (hsign : operator.isSign = true) :
    AwaitsOperand [token] := by
  intro operand hoperand
  exact .sign htoken hsign hoperand

theorem awaitsOperand_operator {token : Token} {operator : Operator} {left : List Token}
    (htoken : token.operator? = some operator) (hleft : Derives .expression left) :
    AwaitsOperand (left ++ [token]) := by
  intro operand hoperand
  rw [List.append_assoc, List.singleton_append]
  exact .chain htoken hleft hoperand

theorem awaitsOperand_function {token : Token} {tokens : List Token}
    (htoken : token.kind = .function) (htokens : AwaitsOperand tokens) :
    AwaitsOperand (tokens ++ [token]) := by
  intro operand hoperand
  rw [List.append_assoc, List.singleton_append]
  exact htokens (token :: operand) (.call htoken hoperand)

/-!
## Open groups
-/

/-- `OpenGroups depth tokens` says that the tokens open `depth` groups, one inside
the other, and close none of them: in front of each opening parenthesis an operand
is awaited. -/
inductive OpenGroups : Nat -> List Token -> Prop where
  | none : OpenGroups 0 []
  | opened {depth : Nat} {outer start : List Token} {opening : Token} :
      OpenGroups depth outer -> AwaitsOperand start -> opening.kind = .lparen ->
      OpenGroups (depth + 1) (outer ++ start ++ [opening])

theorem openGroups_replicate (depth : Nat) :
    OpenGroups depth (List.replicate depth .opening) := by
  induction depth with
  | zero => exact .none
  | succ depth ih =>
      have hopened : OpenGroups (depth + 1)
          (List.replicate depth .opening ++ [] ++ [Token.opening]) :=
        .opened ih awaitsOperand_nil rfl
      rw [List.append_nil] at hopened
      rw [List.replicate_succ']
      exact hopened

/-- The expression of the innermost open group becomes, when the group is closed,
the last operand of an expression of the group around it. -/
theorem openGroups_close {depth : Nat} {outer inner : List Token}
    (houter : OpenGroups (depth + 1) outer) (hinner : Derives .expression inner)
    {closing : Token} (hclosing : closing.kind = .rparen) :
    exists outer' inner', OpenGroups depth outer' ∧ Derives .expression inner' ∧
      outer ++ inner ++ [closing] = outer' ++ inner' := by
  cases houter with
  | @opened _ outer' start opening houter' hstart hopening =>
      refine ⟨outer', start ++ opening :: (inner ++ [closing]), houter', ?_, by simp⟩
      exact hstart _ (.group hopening hclosing hinner)

theorem derives_closeAll {depth : Nat} {outer inner : List Token}
    (houter : OpenGroups depth outer) (hinner : Derives .expression inner) :
    Derives .expression (outer ++ inner ++ List.replicate depth .closing) := by
  induction depth generalizing outer inner with
  | zero =>
      cases houter
      simpa using hinner
  | succ depth ih =>
      have hkind : Token.closing.kind = .rparen := rfl
      rcases openGroups_close houter hinner hkind with
        ⟨outer', inner', houter', hinner', heq⟩
      have hclosed := ih houter' hinner'
      rw [← heq, List.append_assoc, List.singleton_append, ← List.replicate_succ] at hclosed
      exact hclosed

/-!
## Reading from left to right

A reading is at the start of an expression, where a sign may stand, or it awaits
an operand, or it has an expression that an operator or a closing parenthesis may
follow.
-/

/-- `Reached afterOperand atStart depth tokens` says that the tokens are the
beginning of an expression, up to a place inside `depth` open groups that comes
after an operand, at the start of an expression or neither. -/
inductive Reached : Bool -> Bool -> Nat -> List Token -> Prop where
  | start {depth : Nat} {outer : List Token} :
      OpenGroups depth outer -> Reached false true depth outer
  | awaiting {depth : Nat} {outer inner : List Token} :
      OpenGroups depth outer -> AwaitsOperand inner ->
      Reached false false depth (outer ++ inner)
  | complete {depth : Nat} {outer inner : List Token} :
      OpenGroups depth outer -> Derives .expression inner ->
      Reached true false depth (outer ++ inner)

namespace Reached

variable {atStart : Bool} {depth : Nat} {tokens : List Token} {token : Token}

theorem awaitsOperand (h : Reached false atStart depth tokens) :
    exists outer inner, OpenGroups depth outer ∧ AwaitsOperand inner ∧
      tokens = outer ++ inner := by
  cases h with
  | start houter => exact ⟨tokens, [], houter, awaitsOperand_nil, by simp⟩
  | awaiting houter hinner => exact ⟨_, _, houter, hinner, rfl⟩

theorem value (h : Reached false atStart depth tokens) (htoken : token.isValue = true) :
    Reached true false depth (tokens ++ [token]) := by
  rcases h.awaitsOperand with ⟨outer, inner, houter, hinner, rfl⟩
  rw [List.append_assoc]
  exact .complete houter (hinner [token] (.value htoken))

theorem function (h : Reached false atStart depth tokens) (htoken : token.kind = .function) :
    Reached false false depth (tokens ++ [token]) := by
  rcases h.awaitsOperand with ⟨outer, inner, houter, hinner, rfl⟩
  rw [List.append_assoc]
  exact .awaiting houter (awaitsOperand_function htoken hinner)

theorem opening (h : Reached false atStart depth tokens) (htoken : token.kind = .lparen) :
    Reached false true (depth + 1) (tokens ++ [token]) := by
  rcases h.awaitsOperand with ⟨outer, inner, houter, hinner, rfl⟩
  exact .start (.opened houter hinner htoken)

theorem closing (h : Reached true atStart (depth + 1) tokens) (htoken : token.kind = .rparen) :
    Reached true false depth (tokens ++ [token]) := by
  cases h with
  | complete houter hinner =>
      rcases openGroups_close houter hinner htoken with ⟨outer', inner', houter', hinner', heq⟩
      rw [heq]
      exact .complete houter' hinner'

theorem operator {operator : Operator} (h : Reached true atStart depth tokens)
    (htoken : token.operator? = some operator) :
    Reached false false depth (tokens ++ [token]) := by
  cases h with
  | complete houter hinner =>
      rw [List.append_assoc]
      exact .awaiting houter (awaitsOperand_operator htoken hinner)

theorem sign {operator : Operator} (h : Reached false true depth tokens)
    (htoken : token.operator? = some operator) (hsign : operator.isSign = true) :
    Reached false false depth (tokens ++ [token]) := by
  cases h with
  | start houter => exact .awaiting houter (awaitsOperand_sign htoken hsign)

theorem derives (h : Reached true atStart depth tokens) :
    Derives .expression (tokens ++ List.replicate depth .closing) := by
  cases h with
  | complete houter hinner => exact derives_closeAll houter hinner

end Reached

end Infix
end AngleCalc
