import AngleCalc.Proofs.Infix.Completion
import AngleCalc.Proofs.Infix.Grammar
import AngleCalc.Proofs.Infix.Products
import AngleCalc.Proofs.Postfix.Conservation
import AngleCalc.Proofs.Postfix.Stack

/-!
# Expressions outside the grammar have no value

An evaluation leaves one value only if the expression has one more operand than
operators, where the zeros of its signs count as operands. Operands are separated
by operators, so an expression has at most one more, and an operand that is
missing leaves it with fewer. An expression that has a value therefore has its
operands and operators in turn, as the grammar asks.
-/

namespace AngleCalc
namespace Infix

open Postfix

/-!
## Operands and operators
-/

/-- How many operands the tokens have, with the zeros of their signs. -/
def operandCount (atStart : Bool) (tokens : List Token) : Nat :=
  (withZeros atStart tokens).countP Token.isValue

def operatorCount (tokens : List Token) : Nat :=
  tokens.countP Token.isOperator

theorem countP_isOperator_withZeros (tokens : List Token) (atStart : Bool) :
    (withZeros atStart tokens).countP Token.isOperator = operatorCount tokens := by
  induction tokens generalizing atStart with
  | nil => rfl
  | cons token rest ih =>
      have hzero : (zeroBefore atStart token).countP Token.isOperator = 0 := by
        unfold zeroBefore signOperand
        split
        · split <;> rfl
        · rfl
      rw [withZeros, List.countP_append, hzero, List.countP_cons, ih, operatorCount,
        operatorCount, List.countP_cons, Nat.zero_add]

theorem countP_filter_isEmitted {p : Token -> Bool} (tokens : List Token)
    (h : forall token, p token = true -> isEmitted token = true) :
    (tokens.filter isEmitted).countP p = tokens.countP p := by
  rw [List.countP_filter]
  apply List.countP_congr
  intro token _
  constructor
  · intro hboth
    simp only [Bool.and_eq_true] at hboth
    exact hboth.left
  · intro hp
    simp [hp, h token hp]

theorem isEmitted_of_isOperator {token : Token} (h : token.isOperator = true) :
    isEmitted token = true := by
  unfold isEmitted
  cases hkind : token.kind <;> simp_all [Token.isOperator]

theorem isEmitted_of_isValue {token : Token} (h : token.isValue = true) :
    isEmitted token = true := by
  unfold isEmitted
  cases hkind : token.kind <;> simp_all [Token.isValue]

theorem operandCount_of_valueOf {table : SymbolTable} {tokens : List Token} {value : Rat}
    (h : Expression.valueOf table tokens = .ok value) :
    operandCount true tokens = operatorCount tokens + 1 := by
  have hcount := operands_of_evaluate h
  have hperm := ofInfix_perm tokens
  rw [hperm.countP_eq, hperm.countP_eq,
    countP_filter_isEmitted _ (fun _ => isEmitted_of_isValue),
    countP_filter_isEmitted _ (fun _ => isEmitted_of_isOperator),
    countP_isOperator_withZeros] at hcount
  exact hcount

/-!
## One token in front
-/

section Cons

variable {token : Token} (atStart : Bool) (rest : List Token)

theorem operandCount_cons :
    operandCount atStart (token :: rest) =
      (zeroBefore atStart token).length + [token].countP Token.isValue +
        operandCount (startsAfter atStart token) rest := by
  have hzero : (zeroBefore atStart token).countP Token.isValue =
      (zeroBefore atStart token).length := by
    unfold zeroBefore signOperand
    split
    · split <;> rfl
    · rfl
  rw [operandCount, withZeros, List.countP_append, hzero, ← List.singleton_append,
    List.countP_append, operandCount, Nat.add_assoc]

theorem operandCount_value (h : token.isValue = true) :
    operandCount atStart (token :: rest) = 1 + operandCount false rest := by
  rw [operandCount_cons]
  cases hkind : token.kind <;>
    simp_all [Token.isValue, zeroBefore, Token.operator?, startsAfter]

theorem operandCount_function (h : token.kind = .function) :
    operandCount atStart (token :: rest) = operandCount false rest := by
  simp [operandCount_cons, zeroBefore, Token.operator?, startsAfter, Token.isValue, h]

theorem operandCount_opening (h : token.kind = .lparen) :
    operandCount atStart (token :: rest) = operandCount true rest := by
  simp [operandCount_cons, zeroBefore, Token.operator?, startsAfter, Token.isValue, h]

theorem operandCount_closing (h : token.kind = .rparen) :
    operandCount atStart (token :: rest) = operandCount false rest := by
  simp [operandCount_cons, zeroBefore, Token.operator?, startsAfter, Token.isValue, h]

theorem operandCount_operator {operator : Operator} (h : token.operator? = some operator) :
    operandCount atStart (token :: rest) =
      (signOperand atStart operator).length + operandCount false rest := by
  have hkind := Token.kind_of_operator? h
  simp [operandCount_cons, zeroBefore, startsAfter, Token.isValue, h, hkind]

theorem operatorCount_operator {operator : Operator} (h : token.operator? = some operator) :
    operatorCount (token :: rest) = operatorCount rest + 1 := by
  simp [operatorCount, Token.isOperator, Token.kind_of_operator? h]

theorem operatorCount_value (h : token.isValue = true) :
    operatorCount (token :: rest) = operatorCount rest := by
  cases hkind : token.kind <;>
    simp_all [Token.isValue, operatorCount, Token.isOperator]

theorem operatorCount_other (h : token.kind ≠ .operator) :
    operatorCount (token :: rest) = operatorCount rest := by
  simp [operatorCount, Token.isOperator, h]

end Cons

theorem length_signOperand_of_sign {operator : Operator} (h : operator.isSign = true) :
    (signOperand true operator).length = 1 := by
  simp [signOperand, h]

theorem length_signOperand_of_not_sign {atStart : Bool} {operator : Operator}
    (h : ¬ (atStart = true ∧ operator.isSign = true)) :
    (signOperand atStart operator).length = 0 := by
  unfold signOperand
  split
  · rename_i hsign
    simp only [Bool.and_eq_true] at hsign
    exact absurd hsign h
  · rfl

/-!
## Operands and operators in turn
-/

theorem separated_cases {afterOperand : Bool} {token : Token} {rest : List Token}
    (hplain : token.isPlain = true) (h : Separated afterOperand (token :: rest)) :
    (afterOperand = false ∧ token.isValue = true ∧ Separated true rest) ∨
      (afterOperand = false ∧ token.kind = .function ∧ Separated false rest) ∨
      (afterOperand = false ∧ token.kind = .lparen ∧ Separated false rest) ∨
      (token.kind = .rparen ∧ Separated true rest) ∨
      exists operator, token.operator? = some operator ∧ Separated false rest := by
  rcases h with ⟨hstarts, hrest⟩
  have hafter : startsOperand token.kind = true -> afterOperand = false := by
    intro htoken
    cases hbool : afterOperand with
    | false => rfl
    | true =>
        rw [hstarts hbool] at htoken
        cases htoken
  rcases Token.plain_cases hplain with
    hvalue | hfunction | hopening | hclosing | ⟨operator, hoperator⟩
  · have hkind : token.kind = .number ∨ token.kind = .constant := by
      simpa [Token.isValue] using hvalue
    refine Or.inl ⟨?_, hvalue, ?_⟩
    · rcases hkind with hkind | hkind <;> exact hafter (by rw [hkind]; rfl)
    · rcases hkind with hkind | hkind <;> rw [hkind] at hrest <;> exact hrest
  · rw [hfunction] at hafter hrest
    exact Or.inr (Or.inl ⟨hafter rfl, hfunction, hrest⟩)
  · rw [hopening] at hafter hrest
    exact Or.inr (Or.inr (Or.inl ⟨hafter rfl, hopening, hrest⟩))
  · rw [hclosing] at hrest
    exact Or.inr (Or.inr (Or.inr (Or.inl ⟨hclosing, hrest⟩)))
  · rw [Token.kind_of_operator? hoperator] at hrest
    exact Or.inr (Or.inr (Or.inr (Or.inr ⟨operator, hoperator, hrest⟩)))

/-- Separated tokens have at most one operand more than operators, and none more
after an operand. -/
theorem operandCount_le {tokens : List Token}
    (hplain : forall token, token ∈ tokens -> token.isPlain = true) :
    forall afterOperand atStart : Bool,
      Separated afterOperand tokens -> (atStart = true -> afterOperand = false) ->
      operandCount atStart tokens + afterOperand.toNat ≤ operatorCount tokens + 1 := by
  induction tokens with
  | nil =>
      intro afterOperand atStart _ _
      cases afterOperand <;> simp [operandCount, withZeros]
  | cons token rest ih =>
      intro afterOperand atStart hseparated hstart
      have ih' := ih (fun other hother => hplain other (List.mem_cons_of_mem token hother))
      rcases separated_cases (hplain token List.mem_cons_self) hseparated with
        ⟨rfl, hvalue, hrest⟩ | ⟨rfl, hfunction, hrest⟩ | ⟨rfl, hopening, hrest⟩ |
          ⟨hclosing, hrest⟩ | ⟨operator, hoperator, hrest⟩
      · have hbound := ih' true false hrest (by intro h; cases h)
        rw [operandCount_value atStart rest hvalue, operatorCount_value rest hvalue]
        simp only [Bool.toNat_true, Bool.toNat_false] at hbound ⊢
        omega
      · have hbound := ih' false false hrest (by intro h; cases h)
        rw [operandCount_function atStart rest hfunction,
          operatorCount_other rest (by simp [hfunction])]
        exact hbound
      · have hbound := ih' false true hrest (fun _ => rfl)
        rw [operandCount_opening atStart rest hopening,
          operatorCount_other rest (by simp [hopening])]
        exact hbound
      · have hbound := ih' true false hrest (by intro h; cases h)
        have htoNat := Bool.toNat_le afterOperand
        rw [operandCount_closing atStart rest hclosing,
          operatorCount_other rest (by simp [hclosing])]
        simp only [Bool.toNat_true] at hbound
        omega
      · have hbound := ih' false false hrest (by intro h; cases h)
        rw [operandCount_operator atStart rest hoperator, operatorCount_operator rest hoperator]
        simp only [Bool.toNat_false] at hbound
        by_cases hsign : atStart = true ∧ operator.isSign = true
        · rw [hsign.left, length_signOperand_of_sign hsign.right, hstart hsign.left]
          simp only [Bool.toNat_false]
          omega
        · have htoNat := Bool.toNat_le afterOperand
          rw [length_signOperand_of_not_sign hsign]
          omega

theorem operandCount_concat_value {last : Token} (h : last.isValue = true) (tokens : List Token)
    (atStart : Bool) :
    operandCount atStart (tokens ++ [last]) = operandCount atStart tokens + 1 := by
  induction tokens generalizing atStart with
  | nil =>
      rw [List.nil_append, operandCount_value atStart [] h]
      rfl
  | cons token tokens ih =>
      rw [List.cons_append, operandCount_cons, operandCount_cons, ih, ← Nat.add_assoc]

/-- An expression that has a value does not end open: with one more operand it would
have too many. -/
theorem endsOpen_of_valueOf {table : SymbolTable} {tokens : List Token} {value : Rat}
    (hplain : forall token, token ∈ tokens -> token.isPlain = true)
    (hseparated : Separated false tokens)
    (h : Expression.valueOf table tokens = .ok value) : endsOpen tokens = false := by
  cases hopen : endsOpen tokens with
  | false => rfl
  | true =>
      have hproducts : insertProducts tokens = tokens :=
        insertProductsAfter_of_separated hseparated
      have hlonger := insertProducts_concat_constant "" (hproducts.symm ▸ hopen)
      rw [hproducts] at hlonger
      have hplainLonger : forall token, token ∈ tokens ++ [.constant ""] -> token.isPlain = true := by
        intro token htoken
        rcases List.mem_append.mp htoken with hfront | hlast
        · exact hplain token hfront
        · rw [List.mem_singleton.mp hlast]
          rfl
      have hcount := operandCount_le hplainLonger false true
        (hlonger ▸ separated_insertProductsAfter _ false) (fun _ => rfl)
      have hoperators : operatorCount (tokens ++ [.constant ""]) = operatorCount tokens := by
        rw [operatorCount, List.countP_append]
        rfl
      rw [operandCount_concat_value rfl, operandCount_of_valueOf h, hoperators] at hcount
      simp only [Bool.toNat_false] at hcount
      omega

theorem atStart_of_reached {atStart : Bool} {depth : Nat} {tokens : List Token}
    (h : Reached true atStart depth tokens) : atStart = false := by
  cases h
  rfl

/-- Where there is one operand more than operators, none is missing, and the
reading goes on to the end. The groups that are open at the end are those that the
tokens open themselves and `unclosed` earlier ones. -/
theorem derives_of_operandCount {tokens : List Token}
    (hplain : forall token, token ∈ tokens -> token.isPlain = true) :
    forall (afterOperand atStart : Bool) (unclosed : Nat) (before : List Token),
      Separated afterOperand tokens ->
      operandCount atStart tokens + afterOperand.toNat = operatorCount tokens + 1 ->
      Reached afterOperand atStart (unmatchedClosing tokens + unclosed) before ->
      Derives .expression
        (before ++ tokens ++ List.replicate (unclosed + unmatchedOpening tokens) .closing) := by
  induction tokens with
  | nil =>
      intro afterOperand atStart unclosed before _ hcount hreached
      cases afterOperand with
      | false => simp [operandCount, withZeros, operatorCount] at hcount
      | true => simpa [unmatchedClosing, unmatchedOpening] using hreached.derives
  | cons token rest ih =>
      intro afterOperand atStart unclosed before hseparated hcount hreached
      have hplainRest := fun other hother => hplain other (List.mem_cons_of_mem token hother)
      have ih' := ih hplainRest
      rw [List.append_cons]
      rcases separated_cases (hplain token List.mem_cons_self) hseparated with
        ⟨rfl, hvalue, hrest⟩ | ⟨rfl, hfunction, hrest⟩ | ⟨rfl, hopening, hrest⟩ |
          ⟨hclosing, hrest⟩ | ⟨operator, hoperator, hrest⟩
      · have hkind := Token.kind_of_isValue hvalue
        rw [operandCount_value atStart rest hvalue, operatorCount_value rest hvalue] at hcount
        rw [unmatchedClosing_cons_other rest hkind.left hkind.right] at hreached
        rw [unmatchedOpening_cons_other rest hkind.left]
        refine ih' true false unclosed (before ++ [token]) hrest ?_ (hreached.value hvalue)
        simp only [Bool.toNat_true, Bool.toNat_false] at hcount ⊢
        omega
      · rw [operandCount_function atStart rest hfunction,
          operatorCount_other rest (by simp [hfunction])] at hcount
        rw [unmatchedClosing_cons_other rest (by simp [hfunction]) (by simp [hfunction])]
          at hreached
        rw [unmatchedOpening_cons_other rest (by simp [hfunction])]
        exact ih' false false unclosed (before ++ [token]) hrest hcount
          (hreached.function hfunction)
      · rw [operandCount_opening atStart rest hopening,
          operatorCount_other rest (by simp [hopening])] at hcount
        rw [unmatchedClosing_cons_opening rest hopening] at hreached
        rw [unmatchedOpening_cons_opening rest hopening]
        have hopened := hreached.opening hopening
        -- The group stays open to the end, or a later token closes it.
        split
        · rename_i hzero
          have hdepth : unmatchedClosing rest - 1 + unclosed + 1 =
              unmatchedClosing rest + (unclosed + 1) := by omega
          have hcount' : unclosed + (unmatchedOpening rest + 1) =
              unclosed + 1 + unmatchedOpening rest := by omega
          rw [hdepth] at hopened
          rw [hcount']
          exact ih' false true (unclosed + 1) (before ++ [token]) hrest hcount hopened
        · rename_i hpositive
          have hdepth : unmatchedClosing rest - 1 + unclosed + 1 =
              unmatchedClosing rest + unclosed := by omega
          rw [hdepth] at hopened
          exact ih' false true unclosed (before ++ [token]) hrest hcount hopened
      · rw [operandCount_closing atStart rest hclosing,
          operatorCount_other rest (by simp [hclosing])] at hcount
        rw [unmatchedClosing_cons_closing rest hclosing, Nat.add_right_comm] at hreached
        rw [unmatchedOpening_cons_other rest (by simp [hclosing])]
        -- Before an operand the count would come out too small.
        have hbound := operandCount_le hplainRest true false hrest (by intro h; cases h)
        cases afterOperand with
        | false =>
            simp only [Bool.toNat_true, Bool.toNat_false] at hbound hcount
            omega
        | true =>
            exact ih' true false unclosed (before ++ [token]) hrest hcount
              (hreached.closing hclosing)
      · have hkind := Token.kind_of_operator? hoperator
        rw [operandCount_operator atStart rest hoperator,
          operatorCount_operator rest hoperator] at hcount
        rw [unmatchedClosing_cons_other rest (by simp [hkind]) (by simp [hkind])] at hreached
        rw [unmatchedOpening_cons_other rest (by simp [hkind])]
        have hbound := operandCount_le hplainRest false false hrest (by intro h; cases h)
        cases afterOperand with
        | true =>
            have hstart := atStart_of_reached hreached
            rw [length_signOperand_of_not_sign (by simp [hstart])] at hcount
            refine ih' false false unclosed (before ++ [token]) hrest ?_
              (hreached.operator hoperator)
            simp only [Bool.toNat_true, Bool.toNat_false] at hcount ⊢
            omega
        | false =>
            by_cases hsign : atStart = true ∧ operator.isSign = true
            · rcases hsign with ⟨rfl, hsign⟩
              rw [length_signOperand_of_sign hsign] at hcount
              refine ih' false false unclosed (before ++ [token]) hrest ?_
                (hreached.sign hoperator hsign)
              simp only [Bool.toNat_false] at hcount ⊢
              omega
            · rw [length_signOperand_of_not_sign hsign] at hcount
              simp only [Bool.toNat_false] at hbound hcount
              omega

end Infix

namespace Expression

open Infix

/-- If the tokens of an expression have a value after the products are inserted,
then they belong to the grammar once each parenthesis has a partner. -/
theorem derives_of_valueOf {table : SymbolTable} {tokens : List Token} {value : Rat}
    (hplain : forall token, token ∈ tokens -> token.isPlain = true)
    (h : valueOf table (insertProducts tokens) = .ok value) :
    Derives .expression (matched (insertProducts tokens)) := by
  have hcount := operandCount_of_valueOf h
  have hreached : Reached false true (unmatchedClosing (insertProducts tokens) + 0)
      (List.replicate (unmatchedClosing (insertProducts tokens)) .opening) :=
    .start (openGroups_replicate _)
  have hderives := derives_of_operandCount
    (isPlain_of_mem_insertProductsAfter hplain) false true 0 _
    (separated_insertProductsAfter tokens false) hcount hreached
  rw [Nat.zero_add] at hderives
  exact hderives

/-- The form `1 + 2 ) ( 3` has the value 9, and completed it is `(1 + 2) * (3)`. -/
theorem derives_of_valueOf_crossed :
    let tokens : List Token :=
      [.number "1", .operator "+", .number "2", .closing, .opening, .number "3"]
    valueOf .empty (insertProducts tokens) = .ok 9 ∧
      Derives .expression (matched (insertProducts tokens)) := by
  intro tokens
  have hvalue : valueOf .empty (insertProducts tokens) = .ok 9 := by decide +kernel
  exact ⟨hvalue, derives_of_valueOf (by decide) hvalue⟩

end Expression
end AngleCalc
