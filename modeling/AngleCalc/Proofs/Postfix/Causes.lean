import AngleCalc.Proofs.Postfix.Stack
import AngleCalc.Proofs.Symbols.Resolution

/-!
# Failures of a computation

Functions and operators fail only for what they compute: a division by zero or a
call without a result. The other failures come from the tokens of an expression
and never from a function or an operator. Where every name is known and every number can
be read, only a missing operand is left as the failure of a token.
-/

namespace AngleCalc

/-- Whether a failure is the failure of a function or an operator at its
arguments. -/
def Failure.isArithmetic : Failure -> Bool
  | divisionByZero => true
  | undefinedCall _ => true
  | _ => false

theorem Binary64.toRat_error {x : Float} {failure : Failure}
    (h : Binary64.toRat x = .error failure) : exists call, failure = .undefinedCall call := by
  unfold Binary64.toRat at h
  cases hread : Binary64.read x with
  | nan =>
      rw [hread] at h
      cases h
      exact ⟨_, rfl⟩
  | infinite negative =>
      rw [hread] at h
      cases h
      exact ⟨_, rfl⟩
  | finite negative significand exponent =>
      rw [hread] at h
      cases h

/-- In double precision nothing is found to be a division by zero. -/
theorem Power.floatPower_error {x y : Rat} {failure : Failure}
    (h : Power.floatPower x y = .error failure) : exists call, failure = .undefinedCall call := by
  simp only [Power.floatPower] at h
  split at h
  · cases h
    exact ⟨_, rfl⟩
  · exact Binary64.toRat_error h

theorem Power.power_error {x y : Rat} {failure : Failure}
    (h : Power.power x y = .error failure) : failure.isArithmetic = true := by
  unfold Power.power at h
  split at h
  · simp only [Power.intPower] at h
    split at h
    · cases h
    · split at h <;> cases h
      rfl
  · rcases Power.floatPower_error h with ⟨call, rfl⟩
    rfl

theorem Power.squareRoot_error {x : Rat} {failure : Failure}
    (h : Power.squareRoot x = .error failure) : failure.isArithmetic = true := by
  unfold Power.squareRoot at h
  split at h <;> cases h
  rfl

theorem Operator.apply_error {operator : Operator} {x y : Rat} {failure : Failure}
    (h : operator.apply x y = .error failure) : failure.isArithmetic = true := by
  cases operator with
  | power => exact Power.power_error h
  | divide =>
      change Operator.quotient x y = .error failure at h
      unfold Operator.quotient at h
      split at h <;> cases h
      rfl
  | times | plus | minus => cases h

theorem Elementary.viaDouble_error {function : Elementary} {compute : Float -> Float}
    {x : Rat} {failure : Failure}
    (h : Elementary.viaDouble function compute x = .error failure) :
    failure.isArithmetic = true := by
  unfold Elementary.viaDouble at h
  split at h <;> cases h
  rfl

theorem Elementary.apply_error {function : Elementary} {x : Rat} {failure : Failure}
    (h : function.apply x = .error failure) : failure.isArithmetic = true := by
  cases function <;> simp only [Elementary.apply] at h
  case sqrt => exact Power.squareRoot_error h
  case abs | ceil | floor => cases h
  all_goals exact Elementary.viaDouble_error h

namespace Postfix

theorem applyFunction_error {function : Elementary} {stack : List Rat} {failure : Failure}
    (h : applyFunction function stack = .error failure) :
    failure.isArithmetic = true ∨ failure = .illFormed := by
  cases stack with
  | nil =>
      cases h
      exact .inr rfl
  | cons x below => exact .inl (Elementary.apply_error (exceptMap_eq_error.mp h))

theorem applyOperator_error {operator : Operator} {stack : List Rat} {failure : Failure}
    (h : applyOperator operator stack = .error failure) :
    failure.isArithmetic = true ∨ failure = .illFormed := by
  match stack with
  | [] =>
      cases h
      exact .inr rfl
  | [_] =>
      cases h
      exact .inr rfl
  | y :: x :: below => exact .inl (Operator.apply_error (exceptMap_eq_error.mp h))

theorem step_error_of_resolves {table : SymbolTable} {stack : List Rat} {token : Token}
    {failure : Failure} (hresolves : token.Resolves table)
    (h : step table stack token = .error failure) :
    failure.isArithmetic = true ∨ failure = .illFormed := by
  unfold Token.Resolves at hresolves
  cases hkind : token.kind with
  | number =>
      simp only [hkind] at hresolves
      rcases hresolves with ⟨value, hvalue⟩
      simp [step, hkind, hvalue, Except.map] at h
  | constant =>
      simp only [hkind] at hresolves
      rcases hresolves with ⟨value, hvalue⟩
      simp [step, hkind, hvalue] at h
  | function =>
      simp only [hkind] at hresolves
      rcases hresolves with ⟨function, hfunction⟩
      simp only [step, hkind, hfunction] at h
      exact applyFunction_error h
  | operator =>
      simp only [hkind] at hresolves
      rcases hresolves with ⟨operator, hoperator⟩
      simp only [step, hkind, hoperator] at h
      exact applyOperator_error h
  | whitespace | finish => simp [step, hkind] at h
  | lparen | rparen | error =>
      simp only [step, hkind, Except.error.injEq] at h
      exact .inr h.symm

end Postfix
end AngleCalc
