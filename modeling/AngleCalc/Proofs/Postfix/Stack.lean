import AngleCalc.Proofs.Postfix.Conversion

/-!
# The stack of an evaluation

A token takes values from the top of the stack and puts others there. What lies
below does not matter and does not change, and the number of values is known from
the kind of the token.
-/

namespace AngleCalc

theorem exceptMap_eq_ok {α β : Type} {f : α -> β} {x : Except Failure α} {y : β} :
    x.map f = .ok y ↔ exists a, x = .ok a ∧ f a = y := by
  cases x with
  | error failure => simp [Except.map]
  | ok a => simp [Except.map]

theorem exceptMap_eq_error {α β : Type} {f : α -> β} {x : Except Failure α}
    {failure : Failure} : x.map f = .error failure ↔ x = .error failure := by
  cases x with
  | error other => simp [Except.map]
  | ok a => simp [Except.map]

namespace Token

def isOperator (token : Token) : Bool :=
  token.kind == .operator

end Token

namespace Postfix

theorem applyFunction_ok {function : Elementary} {stack stack' : List Rat}
    (h : applyFunction function stack = .ok stack') :
    exists x value below,
      stack = x :: below ∧ stack' = value :: below ∧ function.apply x = .ok value := by
  cases stack with
  | nil => cases h
  | cons x below =>
      rcases exceptMap_eq_ok.mp h with ⟨value, happly, rfl⟩
      exact ⟨x, value, below, rfl, rfl, happly⟩

theorem applyOperator_ok {operator : Operator} {stack stack' : List Rat}
    (h : applyOperator operator stack = .ok stack') :
    exists x y value below,
      stack = y :: x :: below ∧ stack' = value :: below ∧ operator.apply x y = .ok value := by
  match stack with
  | [] => cases h
  | [_] => cases h
  | y :: x :: below =>
      rcases exceptMap_eq_ok.mp h with ⟨value, happly, rfl⟩
      exact ⟨x, y, value, below, rfl, rfl, happly⟩

/-- A token that has its effect on a stack takes some values from the top and puts
others there: an operand puts one, a function takes one and puts one, an operator
takes two and puts one. It has the same effect on every stack with these values on
top. -/
theorem step_ok {table : SymbolTable} {stack stack' : List Rat} {token : Token}
    (h : step table stack token = .ok stack') :
    exists taken put below,
      stack = taken ++ below ∧ stack' = put ++ below ∧
        put.length + [token].countP Token.isOperator =
          taken.length + [token].countP Token.isValue ∧
        forall other, step table (taken ++ other) token = .ok (put ++ other) := by
  cases hkind : token.kind with
  | number =>
      simp only [step, hkind] at h
      rcases exceptMap_eq_ok.mp h with ⟨value, hparse, rfl⟩
      refine ⟨[], [value], stack, rfl, rfl, ?_, ?_⟩
      · simp [Token.isOperator, Token.isValue, hkind]
      · intro other
        simp [step, hkind, hparse, Except.map]
  | constant =>
      cases hvalue : table.constant? token.text with
      | none => simp [step, hkind, hvalue] at h
      | some value =>
          simp only [step, hkind, hvalue, Except.ok.injEq] at h
          refine ⟨[], [value], stack, rfl, h.symm, ?_, ?_⟩
          · simp [Token.isOperator, Token.isValue, hkind]
          · intro other
            simp [step, hkind, hvalue]
  | function =>
      cases hfunction : table.function? token.text with
      | none => simp [step, hkind, hfunction] at h
      | some function =>
          simp only [step, hkind, hfunction] at h
          rcases applyFunction_ok h with ⟨x, value, below, rfl, rfl, happly⟩
          refine ⟨[x], [value], below, rfl, rfl, ?_, ?_⟩
          · simp [Token.isOperator, Token.isValue, hkind]
          · intro other
            simp [step, hkind, hfunction, applyFunction, happly, Except.map]
  | operator =>
      cases hsymbol : Operator.ofSymbol? token.text with
      | none => simp [step, hkind, hsymbol] at h
      | some operator =>
          simp only [step, hkind, hsymbol] at h
          rcases applyOperator_ok h with ⟨x, y, value, below, rfl, rfl, happly⟩
          refine ⟨[y, x], [value], below, rfl, rfl, ?_, ?_⟩
          · simp [Token.isOperator, Token.isValue, hkind]
          · intro other
            simp [step, hkind, hsymbol, applyOperator, happly, Except.map]
  | whitespace | finish =>
      simp only [step, hkind, Except.ok.injEq] at h
      refine ⟨[], [], stack, rfl, h.symm, ?_, ?_⟩
      · simp [Token.isOperator, Token.isValue, hkind]
      · intro other
        simp [step, hkind]
  | lparen | rparen | error => simp [step, hkind] at h

theorem run_cons_ok {table : SymbolTable} {stack stack' : List Rat} {token : Token}
    {rest : List Token} :
    run table stack (token :: rest) = .ok stack' ↔
      exists between, step table stack token = .ok between ∧
        run table between rest = .ok stack' := by
  rw [run]
  cases step table stack token with
  | error failure => simp
  | ok between => simp

theorem run_eq_error {table : SymbolTable} {tokens : List Token} {stack : List Rat}
    {failure : Failure} :
    run table stack tokens = .error failure ↔
      exists front token back between, tokens = front ++ token :: back ∧
        run table stack front = .ok between ∧ step table between token = .error failure := by
  constructor
  · intro h
    induction tokens generalizing stack with
    | nil => cases h
    | cons token rest ih =>
        rw [run] at h
        cases hstep : step table stack token with
        | error other =>
            rw [hstep] at h
            cases h
            exact ⟨[], token, rest, stack, rfl, rfl, hstep⟩
        | ok between =>
            rw [hstep] at h
            rcases ih h with ⟨front, next, back, reached, rfl, hfront, hnext⟩
            exact ⟨token :: front, next, back, reached, rfl,
              run_cons_ok.mpr ⟨between, hstep, hfront⟩, hnext⟩
  · intro h
    rcases h with ⟨front, token, back, between, rfl, hfront, htoken⟩
    rw [run_append, hfront]
    simp only [run, htoken]

theorem run_length {table : SymbolTable} {tokens : List Token} {stack stack' : List Rat}
    (h : run table stack tokens = .ok stack') :
    stack'.length + tokens.countP Token.isOperator =
      stack.length + tokens.countP Token.isValue := by
  induction tokens generalizing stack with
  | nil =>
      cases h
      rfl
  | cons token rest ih =>
      rcases run_cons_ok.mp h with ⟨between, hstep, hrun⟩
      rcases step_ok hstep with ⟨taken, put, below, rfl, rfl, hcount, _⟩
      have hrest := ih hrun
      rw [← List.singleton_append, List.countP_append, List.countP_append]
      simp only [List.length_append] at hrest ⊢
      omega

theorem run_above {table : SymbolTable} {tokens : List Token} {stack stack' : List Rat}
    (h : run table stack tokens = .ok stack') (other : List Rat) :
    run table (stack ++ other) tokens = .ok (stack' ++ other) := by
  induction tokens generalizing stack with
  | nil =>
      cases h
      rfl
  | cons token rest ih =>
      rcases run_cons_ok.mp h with ⟨between, hstep, hrun⟩
      rcases step_ok hstep with ⟨taken, put, below, rfl, rfl, _, habove⟩
      refine run_cons_ok.mpr ⟨put ++ below ++ other, ?_, ih hrun⟩
      rw [List.append_assoc, List.append_assoc]
      exact habove (below ++ other)

theorem evaluate_eq_ok {table : SymbolTable} {tokens : List Token} {value : Rat} :
    evaluate table tokens = .ok value ↔ run table [] tokens = .ok [value] := by
  unfold evaluate
  cases hrun : run table [] tokens with
  | error failure => simp
  | ok stack =>
      match stack with
      | [] => simp
      | [_] => simp
      | _ :: _ :: _ => simp

theorem evaluate_eq_error {table : SymbolTable} {tokens : List Token} {failure : Failure}
    (hfailure : failure ≠ .illFormed) :
    evaluate table tokens = .error failure ↔ run table [] tokens = .error failure := by
  unfold evaluate
  cases hrun : run table [] tokens with
  | error other => simp
  | ok stack =>
      match stack with
      | [] => simp [hfailure.symm]
      | [_] => simp
      | _ :: _ :: _ => simp [hfailure.symm]

/-- A value is left over only from one more operand than operators. -/
theorem operands_of_evaluate {table : SymbolTable} {tokens : List Token} {value : Rat}
    (h : evaluate table tokens = .ok value) :
    tokens.countP Token.isValue = tokens.countP Token.isOperator + 1 := by
  have hlength := run_length (evaluate_eq_ok.mp h)
  simp only [List.length_singleton, List.length_nil] at hlength
  omega

end Postfix
end AngleCalc
