import AngleCalc.Proofs.Infix.Parentheses
import AngleCalc.Proofs.Postfix.Causes
import AngleCalc.Proofs.Postfix.Conversion

/-!
# Expression trees

An expression tree is what the tokens of an expression mean. It has a postfix
order and a value, both by recursion on the tree. A tree can be written in many
ways: with the parentheses that the precedences require and with any number of
further ones. The conversion of every written form is the postfix order of the
tree, and its evaluation is the value of the tree.
-/

namespace AngleCalc

/-- An expression without parentheses, grouped as it is evaluated. -/
inductive Tree where
  | number (text : String)
  | constant (name : String)
  | call (name : String) (argument : Tree)
  | binary (operator : Operator) (left right : Tree)
deriving DecidableEq, Repr

namespace Tree

def postorder : Tree -> List Token
  | number text => [.number text]
  | constant name => [.constant name]
  | call name argument => argument.postorder ++ [.function name]
  | binary operator left right => left.postorder ++ right.postorder ++ [operator.token]

/-- The value of a tree: first the operands, from left to right, then the
function or operator. -/
def value (table : SymbolTable) : Tree -> Except Failure Rat
  | number text => Decimal.parse text
  | constant name =>
      match table.constant? name with
      | some value => .ok value
      | none => .error (.unknownName name)
  | call name argument =>
      match argument.value table with
      | .error failure => .error failure
      | .ok x =>
          match table.function? name with
          | some function => function.apply x
          | none => .error (.unknownName name)
  | binary operator left right =>
      match left.value table with
      | .error failure => .error failure
      | .ok x =>
          match right.value table with
          | .error failure => .error failure
          | .ok y => operator.apply x y

end Tree

/-!
## Written forms

A form is written at a level: no operator outside its parentheses has a lower
precedence. The operands of an operator are written at levels that keep them
together, one level higher on the side from which the operator is not grouped.
The argument of a function is written above every operator.
-/

namespace Operator

/-- Powers are tighter than products and quotients, and these are tighter than sums and
differences. Powers alone are grouped from the right. -/
theorem precedence_order :
    times.precedence < power.precedence ∧ divide.precedence = times.precedence ∧
      plus.precedence < times.precedence ∧ minus.precedence = plus.precedence ∧
      forall operator, rightAssociative operator = true ↔ operator = power := by
  refine ⟨by decide, rfl, by decide, rfl, ?_⟩
  intro operator
  cases operator <;> decide

def leftLevel (operator : Operator) : Nat :=
  if operator.rightAssociative then operator.precedence + 1 else operator.precedence

def rightLevel (operator : Operator) : Nat :=
  if operator.rightAssociative then operator.precedence else operator.precedence + 1

/-- The level of an argument, above the precedence of every operator. -/
def argumentLevel : Nat := 5

theorem precedence_lt_argumentLevel (operator : Operator) :
    operator.precedence < argumentLevel := by
  cases operator <;> decide

theorem precedence_le_leftLevel (operator : Operator) :
    operator.precedence ≤ operator.leftLevel := by
  cases operator <;> decide

theorem precedence_le_rightLevel (operator : Operator) :
    operator.precedence ≤ operator.rightLevel := by
  cases operator <;> decide

theorem precedence_lt_leftLevel_of_rightLevel_le {operator next : Operator}
    (h : operator.rightLevel ≤ next.precedence) : operator.precedence < next.leftLevel := by
  cases operator <;> cases next <;> revert h <;> decide

end Operator

/-- `Written signed level tree tokens` says that `tokens` is a form of `tree` at
`level`. Where it is `signed`, that is at the start of an expression or of a
group, a sign may stand without its left operand, which then is zero. -/
inductive Written : Bool -> Nat -> Tree -> List Token -> Prop where
  | number {signed : Bool} {level : Nat} (text : String) :
      Written signed level (.number text) [.number text]
  | constant {signed : Bool} {level : Nat} (name : String) :
      Written signed level (.constant name) [.constant name]
  | call {signed : Bool} {level : Nat} (name : String) {argument : Tree}
      {tokens : List Token} :
      Written false Operator.argumentLevel argument tokens ->
      Written signed level (.call name argument) (.function name :: tokens)
  | group {signed : Bool} {level : Nat} {tree : Tree} {tokens : List Token}
      {opening closing : Token} :
      opening.kind = .lparen -> closing.kind = .rparen ->
      Written true 0 tree tokens ->
      Written signed level tree (opening :: (tokens ++ [closing]))
  | binary {signed : Bool} {level : Nat} {operator : Operator} {left right : Tree}
      {leftTokens rightTokens : List Token} :
      level ≤ operator.precedence ->
      Written signed operator.leftLevel left leftTokens ->
      Written false operator.rightLevel right rightTokens ->
      Written signed level (.binary operator left right)
        (leftTokens ++ operator.token :: rightTokens)
  | sign {level : Nat} {operator : Operator} {right : Tree} {rightTokens : List Token} :
      operator.isSign = true -> level ≤ operator.precedence ->
      Written false operator.rightLevel right rightTokens ->
      Written true level (.binary operator (.number "0") right)
        (operator.token :: rightTokens)

/-- Every tree can be written at every level, with parentheses around each
operator. -/
theorem exists_written (tree : Tree) (signed : Bool) (level : Nat) :
    exists tokens, Written signed level tree tokens := by
  induction tree generalizing signed level with
  | number text => exact ⟨_, .number text⟩
  | constant name => exact ⟨_, .constant name⟩
  | call name argument ih =>
      rcases ih false Operator.argumentLevel with ⟨tokens, hargument⟩
      exact ⟨_, .call name hargument⟩
  | binary operator left right ihleft ihright =>
      rcases ihleft true operator.leftLevel with ⟨leftTokens, hleft⟩
      rcases ihright false operator.rightLevel with ⟨rightTokens, hright⟩
      have hgroup : Written signed level (.binary operator left right)
          (.opening :: ((leftTokens ++ operator.token :: rightTokens) ++ [.closing])) :=
        .group rfl rfl (.binary (Nat.zero_le operator.precedence) hleft hright)
      exact ⟨_, hgroup⟩

/-!
## Converting a written form

A conversion reaches a written form with tokens held from before. None of them
leaves before an operator of the form, and every operator of the form leaves
before what comes after it.
-/

namespace Postfix

def StaysAt (level : Nat) : List Token -> Prop
  | [] => True
  | top :: _ =>
      forall next : Operator, level ≤ next.precedence -> leavesBefore next top = false

def FollowsLevel (level : Nat) : List Token -> Prop
  | [] => True
  | next :: _ =>
      next.kind = .rparen ∨
        exists operator, next.operator? = some operator ∧ operator.leftLevel ≤ level

theorem staysAt_of_le {level level' : Nat} {held : List Token} (hle : level ≤ level')
    (h : StaysAt level held) : StaysAt level' held := by
  cases held with
  | nil => trivial
  | cons top held =>
      intro next hnext
      exact h next (Nat.le_trans hle hnext)

theorem staysAt_argumentLevel (held : List Token) :
    StaysAt Operator.argumentLevel held := by
  cases held with
  | nil => trivial
  | cons top held =>
      intro next hnext
      have hlt := Operator.precedence_lt_argumentLevel next
      omega

theorem staysAt_opening {opening : Token} (level : Nat) (held : List Token)
    (h : opening.kind = .lparen) : StaysAt level (opening :: held) := by
  intro next _
  exact leavesBefore_opening next h

theorem leavesBefore_token (next operator : Operator) :
    leavesBefore next operator.token = decide (next.leftLevel ≤ operator.precedence) := by
  rw [leavesBefore_operator next (Operator.operator?_token operator)]
  cases next <;> cases operator <;> rfl

theorem staysAt_rightLevel (operator : Operator) (held : List Token) :
    StaysAt operator.rightLevel (operator.token :: held) := by
  intro next hnext
  have hlt := Operator.precedence_lt_leftLevel_of_rightLevel_le hnext
  rw [leavesBefore_token, decide_eq_false_iff_not]
  omega

theorem followsOperand_of_followsLevel {level : Nat} {rest : List Token}
    (h : FollowsLevel level rest) : FollowsOperand rest := by
  cases rest with
  | nil => trivial
  | cons next rest =>
      rcases h with hclosing | ⟨operator, hoperator, _⟩
      · exact Or.inl hclosing
      · exact Or.inr ⟨operator, hoperator⟩

theorem followsLevel_argumentLevel {rest : List Token} (h : FollowsOperand rest) :
    FollowsLevel Operator.argumentLevel rest := by
  cases rest with
  | nil => trivial
  | cons next rest =>
      rcases h with hclosing | ⟨operator, hoperator⟩
      · exact Or.inl hclosing
      · refine Or.inr ⟨operator, hoperator, ?_⟩
        cases operator <;> decide

theorem followsLevel_of_le {level level' : Nat} {rest : List Token} (hle : level ≤ level')
    (h : FollowsLevel level rest) : FollowsLevel level' rest := by
  cases rest with
  | nil => trivial
  | cons next rest =>
      rcases h with hclosing | ⟨operator, hoperator, hlevel⟩
      · exact Or.inl hclosing
      · exact Or.inr ⟨operator, hoperator, Nat.le_trans hlevel hle⟩

theorem leavesFor_token {level : Nat} {operator : Operator} {rest : List Token}
    (hlevel : level ≤ operator.precedence) (h : FollowsLevel level rest) :
    LeavesFor operator.token rest := by
  cases rest with
  | nil => trivial
  | cons next rest =>
      rcases h with hclosing | ⟨nextOperator, hnext, hnextLevel⟩
      · exact Or.inl hclosing
      · refine Or.inr ⟨nextOperator, hnext, ?_⟩
        rw [leavesBefore_token, decide_eq_true_eq]
        omega

theorem convert_token_of_staysAt {level : Nat} {operator : Operator} {held : List Token}
    (atStart : Bool) (rest : List Token)
    (hlevel : level ≤ operator.precedence) (h : StaysAt level held) :
    convert held atStart (operator.token :: rest) =
      signOperand atStart operator ++ convert (operator.token :: held) false rest := by
  rw [convert_operator _ _ _ (Operator.operator?_token operator)]
  cases held with
  | nil => simp
  | cons top held =>
      have hstays : ¬ leavesBefore operator top = true := by
        rw [h operator hlevel]
        decide
      rw [List.takeWhile_cons_of_neg hstays, List.dropWhile_cons_of_neg hstays,
        List.append_nil]

theorem convert_rightOperand {level : Nat} {operator : Operator} {right : Tree}
    {tokens held rest : List Token} (hlevel : level ≤ operator.precedence)
    (hrest : FollowsLevel level rest)
    (hright : StaysAt operator.rightLevel (operator.token :: held) ->
      FollowsLevel operator.rightLevel rest ->
      convert (operator.token :: held) false (tokens ++ rest) =
        right.postorder ++ convert (operator.token :: held) false rest) :
    convert (operator.token :: held) false (tokens ++ rest) =
      right.postorder ++ operator.token :: convert held false rest := by
  have hle : level ≤ operator.rightLevel :=
    Nat.le_trans hlevel (Operator.precedence_le_rightLevel operator)
  rw [hright (staysAt_rightLevel operator held) (followsLevel_of_le hle hrest)]
  have hopening : operator.token.kind ≠ .lparen := by
    intro h
    cases h
  rw [convert_leave held hopening (leavesFor_token hlevel hrest)]

theorem convert_written {signed : Bool} {level : Nat} {tree : Tree} {tokens : List Token}
    (h : Written signed level tree tokens) :
    forall (held : List Token) (atStart : Bool) (rest : List Token),
      (signed = true -> atStart = true) -> StaysAt level held -> FollowsLevel level rest ->
      convert held atStart (tokens ++ rest) = tree.postorder ++ convert held false rest := by
  induction h with
  | number text =>
      intro held atStart rest _ _ _
      exact convert_value held atStart rest rfl
  | constant name =>
      intro held atStart rest _ _ _
      exact convert_value held atStart rest rfl
  | @call _ _ name argument tokens _ ih =>
      intro held atStart rest _ _ hrest
      have hfollows := followsOperand_of_followsLevel hrest
      have hleave : convert (.function name :: held) false rest =
          .function name :: convert held false rest :=
        convert_leave held (by intro h; cases h) (leavesFor_of_function rfl hfollows)
      rw [List.cons_append, convert_function _ _ _ rfl,
        ih (.function name :: held) false rest (by intro h; cases h)
          (staysAt_argumentLevel _) (followsLevel_argumentLevel hfollows), hleave]
      simp [Tree.postorder]
  | @group _ _ tree tokens opening closing hopening hclosing _ ih =>
      intro held atStart rest _ _ hrest
      have hclose : convert ([] ++ opening :: held) false (closing :: rest) =
          [] ++ convert held false rest :=
        convert_close false (by intro token htoken; cases htoken)
          hopening hclosing (followsOperand_of_followsLevel hrest)
      rw [List.cons_append, convert_opening _ _ _ hopening, List.append_assoc,
        List.singleton_append,
        ih (opening :: held) true (closing :: rest) (fun _ => rfl)
          (staysAt_opening 0 held hopening) (Or.inl hclosing)]
      exact congrArg (fun converted => tree.postorder ++ converted) hclose
  | @binary _ level operator left right leftTokens rightTokens hlevel _ _ ihleft ihright =>
      intro held atStart rest hsigned hheld hrest
      have hleft : level ≤ operator.leftLevel :=
        Nat.le_trans hlevel (Operator.precedence_le_leftLevel operator)
      rw [List.append_assoc, List.cons_append,
        ihleft held atStart (operator.token :: (rightTokens ++ rest)) hsigned
          (staysAt_of_le hleft hheld)
          (Or.inr ⟨operator, Operator.operator?_token operator, Nat.le_refl _⟩),
        convert_token_of_staysAt false (rightTokens ++ rest) hlevel hheld,
        convert_rightOperand hlevel hrest
          (ihright (operator.token :: held) false rest (by intro h; cases h))]
      simp [Tree.postorder, signOperand]
  | @sign level operator right rightTokens hsign hlevel _ ih =>
      intro held atStart rest hsigned hheld hrest
      rw [hsigned rfl, List.cons_append,
        convert_token_of_staysAt true (rightTokens ++ rest) hlevel hheld,
        convert_rightOperand hlevel hrest
          (ih (operator.token :: held) false rest (by intro h; cases h))]
      simp [Tree.postorder, signOperand, hsign]

theorem ofInfix_written {tree : Tree} {tokens : List Token}
    (h : Written true 0 tree tokens) : ofInfix tokens = tree.postorder := by
  have hconvert := convert_written h [] true [] (fun _ => rfl) trivial trivial
  simpa [ofInfix, convert] using hconvert

/-!
## Evaluating a postfix order
-/

theorem run_postorder (table : SymbolTable) (tree : Tree) :
    forall stack : List Rat,
      run table stack tree.postorder =
        match tree.value table with
        | .ok value => .ok (value :: stack)
        | .error failure => .error failure := by
  induction tree with
  | number text =>
      intro stack
      cases hvalue : Decimal.parse text <;>
        simp [Tree.postorder, Tree.value, run, step, Token.number, hvalue, Except.map]
  | constant name =>
      intro stack
      cases hvalue : table.constant? name <;>
        simp [Tree.postorder, Tree.value, run, step, Token.constant, hvalue]
  | call name argument ih =>
      intro stack
      rw [Tree.postorder, run_append, ih, Tree.value]
      cases argument.value table with
      | error failure => rfl
      | ok x =>
          cases hfunction : table.function? name with
          | none => simp [run, step, Token.function, hfunction]
          | some function =>
              cases happly : function.apply x <;>
                simp [run, step, Token.function, hfunction, applyFunction, happly, Except.map]
  | binary operator left right ihleft ihright =>
      intro stack
      rw [Tree.postorder, run_append, run_append, ihleft, Tree.value]
      cases left.value table with
      | error failure => rfl
      | ok x =>
          simp only [ihright]
          cases right.value table with
          | error failure => rfl
          | ok y =>
              have hsymbol := Operator.ofSymbol?_singleton operator
              cases happly : operator.apply x y <;>
                simp [run, step, Operator.token, Token.operator, hsymbol, applyOperator,
                  happly, Except.map]

theorem evaluate_postorder (table : SymbolTable) (tree : Tree) :
    evaluate table tree.postorder = tree.value table := by
  unfold evaluate
  rw [run_postorder]
  cases tree.value table <;> rfl

end Postfix

/-!
## The value of a written form
-/

theorem Tree.value_ne_illFormed (table : SymbolTable) (tree : Tree) :
    tree.value table ≠ .error .illFormed := by
  induction tree with
  | number text =>
      intro h
      simp only [Tree.value, Decimal.parse] at h
      split at h <;> cases h
  | constant name =>
      intro h
      simp only [Tree.value] at h
      split at h <;> cases h
  | call name argument ih =>
      intro h
      simp only [Tree.value] at h
      split at h
      · rename_i failure hargument
        cases h
        exact ih hargument
      · split at h
        · cases Elementary.apply_error h
        · cases h
  | binary operator left right ihleft ihright =>
      intro h
      simp only [Tree.value] at h
      split at h
      · rename_i failure hleft
        cases h
        exact ihleft hleft
      · split at h
        · rename_i failure hright
          cases h
          exact ihright hright
        · cases Operator.apply_error h

namespace Expression

/-- Every tree can be written, and the conversion and the value of each of its
written forms are those of the tree. The value is never missing for the reason
that operands and operators do not combine. -/
theorem valueOf_written (tree : Tree) :
    (exists tokens, Written true 0 tree tokens) ∧
      forall tokens, Written true 0 tree tokens ->
        Postfix.ofInfix tokens = tree.postorder ∧
          forall table : SymbolTable,
            valueOf table tokens = tree.value table ∧
              valueOf table tokens ≠ .error .illFormed := by
  constructor
  · exact exists_written tree true 0
  · intro tokens h
    have hconversion := Postfix.ofInfix_written h
    refine ⟨hconversion, ?_⟩
    intro table
    have hvalue : valueOf table tokens = tree.value table := by
      unfold valueOf
      rw [hconversion]
      exact Postfix.evaluate_postorder table tree
    refine ⟨hvalue, ?_⟩
    rw [hvalue]
    exact Tree.value_ne_illFormed table tree

/-- The form `- 2 ^ 3 ^ 2 / tan tan ((30)) - 1`: a sign without its left operand,
both associativities, a chain of functions and parentheses that are not needed. -/
theorem valueOf_written_signed_chain :
    let tree : Tree :=
      .binary .minus
        (.binary .minus (.number "0")
          (.binary .divide
            (.binary .power (.number "2") (.binary .power (.number "3") (.number "2")))
            (.call "tan" (.call "tan" (.number "30")))))
        (.number "1")
    let tokens : List Token :=
      [.operator "-", .number "2", .operator "^", .number "3", .operator "^", .number "2",
        .operator "/", .function "tan", .function "tan", .opening, .opening, .number "30",
        .closing, .closing, .operator "-", .number "1"]
    Written true 0 tree tokens ∧
      Postfix.ofInfix tokens =
        [.number "0", .number "2", .number "3", .number "2", .operator "^", .operator "^",
          .number "30", .function "tan", .function "tan", .operator "/", .operator "-",
          .number "1", .operator "-"] ∧
      forall table : SymbolTable,
        valueOf table tokens = tree.value table ∧
          valueOf table tokens ≠ .error .illFormed := by
  intro tree tokens
  have hpower : Written false 3
      (.binary .power (.number "2") (.binary .power (.number "3") (.number "2")))
      ([.number "2"] ++ Operator.token .power ::
        ([.number "3"] ++ Operator.token .power :: [.number "2"])) :=
    .binary (by decide) (.number "2") (.binary (by decide) (.number "3") (.number "2"))
  have hcall : Written false 4 (.call "tan" (.call "tan" (.number "30")))
      [.function "tan", .function "tan", .opening, .opening, .number "30", .closing,
        .closing] :=
    .call "tan" (.call "tan" (.group rfl rfl (.group rfl rfl (.number "30"))))
  have hquotient := @Written.binary false 3 .divide _ _ _ _ (by decide) hpower hcall
  have hsigned := @Written.sign 2 .minus _ _ rfl (by decide) hquotient
  have hwritten : Written true 0 tree tokens :=
    @Written.binary true 0 .minus _ _ _ _ (by decide) hsigned (.number "1")
  exact ⟨hwritten, (valueOf_written tree).right tokens hwritten⟩

end Expression

end AngleCalc
