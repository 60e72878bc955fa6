import AngleCalc.Proofs.Postfix.Conservation
import AngleCalc.Proofs.Session.Completion
import AngleCalc.Proofs.Symbols.Names

/-!
# What an outcome depends on

An evaluation reads an input by the names that have a meaning, and then asks for the values
of the constants among its tokens. Sessions with the same names that agree on these values
and on the digits have the same outcome, whether it is a value or a failure. The previous
answer is such a constant, and without it among the tokens it has no effect.
-/

namespace AngleCalc

variable {first second : SymbolTable}

/-!
## Values
-/

namespace Postfix

/-- A token asks for the value of its constant and for nothing else. -/
theorem step_congr (h : first.SameNames second) (stack : List Rat) {token : Token}
    (hvalue : token.kind = .constant ->
      first.constant? token.text = second.constant? token.text) :
    step first stack token = step second stack token := by
  unfold step
  cases hkind : token.kind with
  | constant => simp only [hvalue hkind]
  | function => simp only [h.function?_eq]
  | number | operator | whitespace | finish | lparen | rparen | error => rfl

theorem run_congr (h : first.SameNames second) (stack : List Rat) {tokens : List Token}
    (hvalues : forall token, token ∈ tokens -> token.kind = .constant ->
      first.constant? token.text = second.constant? token.text) :
    run first stack tokens = run second stack tokens := by
  induction tokens generalizing stack with
  | nil => rfl
  | cons token rest ih =>
      rw [run, run, step_congr h stack (hvalues token List.mem_cons_self)]
      cases step second stack token with
      | error failure => rfl
      | ok stack' =>
          exact ih stack' (fun other hother => hvalues other (List.mem_cons_of_mem token hother))

end Postfix

theorem Expression.valueOf_congr (h : first.SameNames second) {tokens : List Token}
    (hvalues : forall name, .constant name ∈ tokens ->
      first.constant? name = second.constant? name) :
    Expression.valueOf first tokens = Expression.valueOf second tokens := by
  unfold Expression.valueOf Postfix.evaluate
  rw [Postfix.run_congr h]
  intro token htoken hkind
  rcases Postfix.mem_ofInfix htoken with hmem | rfl
  · apply hvalues
    rwa [Token.constant, ← hkind]
  · cases hkind

theorem SymbolTable.constant?_add_of_ne (table : SymbolTable) {name other : String}
    (value : Rat) (h : other ≠ name) :
    (table.add name value).constant? other = table.constant? other := by
  simp only [constant?, resolve?, userConstant?_add_of_ne table value h]

/-!
## Outcomes
-/

namespace Session

variable {session other : Session} {input : String}

theorem prepare_congr (hdigits : session.digits = other.digits)
    (hnames : session.symbols.SameNames other.symbols) (expression : String) :
    session.prepare expression = other.prepare expression := by
  unfold prepare
  rw [hdigits, hnames.read_eq, hnames.hasMarks_eq]

theorem tokens_evaluate {outcome : Outcome}
    (h : session.prepare (normalise input) = .ok outcome) :
    (session.evaluate input).1.tokens = outcome.tokens := by
  cases hvalue : Expression.valueOf session.symbols outcome.tokens <;>
    simp [evaluate, h, hvalue]

theorem evaluate_congr (hdigits : session.digits = other.digits)
    (hnames : session.symbols.SameNames other.symbols)
    (hvalues : forall name, .constant name ∈ (session.evaluate input).1.tokens ->
      session.symbols.constant? name = other.symbols.constant? name) :
    (session.evaluate input).1 = (other.evaluate input).1 := by
  have hprepare := prepare_congr hdigits hnames (normalise input)
  cases hsession : session.prepare (normalise input) with
  | error failure =>
      rw [hsession] at hprepare
      simp only [evaluate, hsession, ← hprepare, hdigits]
  | ok outcome =>
      rw [tokens_evaluate hsession] at hvalues
      have hvalue := Expression.valueOf_congr hnames hvalues
      rw [hsession] at hprepare
      simp only [evaluate, hsession, ← hprepare, hvalue]
      cases Expression.valueOf other.symbols outcome.tokens <;> rfl

/-- Two sessions with the same names and digits have the same outcome if they agree on the
constants among its tokens. In a session after any calls the previous answer has no effect
unless it is one of these constants. -/
theorem outcome_depends_on_tokens (input : String) :
    (forall session other : Session, session.digits = other.digits ->
        session.symbols.SameNames other.symbols ->
        (forall name, .constant name ∈ (session.evaluate input).1.tokens ->
          session.symbols.constant? name = other.symbols.constant? name) ->
        (session.evaluate input).1 = (other.evaluate input).1) ∧
      forall calls answer value,
        let session := new.after calls
        .constant answerName ∉ (session.evaluate input).1.tokens ->
        (session.evaluate input).1 =
          (Session.evaluate ⟨session.symbols.add answerName value, answer, session.digits⟩
            input).1 := by
  constructor
  · intro session other hdigits hnames hvalues
    exact evaluate_congr hdigits hnames hvalues
  · intro calls answer value session hanswer
    refine evaluate_congr ?_ ?_ ?_
    · rfl
    · apply SymbolTable.sameNames_add
      rcases exists_answer_after calls with ⟨bound, hbound⟩
      rw [hbound]
      rfl
    · intro name hname
      have hother : name ≠ answerName := by
        rintro rfl
        exact hanswer hname
      exact (SymbolTable.constant?_add_of_ne session.symbols value hother).symm

/-- A division by zero that names one constant, where another one has two values. -/
theorem outcome_depends_on_tokens_division :
    let session := new.after [.addConstant "a" 3, .addConstant "b" 1]
    let other := session.addConstant "b" 7
    session.symbols.constant? "b" ≠ other.symbols.constant? "b" ∧
      (session.evaluate "2a/0").1.tokens =
        [.number "2", .operator "*", .constant "a", .operator "/", .number "0"] ∧
      (session.evaluate "2a/0").1 = (other.evaluate "2a/0").1 := by
  intro session other
  have htokens : (session.evaluate "2a/0").1.tokens =
      [.number "2", .operator "*", .constant "a", .operator "/", .number "0"] := by
    decide +kernel
  refine ⟨by decide +kernel, htokens, ?_⟩
  apply (outcome_depends_on_tokens "2a/0").left session other rfl
  · exact SymbolTable.sameNames_add (by decide +kernel)
  · intro name hname
    rw [htokens] at hname
    have ha : name = "a" := by simpa [Token.number, Token.operator, Token.constant] using hname
    subst ha
    decide +kernel

end Session
end AngleCalc
