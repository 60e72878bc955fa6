import AngleCalc.Proofs.Expression.Reading
import AngleCalc.Proofs.Session.History

/-!
# Evaluations without a session

A session evaluates an input as the text alone is evaluated under its constants. An
open expression is completed with the previous answer, token by token; to the text it
is as if the name of the previous answer had been typed at the open end.
-/

namespace AngleCalc

def Outcome.Reports (outcome : Outcome) : Except Failure Rat -> Prop
  | .ok value => outcome.value = some value ∧ outcome.failure = none
  | .error failure => outcome.value = none ∧ outcome.failure = some failure

namespace Session

variable {session : Session} {input : String}

/-- The text of an open expression with the previous answer at its open end, in front
of a leading operator or else behind. -/
def completedText (tokens : List Token) (expression : String) : String :=
  if Infix.startsOpen tokens then answerName ++ expression
  else expression ++ " " ++ answerName

theorem evaluate_of_read_error {failure : Failure}
    (h : Expression.read session.symbols (normalise input) = .error failure) :
    (session.evaluate input).1.Reports (.error failure) ∧
      (session.evaluate input).1.completed = false := by
  simp [evaluate, prepare, h, Outcome.Reports, Outcome.blank]

theorem evaluate_of_read_ok {tokens : List Token}
    (h : Expression.read session.symbols (normalise input) = .ok tokens) :
    let outcome := (session.evaluate input).1
    let completion := Infix.complete tokens answerName
    outcome.Reports (Expression.valueOf session.symbols completion.1) ∧
      outcome.tokens = completion.1 ∧ outcome.completed = completion.2 := by
  cases hvalue : Expression.valueOf session.symbols (Infix.complete tokens answerName).1 <;>
    simp [evaluate, prepare, h, hvalue, Outcome.Reports, Outcome.blank]

theorem evaluate_of_read {text : String} {table : SymbolTable} {tokens : List Token}
    (h : Expression.read table text = .ok tokens) :
    Expression.evaluate table text = Expression.valueOf table tokens := by
  rw [Expression.evaluate, h]

/-!
## The previous answer is a constant
-/

theorem exists_answer_after (calls : List Call) :
    exists value, (new.after calls).symbols.userConstant? answerName = some value := by
  rw [userConstant?_after, userConstant?_new, if_pos rfl]
  cases (Write.last? answerName (new.writes calls)).map Write.value with
  | none => exact ⟨0, rfl⟩
  | some value => exact ⟨value, rfl⟩

theorem kind?_answerName_after (calls : List Call) :
    (new.after calls).symbols.kind? answerName = some .constant := by
  rcases exists_answer_after calls with ⟨value, hvalue⟩
  simp [SymbolTable.kind?, hvalue]

theorem read_completedText {tokens : List Token}
    (hkind : session.symbols.kind? answerName = some .constant) {expression : String}
    (h : Expression.read session.symbols expression = .ok tokens)
    (hopen : (Infix.complete tokens answerName).2 = true) :
    Expression.read session.symbols (completedText tokens expression) =
      .ok (Infix.complete tokens answerName).1 := by
  have hname : answerName.toList ≠ [] := by decide
  have hletters : forall c, c ∈ answerName.toList -> Text.isAlphabetic c = true :=
    List.all_eq_true.mp (by decide +kernel)
  unfold Infix.complete at hopen ⊢
  unfold completedText
  split
  · rename_i hstarts
    exact Expression.read_name_append hkind hname hletters h hstarts
  · rename_i hstarts
    rw [if_neg hstarts] at hopen
    split
    · rename_i hends
      exact Expression.read_append_name hkind hname hletters h hends
    · rename_i hends
      rw [if_neg hends] at hopen
      cases hopen

/-- After any calls a session evaluates an input as its text is evaluated under the
constants of the session. Where the previous answer was added, this is the text with
`ans` in front if the first token is an operator, and behind otherwise, and the tokens
of the outcome are those of that text. -/
theorem evaluate_eq_stateless (calls : List Call) (input : String) :
    let session := new.after calls
    let expression := normalise input
    let outcome := (session.evaluate input).1
    (outcome.completed = false ->
        outcome.Reports (Expression.evaluate session.symbols expression)) ∧
      (outcome.completed = true ->
        exists tokens, Expression.read session.symbols expression = .ok tokens ∧
          outcome.Reports
            (Expression.evaluate session.symbols (completedText tokens expression)) ∧
          Expression.read session.symbols (completedText tokens expression) =
            .ok outcome.tokens) := by
  intro session expression outcome
  cases hread : Expression.read session.symbols expression with
  | error failure =>
      rcases evaluate_of_read_error hread with ⟨hreports, hcompleted⟩
      constructor
      · intro _
        rw [Expression.evaluate, hread]
        exact hreports
      · intro hopen
        rw [hcompleted] at hopen
        cases hopen
  | ok tokens =>
      rcases evaluate_of_read_ok hread with ⟨hreports, htokens, hcompleted⟩
      constructor
      · intro hclosed
        rw [(Infix.complete_eq_false (hcompleted.symm.trans hclosed)).left] at hreports
        rw [evaluate_of_read hread]
        exact hreports
      · intro hopen
        have hcompletion : (Infix.complete tokens answerName).2 = true :=
          hcompleted.symm.trans hopen
        have htext := read_completedText (kind?_answerName_after calls) hread hcompletion
        refine ⟨tokens, rfl, ?_, ?_⟩
        · rw [evaluate_of_read htext]
          exact hreports
        · rw [htext]
          exact congrArg Except.ok htokens.symm

end Session
end AngleCalc
