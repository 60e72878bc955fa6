import AngleCalc.Proofs.Expression.Rejection
import AngleCalc.Proofs.Session.Completion
import AngleCalc.Proofs.Session.Printing

/-!
# The expression, evaluated again

As long as no constant is bound by hand, the text of an evaluated expression can be
evaluated in place of the input. Its value is the same, and since the products and the
previous answer are shown where they were added, nothing is added once more.
-/

namespace AngleCalc

open Infix

variable {table : SymbolTable}

/-!
## Reading the text again
-/

theorem Expression.isLegible_of_read {text : String} {tokens : List Token}
    (h : Expression.read table text = .ok tokens) :
    (forall token, token ∈ tokens -> token.IsLegible table) ∧ Separated false tokens := by
  rcases Expression.read_eq_ok_iff.mp h with ⟨herror, rfl⟩
  constructor
  · intro token htoken
    rcases mem_insertProductsAfter htoken with hmem | rfl
    · exact Lexeme.isLegible_of_mem_visible hmem (herror token hmem)
    · exact .operator .times
  · exact separated_insertProductsAfter _ false

theorem Outcome.read_expressionText (h : table.AnswerOnly) {outcome : Outcome}
    (hlegible : forall token, token ∈ outcome.tokens -> token.IsLegible table)
    (hseparated : Separated false outcome.tokens) :
    Expression.read table (Session.normalise outcome.expressionText) =
      .ok (withGroups false outcome.tokens) := by
  have hsettled := isSettled_of_mem_characters h hlegible
  rw [← toList_expressionText] at hsettled
  have hvisible : Lexeme.visible table (Session.normalise outcome.expressionText).toList =
      withGroups false outcome.tokens := by
    rw [Session.visible_normalise hsettled, toList_expressionText]
    exact visible_characters h hlegible hseparated []
  have hplain := isPlain_of_mem_withGroups false
    (fun token htoken => (hlegible token htoken).isPlain)
  refine Expression.read_eq_ok_iff.mpr ⟨?_, ?_⟩
  · rw [hvisible]
    intro token htoken hkind
    have htokenPlain := hplain token htoken
    simp [Token.isPlain, hkind] at htokenPlain
  · rw [hvisible]
    exact insertProductsAfter_of_separated (separated_withGroups false hseparated)

theorem Expression.valueOf_withGroups {tokens : List Token}
    (hplain : forall token, token ∈ tokens -> token.isPlain = true)
    (hseparated : Separated false tokens) :
    Expression.valueOf table (withGroups false tokens) = Expression.valueOf table tokens := by
  rw [Expression.valueOf, ofInfix_withGroups hplain hseparated, Expression.valueOf]

namespace Session

/-!
## The previous answer alone
-/

theorem answerOnly_add (value : Rat) (h : table.AnswerOnly) :
    (table.add answerName value).AnswerOnly := by
  rcases h with ⟨bound, huser⟩
  exact ⟨value, by simp [SymbolTable.add, huser]⟩

theorem answerOnly_perform {session : Session} {call : Call}
    (hcall : forall name value, call ≠ .addConstant name value)
    (h : session.symbols.AnswerOnly) : (session.perform call).symbols.AnswerOnly := by
  cases call with
  | evaluate input =>
      rcases evaluate_cases session input with ⟨_, _, _, hnext⟩ | ⟨value, _, _, hnext⟩
      · rw [perform, hnext]
        exact h
      · rw [perform, hnext]
        exact answerOnly_add value h
  | addConstant name value => exact absurd rfl (hcall name value)
  | setDigits digits => exact h

theorem answerOnly_after {session : Session} {calls : List Call}
    (hcalls : forall name value, .addConstant name value ∉ calls)
    (h : session.symbols.AnswerOnly) : (session.after calls).symbols.AnswerOnly := by
  induction calls generalizing session with
  | nil => exact h
  | cons call rest ih =>
      apply ih
      · intro name value hmem
        exact hcalls name value (List.mem_cons_of_mem call hmem)
      · apply answerOnly_perform _ h
        rintro name value rfl
        exact hcalls name value List.mem_cons_self

theorem kind?_answerName (h : table.AnswerOnly) :
    table.kind? answerName = some .constant := by
  rcases h with ⟨value, huser⟩
  simp [SymbolTable.kind?, SymbolTable.userConstant?, huser]

/-!
## Evaluating the text again
-/

section Again

variable {session : Session} {input : String} {value : Rat}

theorem tokens_of_value (hkind : session.symbols.kind? answerName = some .constant)
    (h : (session.evaluate input).1.value = some value) :
    let outcome := (session.evaluate input).1
    (exists text, Expression.read session.symbols text = .ok outcome.tokens) ∧
      Expression.valueOf session.symbols outcome.tokens = .ok value ∧
      startsOpen outcome.tokens = false := by
  intro outcome
  cases hread : Expression.read session.symbols (normalise input) with
  | error failure =>
      rw [(evaluate_of_read_error hread).left.left] at h
      cases h
  | ok tokens =>
      rcases evaluate_of_read_ok hread with ⟨hreports, htokens, _⟩
      change outcome.tokens = _ at htokens
      rw [htokens]
      refine ⟨?_, ?_, startsOpen_complete tokens answerName⟩
      · cases hopen : (complete tokens answerName).2 with
        | false =>
            rw [(complete_eq_false hopen).left]
            exact ⟨normalise input, hread⟩
        | true => exact ⟨_, read_completedText hkind hread hopen⟩
      · cases hvalue : Expression.valueOf session.symbols (complete tokens answerName).1 with
        | error failure =>
            rw [hvalue] at hreports
            rw [hreports.left] at h
            cases h
        | ok other =>
            rw [hvalue] at hreports
            rw [hreports.left] at h
            cases h
            rfl

theorem evaluate_again (hsymbols : session.symbols.AnswerOnly)
    (h : (session.evaluate input).1.value = some value) :
    let again := (session.evaluate (session.evaluate input).1.expressionText).1
    again.Reports (.ok value) ∧ again.completed = false := by
  intro again
  -- A completed expression is read as well, from the text with the answer in it.
  rcases tokens_of_value (kind?_answerName hsymbols) h with ⟨⟨text, hread⟩, hvalue, hstarts⟩
  rcases Expression.isLegible_of_read hread with ⟨hlegible, hseparated⟩
  have hplain := fun token htoken => (hlegible token htoken).isPlain
  have hagain := Outcome.read_expressionText hsymbols hlegible hseparated
  rw [← Expression.valueOf_withGroups hplain hseparated] at hvalue
  have hends := endsOpen_of_valueOf (isPlain_of_mem_withGroups false hplain)
    (separated_withGroups false hseparated) hvalue
  rcases evaluate_of_read_ok hagain with ⟨hreports, _, hcompleted⟩
  rw [complete_eq_self answerName ((startsOpen_withGroups _).trans hstarts) hends]
    at hreports hcompleted
  rw [hvalue] at hreports
  exact ⟨hreports, hcompleted⟩

end Again

/-- The text of an evaluated expression has the value of the input it was written for,
and it is complete. -/
theorem evaluate_expressionText (calls : List Call)
    (hcalls : forall name value, .addConstant name value ∉ calls) (input : String)
    (value : Rat) (h : ((new.after calls).evaluate input).1.value = some value) :
    let session := new.after calls
    let again := (session.evaluate (session.evaluate input).1.expressionText).1
    again.value = some value ∧ again.failure = none ∧ again.completed = false := by
  have hnew : new.symbols.AnswerOnly := ⟨0, rfl⟩
  rcases evaluate_again (answerOnly_after hcalls hnew) h with ⟨⟨hvalue, hfailure⟩, hcompleted⟩
  exact ⟨hvalue, hfailure, hcompleted⟩

/-- The text that is written for an open input shows an added answer and an added
product, and two functions without a space between them. -/
theorem evaluate_expressionText_open :
    let session := new.after [.evaluate "2", .setDigits 4]
    let outcome := (session.evaluate "*2(3)+absfloor2.5").1
    let again := (session.evaluate outcome.expressionText).1
    outcome.expressionText = "ans*2*(3) + absfloor(2.5)" ∧ outcome.value = some 14 ∧
      again.value = some 14 ∧ again.failure = none ∧ again.completed = false := by
  have hcalls : forall name value,
      Call.addConstant name value ∉ [.evaluate "2", .setDigits 4] := by
    simp
  exact ⟨by decide +kernel, by decide +kernel,
    evaluate_expressionText [.evaluate "2", .setDigits 4] hcalls "*2(3)+absfloor2.5" 14
      (by decide +kernel)⟩

end Session
end AngleCalc
