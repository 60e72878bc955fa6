import AngleCalc.Expression
import AngleCalc.Proofs.Infix.Reading
import AngleCalc.Proofs.Lexeme.Tokens
import AngleCalc.Proofs.Postfix.Causes
import AngleCalc.Proofs.Postfix.Conservation

/-!
# What is read can be looked up

The tokens of a text are looked up once more when the expression is evaluated,
under the symbol table they were read with. Numbers and known names are found
again. The root sign is read as the function of square roots without a look at the
table, and it is not found under a table where the user has bound a constant of
that name.
-/

namespace AngleCalc
namespace Expression

open Infix Postfix

variable {table : SymbolTable} {text : String} {tokens : List Token}

/-!
## The tokens of a text
-/

theorem isMeaningful_of_scanned {token : Token}
    (h : token ∈ (Lexeme.scan table text.toList).map Lexeme.token) :
    Lexeme.IsMeaningful table token ∨
      ('√' ∈ text.toList ∧ token = .function Elementary.sqrt.name) := by
  rcases List.mem_map.mp h with ⟨lexeme, hlexeme, rfl⟩
  exact Lexeme.isMeaningful_of_mem_scan hlexeme

theorem kind_ne_finish_of_scanned {token : Token}
    (h : token ∈ (Lexeme.scan table text.toList).map Lexeme.token) : token.kind ≠ .finish := by
  rcases isMeaningful_of_scanned h with hmeaningful | ⟨_, rfl⟩
  · exact hmeaningful.left
  · exact TokenKind.noConfusion

theorem resolves_of_read (h : read table text = .ok tokens) {token : Token}
    (htoken : token ∈ tokens) :
    token.Resolves table ∨ ('√' ∈ text.toList ∧ token = .function Elementary.sqrt.name) := by
  have htokens := (ofTokens_eq_ok (fun _ => kind_ne_finish_of_scanned) h).left
  rcases htokens token htoken with hscanned | rfl
  · rcases isMeaningful_of_scanned hscanned with hmeaningful | hroot
    · exact .inl hmeaningful.right
    · exact .inr hroot
  · exact .inl ⟨.times, rfl⟩

theorem root_mem_of_read (h : read table text = .ok tokens) (hroot : '√' ∈ text.toList) :
    .function Elementary.sqrt.name ∈ tokens := by
  have htokens := (ofTokens_eq_ok (fun _ => kind_ne_finish_of_scanned) h).right
  have hscanned : Lexeme.characterToken '√' ∈
      (Lexeme.scan table text.toList).map Lexeme.token :=
    Lexeme.characterToken_mem_scan Lexeme.standsAlone_root text.toList hroot
  exact htokens _ hscanned TokenKind.noConfusion

theorem resolves_function {function : Elementary} :
    (Token.function function.name).Resolves table ↔
      table.userConstant? function.name = none :=
  SymbolTable.function?_name_eq_some

theorem resolves_iff_of_read (h : read table text = .ok tokens) :
    (forall token, token ∈ tokens -> token.Resolves table) ↔
      (table.userConstant? Elementary.sqrt.name = none ∨ '√' ∉ text.toList) := by
  constructor
  · intro hresolves
    by_cases hroot : '√' ∈ text.toList
    · exact .inl (resolves_function.mp (hresolves _ (root_mem_of_read h hroot)))
    · exact .inr hroot
  · intro hcondition token htoken
    rcases resolves_of_read h htoken with hresolves | ⟨hroot, rfl⟩
    · exact hresolves
    · rcases hcondition with hunbound | hnone
      · exact resolves_function.mpr hunbound
      · exact absurd hroot hnone

/-!
## Failures of an evaluation
-/

theorem step_function_of_bound {function : Elementary} (stack : List Rat)
    (h : table.userConstant? function.name ≠ none) :
    Postfix.step table stack (.function function.name) = .error (.unknownName function.name) := by
  have hfunction : table.function? function.name = none := by
    cases hvalue : table.function? function.name with
    | none => rfl
    | some other => exact absurd (SymbolTable.function?_name_eq_some.mp ⟨other, hvalue⟩) h
  simp [Postfix.step, Token.function, hfunction]

theorem resolves_of_mem_ofInfix (h : read table text = .ok tokens) {token : Token}
    (htoken : token ∈ ofInfix tokens) :
    token.Resolves table ∨ ('√' ∈ text.toList ∧ token = .function Elementary.sqrt.name) := by
  rcases mem_ofInfix htoken with hmem | rfl
  · exact resolves_of_read h hmem
  · exact .inl ⟨0, by decide +kernel⟩

theorem step_error_of_read (h : read table text = .ok tokens) {token : Token}
    (htoken : token ∈ ofInfix tokens) {stack : List Rat} {failure : Failure}
    (hstep : Postfix.step table stack token = .error failure) :
    (failure.isArithmetic = true ∨ failure = .illFormed) ∨
      (failure = .unknownName Elementary.sqrt.name ∧ '√' ∈ text.toList ∧
        token = .function Elementary.sqrt.name ∧
        table.userConstant? Elementary.sqrt.name ≠ none) := by
  rcases resolves_of_mem_ofInfix h htoken with hresolves | ⟨hroot, rfl⟩
  · exact .inl (step_error_of_resolves hresolves hstep)
  · by_cases hbound : table.userConstant? Elementary.sqrt.name = none
    · exact .inl (step_error_of_resolves (resolves_function.mpr hbound) hstep)
    · rw [step_function_of_bound stack hbound] at hstep
      cases hstep
      exact .inr ⟨rfl, hroot, rfl, hbound⟩

theorem valueOf_error_of_read (h : read table text = .ok tokens) {failure : Failure}
    (hvalue : valueOf table tokens = .error failure) :
    (failure.isArithmetic = true ∨ failure = .illFormed) ∨
      (failure = .unknownName Elementary.sqrt.name ∧
        table.userConstant? Elementary.sqrt.name ≠ none ∧ '√' ∈ text.toList ∧
        exists front back stack,
          ofInfix tokens = front ++ .function Elementary.sqrt.name :: back ∧
            run table [] front = .ok stack) := by
  by_cases hillFormed : failure = .illFormed
  · exact .inl (.inr hillFormed)
  · rcases run_eq_error.mp ((evaluate_eq_error hillFormed).mp hvalue) with
      ⟨front, token, back, stack, htokens, hfront, hstep⟩
    have htoken : token ∈ ofInfix tokens := by
      rw [htokens]
      simp
    rcases step_error_of_read h htoken hstep with hoperands | ⟨hname, hroot, rfl, hbound⟩
    · exact .inl hoperands
    · exact .inr ⟨hname, hbound, hroot, front, back, stack, htokens, hfront⟩

/-- The tokens of a text can be looked up under the table they were read with, unless
the text has a root sign and the table a constant of the user with the name of the
root. Then the evaluation stops at the first root it comes to. No number is ever
refused. -/
theorem resolution_of_read (h : read table text = .ok tokens) :
    ((forall token, token ∈ tokens -> token.Resolves table) ↔
        (table.userConstant? "sqrt" = none ∨ '√' ∉ text.toList)) ∧
      (forall digits, valueOf table tokens ≠ .error (.badNumber digits)) ∧
      forall name, valueOf table tokens = .error (.unknownName name) ↔
        name = "sqrt" ∧ table.userConstant? "sqrt" ≠ none ∧ '√' ∈ text.toList ∧
          exists front back stack,
            ofInfix tokens = front ++ .function "sqrt" :: back ∧
              run table [] front = .ok stack := by
  refine ⟨resolves_iff_of_read h, ?_, ?_⟩
  · intro digits hvalue
    rcases valueOf_error_of_read h hvalue with (harithmetic | hillFormed) | ⟨hname, _⟩
    · cases harithmetic
    · cases hillFormed
    · cases hname
  · intro name
    constructor
    · intro hvalue
      rcases valueOf_error_of_read h hvalue with
        (harithmetic | hillFormed) | ⟨hname, hbound, hroot, hreached⟩
      · cases harithmetic
      · cases hillFormed
      · cases hname
        exact ⟨rfl, hbound, hroot, hreached⟩
    · rintro ⟨rfl, hbound, _, front, back, stack, htokens, hfront⟩
      have hstep := @step_function_of_bound table .sqrt stack hbound
      exact (evaluate_eq_error Failure.noConfusion).mpr
        (run_eq_error.mpr ⟨front, _, back, stack, htokens, hfront, hstep⟩)

theorem read_root_sixteen (table : SymbolTable) :
    read table "√16" = .ok [.function "sqrt", .number "16"] := by
  have hrun : (NumericRun.read false ['6']).cons '1' = ⟨['1', '6'], [], false, false⟩ := by
    decide +kernel
  have hangle : Sexagesimal.readChars ['1', '6'] = .ok 16 := by decide +kernel
  have hcanonical : Decimal.toText 16 = "16" := by decide +kernel
  have hnumber : Lexeme.head table '1' ['6'] =
      ([⟨['1', '6'], .number "16", false⟩], []) := by
    simp only [Lexeme.head]
    rw [if_pos (by decide), show ('1' == '.') = false from rfl, hrun]
    simp [Lexeme.ofNumeric, hangle, hcanonical]
  have hscan : Lexeme.scan table ['√', '1', '6'] =
      [⟨['√'], .function "sqrt", false⟩, ⟨['1', '6'], .number "16", false⟩] := by
    rw [Lexeme.scan, Lexeme.head_of_standsAlone _ Lexeme.standsAlone_root, Lexeme.scan, hnumber,
      Lexeme.scan]
    rfl
  unfold read Lexeme.tokens
  rw [show "√16".toList = ['√', '1', '6'] from rfl, hscan]
  rfl

/-- The text `√16` where the user has bound a constant `sqrt`. -/
theorem resolution_of_read_hidden_root :
    let table := SymbolTable.empty.add "sqrt" 2
    let tokens : List Token := [.function "sqrt", .number "16"]
    read table "√16" = .ok tokens ∧
      (¬ forall token, token ∈ tokens -> token.Resolves table) ∧
      valueOf table tokens = .error (.unknownName "sqrt") := by
  intro table tokens
  have hread : read table "√16" = .ok tokens := read_root_sixteen table
  have hbound : table.userConstant? "sqrt" ≠ none := by decide
  have hroot : '√' ∈ "√16".toList := by decide
  rcases resolution_of_read hread with ⟨hresolves, _, hvalue⟩
  refine ⟨hread, ?_, ?_⟩
  · intro hall
    rcases hresolves.mp hall with hunbound | hnone
    · exact hbound hunbound
    · exact hnone hroot
  · exact (hvalue "sqrt").mpr
      ⟨rfl, hbound, hroot, [.number "16"], [], [16], by decide, by decide +kernel⟩

end Expression
end AngleCalc
