import AngleCalc.Decimal.Numeral
import AngleCalc.Operator
import AngleCalc.Proofs.Symbols.Splitting

/-!
# Resolving tokens

A token is looked up by its text once more when it is evaluated. A name that was
classified under a symbol table has a meaning of its kind under the same table, and
so has each piece of a split word. A constant of the user hides the function of the
same name.
-/

namespace AngleCalc

/-- The text of a token has a meaning of the token's kind. -/
def Token.Resolves (table : SymbolTable) (token : Token) : Prop :=
  match token.kind with
  | .number => exists value, Decimal.parse token.text = .ok value
  | .constant => exists value, table.constant? token.text = some value
  | .function => exists function, table.function? token.text = some function
  | .operator => exists operator, Operator.ofSymbol? token.text = some operator
  | .lparen | .rparen | .whitespace | .finish | .error => True

namespace SymbolTable

variable {table : SymbolTable}

/-!
## Names
-/

theorem resolves_of_kind? {name : String} {kind : TokenKind}
    (h : table.kind? name = some kind) : Token.Resolves table ⟨kind, name⟩ := by
  unfold kind? at h
  cases huser : table.userConstant? name with
  | some value =>
      rw [huser] at h
      cases h
      exact ⟨value, by simp [constant?, resolve?, huser]⟩
  | none =>
      rw [huser] at h
      cases hbuiltin : Builtin.find? name with
      | none =>
          rw [hbuiltin] at h
          cases h
      | some builtin =>
          rw [hbuiltin] at h
          cases builtin with
          | function function =>
              cases h
              exact ⟨function, by simp [function?, resolve?, huser, hbuiltin]⟩
          | constant constant =>
              cases h
              exact ⟨constant.value, by simp [constant?, resolve?, huser, hbuiltin]⟩

theorem kind?_eq_some {name : String} {kind : TokenKind} (h : table.kind? name = some kind) :
    kind = .constant ∨ kind = .function := by
  unfold kind? at h
  split at h
  · cases h
    exact .inl rfl
  · split at h
    · cases h
      exact .inr rfl
    · cases h
      exact .inl rfl
    · cases h

theorem find?_name (function : Elementary) :
    Builtin.find? function.name = some (.function function) := by
  cases function <;> rfl

/-- A function has a meaning under its own name as long as no constant of the user
has this name. -/
theorem function?_name_eq_some {function : Elementary} :
    (exists other, table.function? function.name = some other) ↔
      table.userConstant? function.name = none := by
  unfold function? resolve?
  cases huser : table.userConstant? function.name with
  | some value => simp
  | none => simp [find?_name]

/-!
## Pieces of a word
-/

def AreNames (table : SymbolTable) (pieces : List Token) : Prop :=
  forall piece, piece ∈ pieces -> table.kind? piece.text = some piece.kind

theorem areNames_splitWord? {word : List Char} {pieces : List Token}
    (h : table.splitWord? word = some pieces) : table.AreNames pieces := by
  refine splitWord?_induction (motive := fun _ pieces => table.AreNames pieces) ?_ ?_ word h
  · intro piece hpiece
    cases hpiece
  · intro name rest kind pieces hfirst hrest piece hpiece
    rcases List.mem_cons.mp hpiece with rfl | hmem
    · exact hfirst.kind_eq
    · exact hrest piece hmem

end SymbolTable
end AngleCalc
