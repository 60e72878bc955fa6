import AngleCalc.Proofs.Infix.Products
import AngleCalc.Proofs.Lexeme.Numbers
import AngleCalc.Proofs.Symbols.FunctionWords

/-!
# Legible tokens

As long as the previous answer is the only constant of the user, every token that is
read is legible: where its text stands alone it is read as the same token once more.
-/

namespace AngleCalc

inductive Token.IsLegible (table : SymbolTable) : Token -> Prop where
  | number {x : Rat} (h : 0 ≤ x) : IsLegible table (.number (Decimal.toText x))
  | constant {name : String} (hkind : table.kind? name = some .constant)
      (hletters : forall c, c ∈ name.toList -> Text.isAlphabetic c = true) :
      IsLegible table (.constant name)
  | function (function : Elementary) : IsLegible table function.token
  | operator (operator : Operator) : IsLegible table operator.token
  | opening : IsLegible table .opening
  | closing : IsLegible table .closing

namespace Token.IsLegible

theorem exists_function {table : SymbolTable} {token : Token} (h : token.IsLegible table)
    (hkind : token.kind = .function) : exists function : Elementary, token = function.token := by
  cases h with
  | function function => exact ⟨function, rfl⟩
  | number | constant | operator | opening | closing => cases hkind

theorem isPlain {table : SymbolTable} {token : Token} (h : token.IsLegible table) :
    token.isPlain = true := by
  cases h with
  | operator operator => cases operator <;> decide
  | number | constant | function | opening | closing => rfl

end Token.IsLegible

namespace Lexeme

open Token (IsLegible)

variable {table : SymbolTable}

/-!
## What is read is legible
-/

theorem isLegible_ofNumeric {c : Char} (cs : List Char) (hstarts : startsNumber c = true)
    (herror : (ofNumeric ((NumericRun.read (c == '.') cs).cons c)).token.kind ≠ .error) :
    IsLegible table (ofNumeric ((NumericRun.read (c == '.') cs).cons c)).token := by
  rw [NumericRun.cons_read cs hstarts] at herror ⊢
  have hunsigned : '-' ∉ (NumericRun.read false (c :: cs)).slice := by
    intro hmem
    have hminus : standsAlone '-' = true := by decide +kernel
    rw [not_standsAlone_of_mem_slice false (c :: cs) hmem] at hminus
    cases hminus
  have hkind := (kind_ofNumeric (NumericRun.read false (c :: cs))).resolve_right herror
  rcases exists_toText_of_ofNumeric hunsigned hkind with ⟨x, hx, htoken⟩
  rw [htoken]
  exact .number hx

theorem isLegible_of_kind? {name : String} {kind : TokenKind}
    (hkind : table.kind? name = some kind)
    (hletters : forall c, c ∈ name.toList -> Text.isAlphabetic c = true) :
    IsLegible table ⟨kind, name⟩ := by
  rcases SymbolTable.kind?_eq_some hkind with rfl | rfl
  · exact .constant hkind hletters
  · rcases SymbolTable.exists_function_of_kind? hkind with ⟨function, rfl⟩
    exact .function function

theorem isLegible_ofWord {lexeme : Lexeme} {word : List Char}
    (hletters : forall c, c ∈ word -> Text.isAlphabetic c = true)
    (h : lexeme ∈ ofWord table word) (herror : lexeme.token.kind ≠ .error) :
    IsLegible table lexeme.token := by
  simp only [ofWord] at h
  split at h
  · rename_i kind hkind
    rw [List.mem_singleton.mp h]
    exact isLegible_of_kind? hkind (by rwa [String.toList_ofList])
  · split at h
    · rename_i piece pieces hsplit
      rcases List.mem_map.mp h with ⟨token, htoken, rfl⟩
      -- The letters of a piece are letters of the word.
      refine isLegible_of_kind? (SymbolTable.areNames_splitWord? hsplit token htoken) ?_
      intro c hc
      apply hletters
      rw [← SymbolTable.spelled_splitWord? word hsplit]
      exact List.mem_flatMap.mpr ⟨token, htoken, hc⟩
    · rw [List.mem_singleton.mp h] at herror
      exact absurd rfl herror

theorem isLegible_characterToken {c : Char} (h : (characterToken c).kind ≠ .error) :
    IsLegible table (characterToken c) := by
  unfold characterToken at h ⊢
  split
  · exact .opening
  · split
    · exact .closing
    · split
      · exact .function .sqrt
      · split
        · rename_i hsymbol
          rcases List.any_eq_true.mp hsymbol with ⟨operator, _, hc⟩
          rw [← eq_of_beq hc]
          exact .operator operator
        · simp_all

theorem isLegible_of_mem_visible {text : List Char} {token : Token}
    (h : token ∈ visible table text) (herror : token.kind ≠ .error) :
    IsLegible table token := by
  rcases mem_visible.mp h with ⟨hscanned, hvisible⟩
  rcases List.mem_map.mp hscanned with ⟨lexeme, hlexeme, rfl⟩
  rcases mem_scan_cases hlexeme with
    ⟨c, cs, hstarts, rfl⟩ | ⟨word, hletters, hword⟩ | hblank | ⟨c, _, htoken⟩
  · exact isLegible_ofNumeric cs hstarts herror
  · exact isLegible_ofWord hletters hword herror
  · exact absurd hblank hvisible
  · rw [htoken] at herror ⊢
    exact isLegible_characterToken herror

/-!
## What is legible is read again
-/

theorem visible_standsAlone {c : Char} (cs : List Char) (h : standsAlone c = true) :
    visible table (c :: cs) = characterToken c :: visible table cs := by
  rcases standsAlone_eq_true.mp h with ⟨hnumber, _, halphabetic, hblank⟩
  exact visible_character cs hnumber halphabetic hblank

theorem isBoundary_of_standsAlone {c : Char} (h : standsAlone c = true) :
    isBoundary c = true := by
  rcases standsAlone_eq_true.mp h with ⟨hnumber, hmark, halphabetic, _⟩
  exact isBoundary_eq_true.mpr ⟨hnumber, hmark, halphabetic⟩

theorem isAlphabetic_of_mem_word (functions : List Elementary) :
    forall c, c ∈ Elementary.word functions -> Text.isAlphabetic c = true := by
  have hall : forall function, function ∈ Elementary.all ->
      function.name.toList.all Text.isAlphabetic = true := by
    decide +kernel
  intro c hc
  rcases List.mem_flatMap.mp hc with ⟨function, _, hname⟩
  exact List.all_eq_true.mp (hall function function.mem_all) c hname

theorem visible_function_word (h : table.AnswerOnly) (functions : List Elementary) :
    visible table (Elementary.word functions) = functions.map Elementary.token := by
  have hletters := isAlphabetic_of_mem_word functions
  match functions with
  | [] => exact visible_nil
  | [function] =>
      rw [Elementary.word_cons, Elementary.word, List.flatMap_nil, List.append_nil] at hletters ⊢
      exact visible_name (h.kind?_name function) (function.name_ne_nil) hletters
  | first :: second :: functions =>
      have hword : Elementary.word (first :: second :: functions) ≠ [] := by
        simp [Elementary.word_cons, first.name_ne_nil]
      have hsplit := h.splitWord?_word (first :: second :: functions)
      rw [List.map_cons] at hsplit
      rw [visible_letters hword hletters]
      simp only [ofWord, h.kind?_word, hsplit, List.map_cons, List.map_map]
      rfl

theorem visible_value (h : table.AnswerOnly) {token : Token} (hlegible : token.IsLegible table)
    (hvalue : token.isValue = true) : visible table token.text.toList = [token] := by
  cases hlegible with
  | number hx => exact visible_toText hx
  | constant hkind hletters =>
      refine visible_name hkind ?_ hletters
      exact fun hempty => h.ne_empty hkind (String.toList_eq_nil_iff.mp hempty)
  | function | operator | opening | closing => cases hvalue

end Lexeme
end AngleCalc
