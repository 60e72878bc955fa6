import AngleCalc.Proofs.Expression.Resolution
import AngleCalc.Proofs.Infix.Completion
import AngleCalc.Proofs.Lexeme.Boundaries

/-!
# Reading an expression

A text is read if no token of it is an error, and what is read are its tokens
without white space, with the products inserted. A name at one end of a text does
not change how the rest is read.
-/

namespace AngleCalc
namespace Expression

open Infix Lexeme

variable {table : SymbolTable} {text : String} {tokens : List Token}

theorem read_eq_ok_iff :
    read table text = .ok tokens ↔
      (forall token, token ∈ visible table text.toList -> token.kind ≠ .error) ∧
        insertProducts (visible table text.toList) = tokens := by
  rw [read, ofTokens, Lexeme.tokens, exceptMap_eq_ok]
  simp only [significant_eq_ok_iff (fun _ => kind_ne_finish_of_scanned)]
  constructor
  · rintro ⟨kept, ⟨herror, rfl⟩, rfl⟩
    exact ⟨fun token htoken => herror token (mem_visible.mp htoken).left, rfl⟩
  · rintro ⟨herror, rfl⟩
    refine ⟨_, ⟨?_, rfl⟩, rfl⟩
    intro token htoken hkind
    exact herror token (mem_visible.mpr ⟨htoken, by simp [hkind]⟩) hkind

/-- White space between the tokens of a text does not matter. -/
theorem read_eq_ofTokens_visible (table : SymbolTable) (text : String) :
    read table text = ofTokens (visible table text.toList ++ [.finish]) := by
  rw [read, ofTokens, ofTokens, Lexeme.tokens, visible, significant_filter]

/-!
## A name at an end of the text
-/

theorem read_name_append {name text : String}
    (hkind : table.kind? name = some .constant) (hname : name.toList ≠ [])
    (hletters : forall c, c ∈ name.toList -> Text.isAlphabetic c = true)
    (h : read table text = .ok tokens) (hopen : startsOpen tokens = true) :
    read table (name ++ text) = .ok (.constant name :: tokens) := by
  rcases read_eq_ok_iff.mp h with ⟨herror, rfl⟩
  rw [startsOpen_insertProducts] at hopen
  have hvisible : visible table (name ++ text).toList =
      .constant name :: visible table text.toList := by
    rw [String.toList_append]
    cases hcs : text.toList with
    | nil =>
        rw [hcs, visible_nil] at hopen
        cases hopen
    | cons c cs =>
        rw [hcs] at hopen
        have hboundary : isBoundary c = true := by
          cases hhead : (visible table (c :: cs)).head? with
          | none => simp [startsOpen, hhead] at hopen
          | some token =>
              simp only [startsOpen, hhead] at hopen
              exact isBoundary_of_head?_visible hhead (eq_of_beq hopen)
        rw [visible_append_cons hboundary, visible_name hkind hname hletters]
        rfl
  refine read_eq_ok_iff.mpr ⟨?_, ?_⟩
  · rw [hvisible]
    intro token htoken
    rcases List.mem_cons.mp htoken with rfl | hrest
    · exact TokenKind.noConfusion
    · exact herror token hrest
  · rw [hvisible, insertProducts_constant_cons name hopen]

theorem read_append_name {name text : String}
    (hkind : table.kind? name = some .constant) (hname : name.toList ≠ [])
    (hletters : forall c, c ∈ name.toList -> Text.isAlphabetic c = true)
    (h : read table text = .ok tokens) (hopen : endsOpen tokens = true) :
    read table (text ++ " " ++ name) = .ok (tokens ++ [.constant name]) := by
  rcases read_eq_ok_iff.mp h with ⟨herror, rfl⟩
  have hblank : Text.isBlank ' ' = true := by decide
  have hvisible : visible table (text ++ " " ++ name).toList =
      visible table text.toList ++ [.constant name] := by
    have hspace : (text ++ " " ++ name).toList = text.toList ++ ' ' :: name.toList := by
      rw [String.toList_append, String.toList_append, List.append_assoc]
      rfl
    rw [hspace, visible_append_cons (isBoundary_of_isBlank hblank), visible_blank _ hblank,
      visible_name hkind hname hletters]
    rfl
  refine read_eq_ok_iff.mpr ⟨?_, ?_⟩
  · rw [hvisible]
    intro token htoken
    rcases List.mem_append.mp htoken with hfront | hlast
    · exact herror token hfront
    · rw [List.mem_singleton.mp hlast]
      exact TokenKind.noConfusion
  · rw [hvisible, insertProducts_concat_constant name hopen]

end Expression
end AngleCalc
