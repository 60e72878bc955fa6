import AngleCalc.Proofs.Infix.Arguments
import AngleCalc.Proofs.Lexeme.Legible
import AngleCalc.Proofs.Session.Normalisation

/-!
# The text of an expression

The text of an evaluated expression is the texts of its tokens, with parentheses around
each value right after a function. Functions that are called one right after the other
are written as one word. Legible tokens are read from it again with these parentheses.
-/

namespace AngleCalc

open Infix

variable {table : SymbolTable}

namespace Outcome

/-!
## The text of some tokens
-/

def characters (afterFunction : Bool) (tokens : List Token) : List Char :=
  (pieces afterFunction tokens).flatMap (fun piece => piece.1.toList)

theorem toList_expressionText (outcome : Outcome) :
    outcome.expressionText.toList = characters false outcome.tokens := by
  rw [expressionText, String.toList_join, List.flatMap_map]
  rfl

theorem characters_cons (afterFunction : Bool) (token : Token) (rest : List Token) :
    characters afterFunction (token :: rest) =
      (tokenPieces afterFunction token).flatMap (fun piece => piece.1.toList) ++
        characters (token.kind == .function) rest := by
  rw [characters, pieces, List.flatMap_append, characters]

theorem tokenText_of_kind {token : Token} (h : token.kind ≠ .operator) :
    tokenText token = token.text :=
  if_neg (fun hsign => h hsign.left)

theorem characters_value {token : Token} (rest : List Token) (h : token.isValue = true) :
    characters true (token :: rest) =
        '(' :: (token.text.toList ++ ')' :: characters false rest) ∧
      characters false (token :: rest) = token.text.toList ++ characters false rest := by
  have hkind : token.kind ≠ .operator := by
    intro hoperator
    simp [Token.isValue, hoperator] at h
  have hfunction := (operand_of_isValue h).right.right
  rw [characters_cons, characters_cons, hfunction]
  simp [tokenPieces, h, tokenText_of_kind hkind]

theorem characters_other {token : Token} (afterFunction : Bool) (rest : List Token)
    (h : token.isValue = false) :
    characters afterFunction (token :: rest) =
      (tokenText token).toList ++ characters (token.kind == .function) rest := by
  rw [characters_cons]
  simp [tokenPieces, h]

/-!
## What is read from it
-/

section Reading

open Lexeme

theorem exists_symbol {token : Token} (hlegible : token.IsLegible table)
    (hvalue : token.isValue = false) (hfunction : token.kind ≠ .function) :
    exists c, standsAlone c = true ∧ characterToken c = token ∧
      ((tokenText token).toList = [c] ∨ (tokenText token).toList = [' ', c, ' ']) := by
  cases hlegible with
  | number | constant => cases hvalue
  | function => exact absurd rfl hfunction
  | operator operator =>
      refine ⟨operator.symbol, ?_⟩
      cases operator <;> decide +kernel
  | opening => exact ⟨'(', by decide +kernel⟩
  | closing => exact ⟨')', by decide +kernel⟩

theorem visible_append_symbol {token : Token} (hlegible : token.IsLegible table)
    (hvalue : token.isValue = false) (hfunction : token.kind ≠ .function)
    (front rest : List Char) :
    visible table (front ++ ((tokenText token).toList ++ rest)) =
      visible table front ++ token :: visible table rest := by
  rcases exists_symbol hlegible hvalue hfunction with ⟨c, halone, rfl, htext | htext⟩
  · rw [htext, List.singleton_append, visible_append_cons (isBoundary_of_standsAlone halone),
      visible_standsAlone rest halone]
  · have hblank : Text.isBlank ' ' = true := by decide
    rw [htext, List.cons_append, List.cons_append, List.singleton_append,
      visible_append_cons (isBoundary_of_isBlank hblank), visible_blank _ hblank,
      visible_standsAlone _ halone, visible_blank _ hblank]

theorem visible_append_characters {tokens : List Token}
    (hlegible : forall token, token ∈ tokens -> token.IsLegible table)
    (hseparated : Separated true tokens) (front : List Char) :
    visible table (front ++ characters false tokens) =
      visible table front ++ visible table (characters false tokens) := by
  cases tokens with
  | nil =>
      have hnil : characters false [] = [] := rfl
      rw [hnil, List.append_nil, visible_nil, List.append_nil]
  | cons token rest =>
      have hstarts := hseparated.left rfl
      have hfunction : token.kind ≠ .function := by
        intro hkind
        rw [hkind] at hstarts
        cases hstarts
      have hvalue : token.isValue = false := by
        cases hvalue : token.isValue with
        | false => rfl
        | true =>
            rw [(operand_of_isValue hvalue).left] at hstarts
            cases hstarts
      have happend := visible_append_symbol (hlegible token List.mem_cons_self) hvalue hfunction
      have halone := happend [] (characters (token.kind == .function) rest)
      rw [visible_nil, List.nil_append, List.nil_append] at halone
      rw [characters_other false rest hvalue, happend, halone]

theorem visible_characters_value (h : table.AnswerOnly) {token : Token} {rest : List Token}
    (hlegible : forall other, other ∈ token :: rest -> other.IsLegible table)
    (hseparated : Separated true rest) (hvalue : token.isValue = true) :
    visible table (characters false (token :: rest)) =
      token :: visible table (characters false rest) := by
  have hrest : forall other, other ∈ rest -> other.IsLegible table :=
    fun other hother => hlegible other (List.mem_cons_of_mem token hother)
  rw [(characters_value rest hvalue).right, visible_append_characters hrest hseparated,
    visible_value h (hlegible token List.mem_cons_self) hvalue]
  rfl

theorem visible_characters_argument (h : table.AnswerOnly) {token : Token}
    (hlegible : token.IsLegible table) (hvalue : token.isValue = true)
    (functions : List Elementary) (rest : List Token) :
    visible table (Elementary.word functions ++ characters true (token :: rest)) =
      functions.map Elementary.token ++
        .opening :: token :: .closing :: visible table (characters false rest) := by
  have hopen : standsAlone '(' = true := by decide +kernel
  have hclose : standsAlone ')' = true := by decide +kernel
  rw [(characters_value rest hvalue).left, visible_append_cons (isBoundary_of_standsAlone hopen),
    visible_function_word h, visible_standsAlone _ hopen,
    visible_append_cons (isBoundary_of_standsAlone hclose), visible_value h hlegible hvalue,
    visible_standsAlone _ hclose]
  rfl

/-- The text behind some functions without an argument is read as their tokens and the
tokens that it was written for. -/
theorem visible_characters (h : table.AnswerOnly) {tokens : List Token} {afterOperand : Bool}
    (hlegible : forall token, token ∈ tokens -> token.IsLegible table)
    (hseparated : Separated afterOperand tokens) (functions : List Elementary) :
    visible table (Elementary.word functions ++ characters (!functions.isEmpty) tokens) =
      functions.map Elementary.token ++ withGroups (!functions.isEmpty) tokens := by
  -- A function joins the word in front of it, so the functions in front stay arbitrary.
  induction tokens generalizing afterOperand functions with
  | nil =>
      have hnil : characters (!functions.isEmpty) [] = [] := rfl
      rw [hnil, List.append_nil, visible_function_word h, withGroups, List.append_nil]
  | cons token rest ih =>
      have htoken := hlegible token List.mem_cons_self
      have hlegibleRest : forall other, other ∈ rest -> other.IsLegible table :=
        fun other hother => hlegible other (List.mem_cons_of_mem token hother)
      have ih' := ih hlegibleRest hseparated.right
      have hrest : visible table (characters false rest) = withGroups false rest := ih' []
      cases hvalue : token.isValue with
      | true =>
          rcases operand_of_isValue hvalue with ⟨_, hends, hfunction⟩
          cases functions with
          | nil =>
              have hgroups : withGroups false (token :: rest) = token :: withGroups false rest := by
                rw [withGroups_other rest (Bool.false_and _), hfunction]
              have htext := visible_characters_value h hlegible (hends ▸ hseparated.right) hvalue
              rw [hrest, ← hgroups] at htext
              exact htext
          | cons function functions =>
              have hsome : (!(function :: functions).isEmpty) = true := rfl
              rw [hsome, visible_characters_argument h htoken hvalue, hrest,
                withGroups_value rest hvalue]
      | false =>
          have hother : (!functions.isEmpty && token.isValue) = false := by
            rw [hvalue, Bool.and_false]
          rw [characters_other _ rest hvalue, withGroups_other rest hother]
          by_cases hfunction : token.kind = .function
          · rcases htoken.exists_function hfunction with ⟨function, rfl⟩
            have hcalled := ih' (functions ++ [function])
            have hsome : (!(functions ++ [function]).isEmpty) = true := by simp
            have htext : tokenText function.token = function.name :=
              tokenText_of_kind TokenKind.noConfusion
            rw [hsome, Elementary.word_concat, List.map_append, List.append_assoc,
              List.append_assoc] at hcalled
            rw [htext]
            exact hcalled
          · rw [visible_append_symbol htoken hvalue hfunction, visible_function_word h,
              beq_false_of_ne hfunction, hrest]

end Reading

/-!
## Its characters
-/

theorem mem_tokenText {c : Char} {token : Token} (h : c ∈ (tokenText token).toList) :
    c ∈ token.text.toList ∨ c = ' ' := by
  unfold tokenText at h
  split at h
  · rw [String.toList_append, String.toList_append, List.mem_append, List.mem_append] at h
    rcases h with (hspace | htext) | hspace
    · exact .inr (by simpa using hspace)
    · exact .inl htext
    · exact .inr (by simpa using hspace)
  · exact .inl h

theorem mem_tokenPieces {c : Char} {token : Token} {afterFunction : Bool}
    (h : c ∈ (tokenPieces afterFunction token).flatMap (fun piece => piece.1.toList)) :
    c ∈ token.text.toList ∨ c ∈ ['(', ')', ' '] := by
  have htext : c ∈ (tokenText token).toList ∨ c ∈ ['(', ')'] := by
    unfold tokenPieces at h
    split at h
    · have hpieces : c = '(' ∨ c ∈ (tokenText token).toList ∨ c = ')' := by simpa using h
      rcases hpieces with rfl | htext | rfl
      · exact .inr (by decide)
      · exact .inl htext
      · exact .inr (by decide)
    · exact .inl (by simpa using h)
  rcases htext with htext | hparenthesis
  · rcases mem_tokenText htext with hmem | rfl
    · exact .inl hmem
    · exact .inr (by decide)
  · exact .inr (List.mem_append_left [' '] hparenthesis)

theorem mem_characters {c : Char} {tokens : List Token} (afterFunction : Bool)
    (h : c ∈ characters afterFunction tokens) :
    (exists token, token ∈ tokens ∧ c ∈ token.text.toList) ∨ c ∈ ['(', ')', ' '] := by
  induction tokens generalizing afterFunction with
  | nil => cases h
  | cons token rest ih =>
      rw [characters_cons, List.mem_append] at h
      rcases h with hfirst | hrest
      · exact (mem_tokenPieces hfirst).imp_left (fun hc => ⟨token, List.mem_cons_self, hc⟩)
      · rcases ih _ hrest with ⟨other, hother, hc⟩ | hsymbol
        · exact .inl ⟨other, List.mem_cons_of_mem token hother, hc⟩
        · exact .inr hsymbol

theorem all_isSettled_of_isLegible (h : table.AnswerOnly) {token : Token}
    (hlegible : token.IsLegible table) :
    token.text.toList.all Text.isSettled = true := by
  have hnames : forall name, name ∈ SymbolTable.commonNames ->
      name.toList.all Text.isSettled = true := by
    decide +kernel
  cases hlegible with
  | @number x hx =>
      rw [List.all_eq_true]
      intro c hc
      change c ∈ (Decimal.toText x).toList at hc
      rw [Decimal.toList_toText, Spelling.chars, Decimal.negative_canonicalSpelling hx] at hc
      rcases (Decimal.canonicalSpelling x).mem_body hc with hdigit | rfl
      · exact Text.isSettled_of_isDigit hdigit
      · decide +kernel
  | constant hkind => exact hnames _ (h.mem_commonNames hkind)
  | function function => exact hnames _ (h.mem_commonNames (h.kind?_name function))
  | operator operator => cases operator <;> decide +kernel
  | opening | closing => decide +kernel

theorem isSettled_of_mem_characters (h : table.AnswerOnly) {tokens : List Token}
    (hlegible : forall token, token ∈ tokens -> token.IsLegible table) :
    forall c, c ∈ characters false tokens -> Text.isSettled c = true := by
  have hsymbols : ['(', ')', ' '].all Text.isSettled = true := by
    decide +kernel
  intro c hc
  rcases mem_characters false hc with ⟨token, htoken, htext⟩ | hsymbol
  · exact List.all_eq_true.mp (all_isSettled_of_isLegible h (hlegible token htoken)) c htext
  · exact List.all_eq_true.mp hsymbols c hsymbol

end Outcome
end AngleCalc
