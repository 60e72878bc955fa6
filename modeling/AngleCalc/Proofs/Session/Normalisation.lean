import AngleCalc.Proofs.Lexeme.Boundaries
import AngleCalc.Session.Basic

/-!
# Texts that need no normalisation

A character is settled if it is no comma and its own lower case in every context. A
text of settled characters is evaluated as it is, up to white space at its ends.
-/

namespace AngleCalc

namespace Text

def isSettled (c : Char) : Bool :=
  c != 'Σ' && c != ',' && lowercaseChar c == [c]

theorem isSettled_eq_true {c : Char} :
    isSettled c = true ↔ c ≠ 'Σ' ∧ c ≠ ',' ∧ lowercaseChar c = [c] := by
  simp [isSettled, and_assoc]

theorem isSettled_of_isDigit {c : Char} (h : c.isDigit = true) : isSettled c = true :=
  eq_of_isDigit (by decide +kernel) h

theorem lowercaseFrom_of_isSettled {cs : List Char} (before : List Char)
    (h : forall c, c ∈ cs -> isSettled c = true) : lowercaseFrom before cs = cs := by
  induction cs generalizing before with
  | nil => rfl
  | cons c cs ih =>
      rcases isSettled_eq_true.mp (h c List.mem_cons_self) with ⟨hsigma, _, hlower⟩
      rw [lowercaseFrom, if_neg hsigma, hlower,
        ih (c :: before) (fun d hd => h d (List.mem_cons_of_mem c hd))]
      rfl

theorem mem_of_mem_trim {c : Char} {cs : List Char} (h : c ∈ trim cs) : c ∈ cs := by
  rw [trim, List.mem_reverse] at h
  have hdropped := (List.dropWhile_sublist isBlank).subset h
  exact (List.dropWhile_sublist isBlank).subset (List.mem_reverse.mp hdropped)

end Text

namespace Session

theorem toList_normalise {text : String}
    (h : forall c, c ∈ text.toList -> Text.isSettled c = true) :
    (normalise text).toList = Text.trim text.toList := by
  have htrim : forall c, c ∈ Text.trim text.toList -> Text.isSettled c = true :=
    fun c hc => h c (Text.mem_of_mem_trim hc)
  have hcommas : forall c, c ∈ Text.trim text.toList -> (if c = ',' then '.' else c) = c :=
    fun c hc => if_neg (Text.isSettled_eq_true.mp (htrim c hc)).right.left
  rw [normalise, String.toList_ofList, Text.lowercase, Text.lowercaseFrom_of_isSettled [] htrim,
    List.map_congr_left hcommas, List.map_id']

theorem visible_normalise {table : SymbolTable} {text : String}
    (h : forall c, c ∈ text.toList -> Text.isSettled c = true) :
    Lexeme.visible table (normalise text).toList = Lexeme.visible table text.toList := by
  rw [toList_normalise h, Lexeme.visible_trim]

end Session
end AngleCalc
