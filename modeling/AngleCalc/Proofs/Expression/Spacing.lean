import AngleCalc.Proofs.Expression.Reading
import AngleCalc.Proofs.Lexeme.Cuts
import AngleCalc.Proofs.Lexeme.Scanning

/-!
# White space in an expression

White space may be put between any two slices of a text, also between two names that are written
together. The tokens stay the same, and so does the value. Only a single angle mark right behind
a number must not be separated from the letter that follows it, since the letter keeps the mark
out of the number.
-/

namespace AngleCalc

namespace Lexeme

variable {table : SymbolTable} {front back : List Lexeme} {blanks : List Char}

theorem hasMarks_eq_any_solid (table : SymbolTable) (text : String) :
    hasMarks table text = (solid table text.toList).any Lexeme.marked := by
  rw [hasMarks, solid, List.any_filter, Bool.eq_iff_iff, List.any_eq_true, List.any_eq_true]
  constructor
  · rintro ⟨lexeme, hlexeme, hmarked⟩
    have hnumber := ((isFaithful_of_mem_scan hlexeme).marked_iff.mp hmarked).left
    exact ⟨lexeme, hlexeme, by simp [hnumber, hmarked]⟩
  · rintro ⟨lexeme, hlexeme, hboth⟩
    exact ⟨lexeme, hlexeme, (Bool.and_eq_true_iff.mp hboth).right⟩

theorem solid_spaced {text : List Char} (hscan : scan table text = front ++ back)
    (hmark : ¬ EndsInLooseMark front)
    (hblanks : forall c, c ∈ blanks -> Text.isBlank c = true) :
    solid table (front.flatMap Lexeme.slice ++ blanks ++ back.flatMap Lexeme.slice) =
      solid table text := by
  rcases scan_cut text hscan with ⟨hfront, hback⟩
  cases blanks with
  | nil =>
      rw [List.append_nil, ← List.flatMap_append, ← hscan, flatMap_slice_scan]
  | cons c blanks =>
      have hdrop : solid table (c :: blanks ++ back.flatMap Lexeme.slice) =
          solid table (back.flatMap Lexeme.slice) := by
        rw [← solid_dropWhile_isBlank, List.dropWhile_append_of_pos hblanks,
          solid_dropWhile_isBlank]
      have hboundary := isBoundary_of_isBlank (hblanks c List.mem_cons_self)
      rw [List.append_assoc, List.cons_append, solid_append_cons hboundary, ← List.cons_append,
        hdrop, solid, solid, solid, hfront hmark, hback, hscan, List.filter_append]

end Lexeme

namespace Expression

open Lexeme Scanner

/-- White space that is put between two slices of a text does not matter, unless it separates a
single angle mark behind a number from what follows: a scanner hands out the same tokens besides
white space, it has seen an angle or not as before, and the value or the failure is the same. -/
theorem evaluate_spaced {table : SymbolTable} {text : String} {front back : List Lexeme}
    {blanks : List Char} (hscan : scan table text.toList = front ++ back)
    (hmark : ¬ EndsInLooseMark front)
    (hblanks : forall c, c ∈ blanks -> Text.isBlank c = true) :
    let spaced := String.ofList
      (front.flatMap Lexeme.slice ++ blanks ++ back.flatMap Lexeme.slice)
    front.flatMap Lexeme.slice ++ back.flatMap Lexeme.slice = text.toList ∧
      (readAll table spaced).1.filter (fun token => token.kind != .whitespace) =
        (readAll table text).1.filter (fun token => token.kind != .whitespace) ∧
      (readAll table spaced).2.sawAngle = (readAll table text).2.sawAngle ∧
      evaluate table spaced = evaluate table text := by
  intro spaced
  have hsolid : solid table spaced.toList = solid table text.toList := by
    rw [String.toList_ofList]
    exact solid_spaced hscan hmark hblanks
  have hvisible : visible table spaced.toList = visible table text.toList := by
    rw [visible_eq_map, hsolid, visible_eq_map]
  rcases readAll_eq table text with ⟨htokens, hseen, _⟩
  rcases readAll_eq table spaced with ⟨htokens', hseen', _⟩
  refine ⟨?_, ?_, ?_, ?_⟩
  · rw [← List.flatMap_append, ← hscan, flatMap_slice_scan]
  · rw [htokens, htokens', Lexeme.tokens, Lexeme.tokens, List.filter_append, List.filter_append]
    exact congrArg (· ++ _) hvisible
  · rw [hseen, hseen', hasMarks_eq_any_solid, hsolid, hasMarks_eq_any_solid]
  · rw [evaluate, read_eq_ofTokens_visible, hvisible, ← read_eq_ofTokens_visible, evaluate]

/-- A number, a name that starts with an angle mark, a function and an angle, written together.
White space between the two names changes nothing. -/
theorem evaluate_spaced_names :
    let table := (SymbolTable.empty.add "d" 2).add "dx" 3
    let front : List Lexeme := [⟨['5'], .number "5", false⟩, ⟨['d', 'x'], .constant "dx", false⟩]
    let back : List Lexeme :=
      [⟨['a', 'b', 's'], .function "abs", false⟩, ⟨['9', 's'], .number "0.0025", true⟩]
    scan table "5dxabs9s".toList = front ++ back ∧ ¬ EndsInLooseMark front ∧
      (readAll table "5dx \tabs9s").2.sawAngle = (readAll table "5dxabs9s").2.sawAngle ∧
      evaluate table "5dx \tabs9s" = .ok (3 / 80) := by
  intro table front back
  have hscan : scan table "5dxabs9s".toList = front ++ back := by decide +kernel
  have hmark : ¬ EndsInLooseMark front := by
    rintro ⟨before, numeric, mark, c, hfront, _, hslice, _⟩
    have hlast := congrArg List.getLast? hfront
    rw [List.getLast?_append] at hlast
    cases hlast
    cases hslice
  have hblanks : forall c, c ∈ [' ', '\t'] -> Text.isBlank c = true :=
    List.all_eq_true.mp (by decide)
  have htext : String.ofList (front.flatMap Lexeme.slice ++ [' ', '\t'] ++
      back.flatMap Lexeme.slice) = "5dx \tabs9s" := rfl
  rcases evaluate_spaced hscan hmark hblanks with ⟨_, _, hseen, hvalue⟩
  rw [htext] at hseen hvalue
  exact ⟨hscan, hmark, hseen, hvalue.trans (by decide +kernel)⟩

/-- Behind an angle mark that is kept out of a number white space would put it in. -/
example :
    let table := (SymbolTable.empty.add "d" 2).add "x" 3
    evaluate table "5dx" = .ok 30 ∧ evaluate table "5d x" = .ok 15 := by
  decide +kernel

end Expression
end AngleCalc
