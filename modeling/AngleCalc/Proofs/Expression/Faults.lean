import AngleCalc.Proofs.Expression.Reading
import AngleCalc.Proofs.Lexeme.Faults

/-!
# Texts that cannot be read

A text is refused for the first of its slices that is at fault, and for nothing else. The failure
names the whole slice: a word that is not made of known names, a number that cannot be read, or a
character that starts nothing.
-/

namespace AngleCalc
namespace Expression

open Infix Lexeme

variable {table : SymbolTable} {text : String} {failure : Failure}

theorem read_eq_error_iff :
    read table text = .error failure ↔
      exists front lexeme back, scan table text.toList = front ++ lexeme :: back ∧
        (forall earlier, earlier ∈ front -> earlier.token.kind ≠ .error) ∧
        lexeme.token.kind = .error ∧ failureOf lexeme.token.text = failure := by
  rw [read, ofTokens, Lexeme.tokens, exceptMap_eq_error,
    significant_eq_error_iff (fun _ => kind_ne_finish_of_scanned)]
  constructor
  · rintro ⟨front, token, back, hmap, hearlier, herror⟩
    rcases List.map_eq_append_iff.mp hmap with ⟨first, others, hscan, rfl, hothers⟩
    rcases List.map_eq_cons_iff.mp hothers with ⟨lexeme, rest, rfl, rfl, _⟩
    exact ⟨first, lexeme, rest, hscan,
      fun earlier hmem => hearlier earlier.token (List.mem_map_of_mem hmem), herror⟩
  · rintro ⟨front, lexeme, back, hscan, hearlier, herror⟩
    refine ⟨front.map Lexeme.token, lexeme.token, back.map Lexeme.token, ?_, ?_, herror⟩
    · rw [hscan, List.map_append, List.map_cons]
    · intro token hmem
      rcases List.mem_map.mp hmem with ⟨earlier, hearlier', rfl⟩
      exact hearlier earlier hearlier'

/-- A text is refused if and only if some token of it is an error. Next to come in a text is an
error if and only if a fault comes next, of which the error takes the whole slice and from whose
text the failure is read off. The text is refused for the first fault, and so only for a word, a
number or a character. -/
theorem read_fails_at_first_fault (table : SymbolTable) (text : String) :
    ((exists failure, read table text = .error failure) ↔
      exists lexeme, lexeme ∈ scan table text.toList ∧ lexeme.token.kind = .error) ∧
    (forall front rest slice after failure, scan table text.toList = front ++ rest ->
      rest.flatMap Lexeme.slice = slice ++ after ->
      (IsFault table (front.flatMap Lexeme.slice) slice after failure ↔
        exists lexeme back, rest = lexeme :: back ∧ lexeme.slice = slice ∧
          lexeme.token.kind = .error ∧ failureOf lexeme.token.text = failure)) ∧
    (forall failure, read table text = .error failure ↔
      exists front lexeme back, scan table text.toList = front ++ lexeme :: back ∧
        (forall earlier, earlier ∈ front -> earlier.token.kind ≠ .error) ∧
        IsFault table (front.flatMap Lexeme.slice) lexeme.slice (back.flatMap Lexeme.slice)
          failure) ∧
    forall failure, read table text = .error failure ->
      failure ≠ .illFormed ∧ failure ≠ .divisionByZero ∧
        forall call, failure ≠ .undefinedCall call := by
  have hfirst : forall failure, read table text = .error failure ↔
      exists front lexeme back, scan table text.toList = front ++ lexeme :: back ∧
        (forall earlier, earlier ∈ front -> earlier.token.kind ≠ .error) ∧
        IsFault table (front.flatMap Lexeme.slice) lexeme.slice (back.flatMap Lexeme.slice)
          failure := by
    intro failure
    rw [read_eq_error_iff]
    constructor
    · rintro ⟨front, lexeme, back, hscan, hearlier, herror⟩
      refine ⟨front, lexeme, back, hscan, hearlier, ?_⟩
      exact (isFault_iff_of_scan hscan rfl failure).mpr ⟨lexeme, back, rfl, rfl, herror⟩
    · rintro ⟨front, lexeme, back, hscan, hearlier, hfault⟩
      rcases (isFault_iff_of_scan hscan rfl failure).mp hfault with ⟨_, _, hcons, _, herror⟩
      cases hcons
      exact ⟨front, lexeme, back, hscan, hearlier, herror⟩
  refine ⟨⟨?_, ?_⟩, ?_, hfirst, ?_⟩
  · rintro ⟨failure, hread⟩
    rcases read_eq_error_iff.mp hread with ⟨front, lexeme, back, hscan, _, herror, _⟩
    exact ⟨lexeme, hscan ▸ List.mem_append_right front List.mem_cons_self, herror⟩
  · rintro ⟨lexeme, hmem, herror⟩
    cases hread : read table text with
    | error failure => exact ⟨failure, rfl⟩
    | ok tokens =>
        have hvisible : lexeme.token ∈ visible table text.toList :=
          mem_visible.mpr ⟨List.mem_map_of_mem hmem, by rw [herror]; exact TokenKind.noConfusion⟩
        exact absurd herror ((read_eq_ok_iff.mp hread).left _ hvisible)
  · intro front rest slice after failure hscan hrest
    exact isFault_iff_of_scan hscan hrest failure
  · intro failure hread
    rcases (hfirst failure).mp hread with ⟨_, _, _, _, _, hfault⟩
    rcases hfault.failure_eq with rfl | rfl | ⟨c, rfl⟩ <;>
      exact ⟨Failure.noConfusion, Failure.noConfusion, fun _ => Failure.noConfusion⟩

/-- Of three faults the first one counts. -/
example : read (SymbolTable.empty.add "ab" 1) "2abx 1.2.3 #" = .error (.unknownName "abx") := by
  decide +kernel

end Expression
end AngleCalc
