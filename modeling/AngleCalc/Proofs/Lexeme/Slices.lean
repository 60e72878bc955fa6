import AngleCalc.Proofs.Lexeme.Boundaries
import AngleCalc.Proofs.Lexeme.Tokens
import AngleCalc.Proofs.Sexagesimal.Components
import AngleCalc.Proofs.Symbols.Splittable

/-!
# The slices of a text

The slices of the lexemes are the text again, none of them is empty, and each token says
what its slice is: the slice itself, a number in canonical form, or the name of square roots
for the root sign. A lexeme is marked if it is a number whose slice has an angle mark.
-/

namespace AngleCalc
namespace Lexeme

variable {table : SymbolTable}

/-- The token that a slice stands for, as far as its text goes. -/
def IsTokenOf (token : Token) (slice : List Char) : Prop :=
  if slice = ['√'] then token = .function Elementary.sqrt.name
  else if token.kind = .number then
    exists value, Sexagesimal.readChars slice = .ok value ∧ token.text = Decimal.toText value
  else token.text = String.ofList slice

def IsMarkedNumber (lexeme : Lexeme) : Prop :=
  lexeme.token.kind = .number ∧ exists c, c ∈ lexeme.slice ∧ Sexagesimal.isMark c = true

/-- A lexeme that takes some of its text, and whose token and mark follow from what it takes. -/
structure IsFaithful (lexeme : Lexeme) : Prop where
  slice_ne_nil : lexeme.slice ≠ []
  kind_ne_finish : lexeme.token.kind ≠ .finish
  isTokenOf : IsTokenOf lexeme.token lexeme.slice
  marked_iff : lexeme.marked = true ↔ lexeme.IsMarkedNumber

theorem ne_root_of_not_mem {slice : List Char} (h : '√' ∉ slice) : slice ≠ ['√'] := by
  rintro rfl
  exact h List.mem_cons_self

theorem isFaithful_of_text {slice : List Char} {token : Token} (hslice : slice ≠ [])
    (hroot : '√' ∉ slice) (hfinish : token.kind ≠ .finish) (hnumber : token.kind ≠ .number)
    (htext : token.text = String.ofList slice) : IsFaithful ⟨slice, token, false⟩ where
  slice_ne_nil := hslice
  kind_ne_finish := hfinish
  isTokenOf := by
    simpa [IsTokenOf, ne_root_of_not_mem hroot, hnumber] using htext
  marked_iff := by simp [IsMarkedNumber, hnumber]

/-!
## Numbers
-/

theorem isMark_of_startsNumber {c : Char} (h : startsNumber c = true) :
    Sexagesimal.isMark c = false := by
  rcases Bool.or_eq_true_iff.mp h with hdigit | hpoint
  · exact Sexagesimal.isMark_of_isDigit hdigit
  · rw [eq_of_beq hpoint]
    decide

theorem marked_read_iff (point : Bool) (cs : List Char) :
    (NumericRun.read point cs).marked = true ↔
      exists c, c ∈ (NumericRun.read point cs).slice ∧ Sexagesimal.isMark c = true := by
  induction cs generalizing point with
  | nil => simp [NumericRun.read]
  | cons c cs ih =>
      unfold NumericRun.read
      split
      · rename_i hdigit
        have hmark := isMark_of_startsNumber (Bool.or_eq_true_iff.mpr (.inl hdigit))
        simp [NumericRun.cons, ih, hmark]
      · split
        · rename_i hpoint
          have hmark : Sexagesimal.isMark c = false := by
            rw [hpoint]
            decide
          simp [NumericRun.cons, ih, hmark]
        · split
          · rename_i hmark
            split
            · simp
            · simp [NumericRun.cons, hmark]
          · simp

theorem slice_ofNumeric (run : NumericRun) : (ofNumeric run).slice = run.slice := by
  unfold ofNumeric
  split
  · rfl
  · split <;> rfl

theorem isFaithful_ofNumeric {run : NumericRun} (hslice : run.slice ≠ []) (hroot : '√' ∉ run.slice)
    (hmarked : run.marked = true ↔ exists c, c ∈ run.slice ∧ Sexagesimal.isMark c = true) :
    IsFaithful (ofNumeric run) := by
  have hfailed : IsFaithful ⟨run.slice, ⟨.error, String.ofList run.slice⟩, false⟩ :=
    isFaithful_of_text hslice hroot TokenKind.noConfusion TokenKind.noConfusion rfl
  simp only [ofNumeric]
  split
  · exact hfailed
  · split
    · rename_i value hvalue
      refine ⟨hslice, TokenKind.noConfusion, ?_, ?_⟩
      · simp only [IsTokenOf, ne_root_of_not_mem hroot, Token.number, if_false, if_true]
        exact ⟨value, hvalue, rfl⟩
      · simpa [IsMarkedNumber, Token.number] using hmarked
    · exact hfailed

theorem isFaithful_number {c : Char} (cs : List Char) (h : startsNumber c = true) :
    IsFaithful (ofNumeric ((NumericRun.read (c == '.') cs).cons c)) := by
  apply isFaithful_ofNumeric
  · exact List.cons_ne_nil _ _
  · intro hmem
    rcases List.mem_cons.mp hmem with rfl | hrest
    · exact absurd h (by decide)
    · exact absurd standsAlone_root
        (Bool.eq_false_iff.mp (not_standsAlone_of_mem_slice _ _ hrest))
  · simp [NumericRun.cons, isMark_of_startsNumber h, marked_read_iff]

/-!
## Words and characters
-/

theorem flatMap_slice_ofWord (word : List Char) :
    (ofWord table word).flatMap Lexeme.slice = word := by
  simp only [ofWord]
  split
  · exact List.append_nil word
  · split
    · rename_i piece pieces hsplit
      rw [List.flatMap_map]
      exact SymbolTable.spelled_splitWord? word hsplit
    · exact List.append_nil word

theorem isFaithful_ofWord {lexeme : Lexeme} {word : List Char} (hword : word ≠ [])
    (hroot : '√' ∉ word) (h : lexeme ∈ ofWord table word) : IsFaithful lexeme := by
  have hslice : '√' ∉ lexeme.slice := by
    intro hmem
    apply hroot
    have hspelled : (ofWord table word).flatMap Lexeme.slice = word := flatMap_slice_ofWord word
    rw [← hspelled]
    exact List.mem_flatMap.mpr ⟨lexeme, h, hmem⟩
  simp only [ofWord] at h
  split at h
  · rename_i kind hkind
    rw [List.mem_singleton.mp h] at hslice ⊢
    rcases SymbolTable.kind?_eq_some hkind with rfl | rfl <;>
      exact isFaithful_of_text hword hslice TokenKind.noConfusion TokenKind.noConfusion rfl
  · split at h
    · rename_i piece pieces hsplit
      rcases List.mem_map.mp h with ⟨token, htoken, rfl⟩
      rcases List.append_of_mem htoken with ⟨front, back, hpieces⟩
      have hpiece := SymbolTable.isLongestPiece_of_splitWord? hsplit front token back hpieces
      refine isFaithful_of_text hpiece.ne_nil hslice ?_ ?_ String.ofList_toList.symm <;>
        rcases SymbolTable.kind?_eq_some hpiece.kind_eq with hkind | hkind <;> rw [hkind] <;>
        exact TokenKind.noConfusion
    · rw [List.mem_singleton.mp h] at hslice ⊢
      exact isFaithful_of_text hword hslice TokenKind.noConfusion TokenKind.noConfusion rfl

theorem isFaithful_character (c : Char) : IsFaithful ⟨[c], characterToken c, false⟩ := by
  by_cases hroot : c = '√'
  · subst hroot
    refine ⟨List.cons_ne_nil _ _, TokenKind.noConfusion, rfl, ?_⟩
    simp [IsMarkedNumber, characterToken, Token.function]
  · have hne : '√' ∉ [c] := fun hmem => hroot (List.mem_singleton.mp hmem).symm
    have hcons : [c] ≠ [] := List.cons_ne_nil _ _
    simp only [characterToken, if_neg hroot]
    split
    · rename_i hopen
      subst hopen
      exact isFaithful_of_text hcons hne TokenKind.noConfusion TokenKind.noConfusion rfl
    · split
      · rename_i hclose
        subst hclose
        exact isFaithful_of_text hcons hne TokenKind.noConfusion TokenKind.noConfusion rfl
      · split <;>
          exact isFaithful_of_text hcons hne TokenKind.noConfusion TokenKind.noConfusion
            String.singleton_eq_ofList

/-!
## The text
-/

theorem flatMap_slice_head (table : SymbolTable) (c : Char) (cs : List Char) :
    (head table c cs).1.flatMap Lexeme.slice ++ (head table c cs).2 = c :: cs := by
  unfold head
  split
  · simp only [List.flatMap_singleton, slice_ofNumeric]
    exact congrArg (c :: ·) (NumericRun.slice_append_rest (c == '.') cs)
  · split
    · rw [flatMap_slice_ofWord, List.cons_append, List.takeWhile_append_dropWhile]
    · split
      · simp only [List.flatMap_singleton, List.cons_append, List.takeWhile_append_dropWhile]
      · rfl

theorem isFaithful_of_mem_head {lexeme : Lexeme} {c : Char} {cs : List Char}
    (h : lexeme ∈ (head table c cs).1) : IsFaithful lexeme := by
  rcases standsAlone_eq_true.mp standsAlone_root with ⟨_, _, halphabetic, hblank⟩
  -- The root sign is neither a letter nor white space.
  have hroot : forall p : Char -> Bool, p '√' = false -> p c = true ->
      '√' ∉ c :: cs.takeWhile p := by
    intro p hp hc hmem
    rw [of_mem_cons_takeWhile hc hmem] at hp
    cases hp
  unfold head at h
  split at h
  · rename_i hnumber
    rw [List.mem_singleton.mp h]
    exact isFaithful_number cs hnumber
  · split at h
    · rename_i hletter
      exact isFaithful_ofWord (List.cons_ne_nil _ _) (hroot _ halphabetic hletter) h
    · split at h
      · rename_i hspace
        rw [List.mem_singleton.mp h]
        exact isFaithful_of_text (List.cons_ne_nil _ _) (hroot _ hblank hspace)
          TokenKind.noConfusion TokenKind.noConfusion rfl
      · rw [List.mem_singleton.mp h]
        exact isFaithful_character c

theorem flatMap_slice_scan (table : SymbolTable) (text : List Char) :
    (scan table text).flatMap Lexeme.slice = text := by
  induction text using scan.induct table with
  | case1 => rw [scan, List.flatMap_nil]
  | case2 c cs ih => rw [scan, List.flatMap_append, ih, flatMap_slice_head]

theorem isFaithful_of_mem_scan {lexeme : Lexeme} {text : List Char} (h : lexeme ∈ scan table text) :
    IsFaithful lexeme := by
  rcases exists_head_of_mem_scan text h with ⟨c, cs, _, hlexeme⟩
  exact isFaithful_of_mem_head hlexeme

theorem marked_of_mem_tail_head {lexeme : Lexeme} {c : Char} {cs : List Char}
    (h : lexeme ∈ (head table c cs).1.tail) : lexeme.marked = false := by
  have hfaithful := isFaithful_of_mem_head (List.mem_of_mem_tail h)
  have hkind : lexeme.token.kind ≠ .number := by
    unfold head at h
    split at h
    · cases h
    · split at h
      · rcases kind_ofWord (List.mem_of_mem_tail h) with hkind | hkind | hkind <;> rw [hkind] <;>
          exact TokenKind.noConfusion
      · split at h
        · cases h
        · cases h
  rw [← Bool.not_eq_true, hfaithful.marked_iff]
  exact fun hmarked => hkind hmarked.left

end Lexeme
end AngleCalc
