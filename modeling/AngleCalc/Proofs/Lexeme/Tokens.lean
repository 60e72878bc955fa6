import AngleCalc.Lexeme
import AngleCalc.Proofs.Decimal.Spelling
import AngleCalc.Proofs.Symbols.Resolution

/-!
# The tokens of a text

A lexeme starts at some place of its text. Numbers, words and white space take what
belongs to them and leave every other character to the rest of the text, where it
stands for itself. The token of a lexeme has a meaning under the symbol table that
it was read with; the root sign alone stands for a name without a look at the table.
-/

namespace AngleCalc
namespace Lexeme

variable {table : SymbolTable}

/-!
## The place of a lexeme
-/

theorem of_mem_cons_takeWhile {p : Char -> Bool} {c d : Char} {cs : List Char}
    (hc : p c = true) (hd : d ∈ c :: cs.takeWhile p) : p d = true := by
  rcases List.mem_cons.mp hd with rfl | hrest
  · exact hc
  · exact List.mem_takeWhile_imp hrest

theorem head_suffix (table : SymbolTable) (c : Char) (cs : List Char) :
    (head table c cs).2 <:+ cs := by
  unfold head
  split
  · exact ⟨_, NumericRun.slice_append_rest (c == '.') cs⟩
  · split
    · exact List.dropWhile_suffix _
    · split
      · exact List.dropWhile_suffix _
      · exact List.suffix_refl cs

theorem exists_head_of_mem_scan {lexeme : Lexeme} (text : List Char)
    (h : lexeme ∈ scan table text) : exists c cs,
      c :: cs <:+ text ∧ lexeme ∈ (head table c cs).1 := by
  match text with
  | [] =>
      rw [scan] at h
      cases h
  | c :: cs =>
      rw [scan] at h
      rcases List.mem_append.mp h with hhead | hrest
      · exact ⟨c, cs, List.suffix_refl _, hhead⟩
      · have hsuffix := head_suffix table c cs
        have hle := hsuffix.length_le
        rcases exists_head_of_mem_scan (head table c cs).2 hrest with ⟨d, ds, hd, hlexeme⟩
        exact ⟨d, ds, (hd.trans hsuffix).trans (List.suffix_cons c cs), hlexeme⟩
termination_by text.length
decreasing_by
  simp only [List.length_cons]
  omega

/-- What a lexeme is: a number, a name of a run of letters, white space, or a single
character. -/
theorem mem_scan_cases {lexeme : Lexeme} {text : List Char} (h : lexeme ∈ scan table text) :
    (exists c cs, startsNumber c = true ∧
        lexeme = ofNumeric ((NumericRun.read (c == '.') cs).cons c)) ∨
      (exists word, (forall c, c ∈ word -> Text.isAlphabetic c = true) ∧
        lexeme ∈ ofWord table word) ∨
      lexeme.token.kind = .whitespace ∨
      exists c, c ∈ text ∧ lexeme.token = characterToken c := by
  rcases exists_head_of_mem_scan text h with ⟨c, cs, hsuffix, hlexeme⟩
  unfold head at hlexeme
  split at hlexeme
  · rename_i hnumber
    exact .inl ⟨c, cs, hnumber, List.mem_singleton.mp hlexeme⟩
  · split at hlexeme
    · rename_i halphabetic
      refine .inr (.inl ⟨_, ?_, hlexeme⟩)
      intro d hd
      exact of_mem_cons_takeWhile halphabetic hd
    · split at hlexeme
      · rw [List.mem_singleton.mp hlexeme]
        exact .inr (.inr (.inl rfl))
      · rw [List.mem_singleton.mp hlexeme]
        exact .inr (.inr (.inr ⟨c, hsuffix.subset List.mem_cons_self, rfl⟩))

/-!
## Characters that stand for themselves
-/

def standsAlone (c : Char) : Bool :=
  !startsNumber c && !Sexagesimal.isMark c && !Text.isAlphabetic c && !Text.isBlank c

theorem standsAlone_eq_true {c : Char} : standsAlone c = true ↔
    startsNumber c = false ∧ Sexagesimal.isMark c = false ∧
      Text.isAlphabetic c = false ∧ Text.isBlank c = false := by
  simp [standsAlone, and_assoc]

theorem head_of_standsAlone {c : Char} (cs : List Char) (h : standsAlone c = true) :
    head table c cs = ([⟨[c], characterToken c, false⟩], cs) := by
  rcases standsAlone_eq_true.mp h with ⟨hnumber, _, halphabetic, hblank⟩
  simp [head, hnumber, halphabetic, hblank]

theorem not_standsAlone_of_mem_slice {c : Char} (point : Bool) (cs : List Char)
    (h : c ∈ (NumericRun.read point cs).slice) : standsAlone c = false := by
  induction cs generalizing point with
  | nil => cases h
  | cons d rest ih =>
      unfold NumericRun.read at h
      split at h
      · rename_i hdigit
        rcases List.mem_cons.mp h with rfl | hrest
        · simp [standsAlone, startsNumber, hdigit]
        · exact ih point hrest
      · split at h
        · rename_i hpoint
          rcases List.mem_cons.mp h with rfl | hrest
          · simp [standsAlone, startsNumber, hpoint]
          · exact ih true hrest
        · split at h
          · rename_i hmark
            split at h
            · cases h
            · rcases List.mem_cons.mp h with rfl | hrest
              · simp [standsAlone, hmark]
              · exact ih false hrest
          · cases h

theorem mem_dropWhile_of_not {p : Char -> Bool} {c : Char} {cs : List Char}
    (hc : p c = false) (h : c ∈ cs) : c ∈ cs.dropWhile p := by
  rw [← List.takeWhile_append_dropWhile (p := p) (l := cs), List.mem_append] at h
  rcases h with htake | hdrop
  · rw [List.mem_takeWhile_imp htake] at hc
    cases hc
  · exact hdrop

theorem mem_head_rest {c : Char} {cs : List Char} (hc : standsAlone c = true) (d : Char)
    (h : c ∈ cs) : c ∈ (head table d cs).2 := by
  rcases standsAlone_eq_true.mp hc with ⟨_, _, halphabetic, hblank⟩
  unfold head
  split
  · rw [← NumericRun.slice_append_rest (d == '.') cs, List.mem_append] at h
    rcases h with hslice | hrest
    · rw [not_standsAlone_of_mem_slice _ _ hslice] at hc
      cases hc
    · exact hrest
  · split
    · exact mem_dropWhile_of_not halphabetic h
    · split
      · exact mem_dropWhile_of_not hblank h
      · exact h

theorem characterToken_mem_scan {c : Char} (hc : standsAlone c = true) (text : List Char)
    (h : c ∈ text) : characterToken c ∈ (scan table text).map Lexeme.token := by
  match text with
  | [] => cases h
  | d :: ds =>
      have hle := length_head_le table d ds
      rw [scan, List.map_append, List.mem_append]
      -- What a lexeme in front takes does not contain `c`.
      rcases List.mem_cons.mp h with rfl | htail
      · rw [head_of_standsAlone ds hc]
        simp
      · exact .inr (characterToken_mem_scan hc _ (mem_head_rest hc d htail))
termination_by text.length
decreasing_by
  simp only [List.length_cons]
  omega

/-!
## The meaning of a token
-/

def IsMeaningful (table : SymbolTable) (token : Token) : Prop :=
  token.kind ≠ .finish ∧ token.Resolves table

theorem isMeaningful_ofNumeric (run : NumericRun) :
    IsMeaningful table (ofNumeric run).token := by
  unfold ofNumeric
  split
  · exact ⟨by simp, trivial⟩
  · split
    · rename_i value _
      exact ⟨by simp [Token.number], _, Decimal.parse_toText value⟩
    · exact ⟨by simp, trivial⟩

theorem isMeaningful_of_kind? {name : String} {kind : TokenKind}
    (h : table.kind? name = some kind) : IsMeaningful table ⟨kind, name⟩ := by
  constructor
  · rcases SymbolTable.kind?_eq_some h with rfl | rfl <;> simp
  · exact SymbolTable.resolves_of_kind? h

theorem isMeaningful_ofWord {lexeme : Lexeme} {word : List Char}
    (h : lexeme ∈ ofWord table word) : IsMeaningful table lexeme.token := by
  simp only [ofWord] at h
  split at h
  · rename_i kind hkind
    rw [List.mem_singleton.mp h]
    exact isMeaningful_of_kind? hkind
  · split at h
    · rename_i piece pieces hsplit
      rcases List.mem_map.mp h with ⟨token, htoken, rfl⟩
      exact isMeaningful_of_kind? (SymbolTable.areNames_splitWord? hsplit token htoken)
    · rw [List.mem_singleton.mp h]
      exact ⟨by simp, trivial⟩

theorem isMeaningful_operator {c : Char} (h : Operator.isSymbol c = true) :
    IsMeaningful table (.operator (String.singleton c)) := by
  constructor
  · simp [Token.operator]
  · rcases List.any_eq_true.mp h with ⟨operator, hmem, hsymbol⟩
    have hfound : (Operator.all.find?
        (fun other => String.singleton other.symbol == String.singleton c)).isSome = true := by
      rw [List.find?_isSome]
      exact ⟨operator, hmem, by simp [eq_of_beq hsymbol]⟩
    exact Option.isSome_iff_exists.mp hfound

theorem isMeaningful_characterToken {c : Char} (h : c ≠ '√') :
    IsMeaningful table (characterToken c) := by
  rw [characterToken, if_neg h]
  split
  · exact ⟨by simp, trivial⟩
  · split
    · exact ⟨by simp, trivial⟩
    · split
      · rename_i hsymbol
        exact isMeaningful_operator hsymbol
      · exact ⟨by simp, trivial⟩

theorem standsAlone_root : standsAlone '√' = true := by
  decide +kernel

/-- Every token of a text is meaningful, or it is the root sign. -/
theorem isMeaningful_of_mem_scan {lexeme : Lexeme} {text : List Char}
    (h : lexeme ∈ scan table text) :
    IsMeaningful table lexeme.token ∨
      ('√' ∈ text ∧ lexeme.token = .function Elementary.sqrt.name) := by
  rcases mem_scan_cases h with ⟨c, cs, _, rfl⟩ | ⟨word, _, hword⟩ | hblank | ⟨c, hc, htoken⟩
  · exact .inl (isMeaningful_ofNumeric _)
  · exact .inl (isMeaningful_ofWord hword)
  · left
    simp [IsMeaningful, Token.Resolves, hblank]
  · rw [htoken]
    by_cases hroot : c = '√'
    · subst hroot
      exact .inr ⟨hc, rfl⟩
    · exact .inl (isMeaningful_characterToken hroot)

end Lexeme
end AngleCalc
