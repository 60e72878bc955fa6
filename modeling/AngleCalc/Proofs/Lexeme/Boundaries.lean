import Mathlib.Data.List.TakeWhile
import AngleCalc.Lexeme
import AngleCalc.Proofs.Symbols.Resolution

/-!
# Texts that are joined

A boundary is a character that continues no number, no word and no angle mark. In
front of it a text is cut into the same tokens as if it ended there, so the tokens of
a text can be found part by part. White space is a boundary on both of its sides.
-/

namespace AngleCalc

namespace Text

def Ranges.points (ranges : Ranges) : List Nat :=
  ranges.flatMap (fun range => List.range' range.1 (range.2 + 1 - range.1))

theorem Ranges.mem_points_of_covers {n : Nat} {ranges : Ranges}
    (h : Ranges.covers n ranges = true) : n ∈ ranges.points := by
  induction ranges with
  | nil => cases h
  | cons range rest ih =>
      simp only [Ranges.covers, Bool.and_eq_true, Bool.or_eq_true, decide_eq_true_eq] at h
      rcases h with ⟨hlow, hhigh | hrest⟩
      · exact List.mem_append_left _ (List.mem_range'_1.mpr ⟨hlow, by omega⟩)
      · exact List.mem_append_right _ (ih hrest)

theorem eq_of_isDigit {p : Char -> Bool} {value : Bool}
    (hall : forall n, n ∈ List.range' 48 10 -> p (Char.ofNat n) = value) {c : Char}
    (h : c.isDigit = true) : p c = value := by
  have hbounds : 48 ≤ c.toNat ∧ c.toNat ≤ 57 := by
    simpa [Char.isDigit, UInt32.le_iff_toNat_le] using h
  have hc := hall c.toNat (List.mem_range'_1.mpr ⟨hbounds.left, by omega⟩)
  rwa [Char.ofNat_toNat] at hc

theorem isAlphabetic_of_isDigit {c : Char} (h : c.isDigit = true) : isAlphabetic c = false :=
  eq_of_isDigit (by decide +kernel) h

end Text

namespace Lexeme

theorem startsNumber_of_isAlphabetic {c : Char} (h : Text.isAlphabetic c = true) :
    startsNumber c = false := by
  cases hstarts : startsNumber c with
  | false => rfl
  | true =>
      rcases Bool.or_eq_true_iff.mp hstarts with hdigit | hpoint
      · rw [Text.isAlphabetic_of_isDigit hdigit] at h
        cases h
      · have halphabetic : Text.isAlphabetic '.' = false := by decide +kernel
        rw [eq_of_beq hpoint, halphabetic] at h
        cases h

/-- Whether a character continues no number, no word and no angle mark. -/
def isBoundary (c : Char) : Bool :=
  !startsNumber c && !Sexagesimal.isMark c && !Text.isAlphabetic c

theorem isBoundary_eq_true {c : Char} : isBoundary c = true ↔
    startsNumber c = false ∧ Sexagesimal.isMark c = false ∧ Text.isAlphabetic c = false := by
  simp [isBoundary, and_assoc]

theorem isBoundary_of_isBlank {c : Char} (h : Text.isBlank c = true) : isBoundary c = true := by
  have hall : forall n, n ∈ Text.blankRanges.points -> isBoundary (Char.ofNat n) = true := by
    decide +kernel
  have hc := hall c.toNat (Text.Ranges.mem_points_of_covers h)
  rwa [Char.ofNat_toNat] at hc

variable {table : SymbolTable}

/-!
## The lexemes at one place
-/

theorem head_number {c : Char} (h : startsNumber c = true) (cs : List Char) :
    head table c cs =
      ([ofNumeric ((NumericRun.read (c == '.') cs).cons c)],
        (NumericRun.read (c == '.') cs).rest) := by
  rw [head, if_pos h]
  rfl

theorem head_letter {c : Char} (h : Text.isAlphabetic c = true) (cs : List Char) :
    head table c cs =
      (ofWord table (c :: cs.takeWhile Text.isAlphabetic), cs.dropWhile Text.isAlphabetic) := by
  rw [head, if_neg (by simp [startsNumber_of_isAlphabetic h]), if_pos h]

theorem head_blank {c : Char} (h : Text.isBlank c = true) (cs : List Char) :
    head table c cs =
      ([⟨c :: cs.takeWhile Text.isBlank,
          ⟨.whitespace, String.ofList (c :: cs.takeWhile Text.isBlank)⟩, false⟩],
        cs.dropWhile Text.isBlank) := by
  rcases isBoundary_eq_true.mp (isBoundary_of_isBlank h) with ⟨hstarts, _, halphabetic⟩
  simp [head, hstarts, halphabetic, h]

theorem head_character {c : Char} (hnumber : startsNumber c = false)
    (halphabetic : Text.isAlphabetic c = false) (hblank : Text.isBlank c = false)
    (cs : List Char) : head table c cs = ([⟨[c], characterToken c, false⟩], cs) := by
  simp [head, hnumber, halphabetic, hblank]

theorem start_cases (c : Char) :
    startsNumber c = true ∨ Text.isAlphabetic c = true ∨ Text.isBlank c = true ∨
      (startsNumber c = false ∧ Text.isAlphabetic c = false ∧ Text.isBlank c = false) := by
  cases startsNumber c <;> cases Text.isAlphabetic c <;> cases Text.isBlank c <;> simp

/-!
## The lexemes that are not white space
-/

def solid (table : SymbolTable) (text : List Char) : List Lexeme :=
  (scan table text).filter (fun lexeme => lexeme.token.kind != .whitespace)

theorem solid_nil : solid table [] = [] := by
  rw [solid, scan]
  rfl

theorem solid_cons (c : Char) (cs : List Char) :
    solid table (c :: cs) =
      (head table c cs).1.filter (fun lexeme => lexeme.token.kind != .whitespace) ++
        solid table (head table c cs).2 := by
  rw [solid, scan, List.filter_append, solid]

theorem solid_dropWhile_isBlank (cs : List Char) :
    solid table (cs.dropWhile Text.isBlank) = solid table cs := by
  cases cs with
  | nil => rfl
  | cons c cs =>
      by_cases hblank : Text.isBlank c = true
      · rw [List.dropWhile_cons_of_pos hblank, solid_cons, head_blank hblank]
        rfl
      · rw [List.dropWhile_cons_of_neg hblank]

theorem solid_blank {c : Char} (cs : List Char) (h : Text.isBlank c = true) :
    solid table (c :: cs) = solid table cs := by
  rw [← solid_dropWhile_isBlank (c :: cs), List.dropWhile_cons_of_pos h, solid_dropWhile_isBlank]

/-!
## The tokens without white space
-/

def visible (table : SymbolTable) (text : List Char) : List Token :=
  ((scan table text).map Lexeme.token).filter (fun token => token.kind != .whitespace)

theorem visible_eq_map (text : List Char) :
    visible table text = (solid table text).map Lexeme.token := by
  rw [visible, solid, List.filter_map]
  rfl

theorem mem_visible {text : List Char} {token : Token} :
    token ∈ visible table text ↔
      token ∈ (scan table text).map Lexeme.token ∧ token.kind ≠ .whitespace := by
  rw [visible, List.mem_filter, bne_iff_ne]

theorem visible_nil : visible table [] = [] := by
  rw [visible, scan]
  rfl

theorem visible_cons (c : Char) (cs : List Char) :
    visible table (c :: cs) =
      ((head table c cs).1.map Lexeme.token).filter (fun token => token.kind != .whitespace) ++
        visible table (head table c cs).2 := by
  rw [visible, scan, List.map_append, List.filter_append, visible]

theorem kind_ofNumeric (run : NumericRun) :
    (ofNumeric run).token.kind = .number ∨ (ofNumeric run).token.kind = .error := by
  unfold ofNumeric
  split
  · exact .inr rfl
  · split
    · exact .inl rfl
    · exact .inr rfl

theorem kind_ofWord {lexeme : Lexeme} {word : List Char} (h : lexeme ∈ ofWord table word) :
    lexeme.token.kind = .constant ∨ lexeme.token.kind = .function ∨
      lexeme.token.kind = .error := by
  simp only [ofWord] at h
  split at h
  · rename_i hkind
    rw [List.mem_singleton.mp h]
    exact (SymbolTable.kind?_eq_some hkind).imp_right .inl
  · split at h
    · rename_i hsplit
      rcases List.mem_map.mp h with ⟨piece, hpiece, rfl⟩
      exact (SymbolTable.kind?_eq_some
        (SymbolTable.areNames_splitWord? hsplit piece hpiece)).imp_right .inl
    · rw [List.mem_singleton.mp h]
      exact .inr (.inr rfl)

theorem kind_characterToken (c : Char) : (characterToken c).kind ≠ .whitespace := by
  unfold characterToken
  split
  · exact TokenKind.noConfusion
  · split
    · exact TokenKind.noConfusion
    · split
      · exact TokenKind.noConfusion
      · split <;> exact TokenKind.noConfusion

theorem visible_number {c : Char} (cs : List Char) (h : startsNumber c = true) :
    visible table (c :: cs) =
      (ofNumeric ((NumericRun.read (c == '.') cs).cons c)).token ::
        visible table (NumericRun.read (c == '.') cs).rest := by
  have hkind : (ofNumeric ((NumericRun.read (c == '.') cs).cons c)).token.kind ≠ .whitespace := by
    rcases kind_ofNumeric ((NumericRun.read (c == '.') cs).cons c) with hkind | hkind <;>
      rw [hkind] <;> exact TokenKind.noConfusion
  rw [visible_cons, head_number h]
  simp only [List.map_cons, List.map_nil]
  rw [List.filter_cons, if_pos (bne_iff_ne.mpr hkind)]
  rfl

theorem visible_word {c : Char} (cs : List Char) (h : Text.isAlphabetic c = true) :
    visible table (c :: cs) =
      (ofWord table (c :: cs.takeWhile Text.isAlphabetic)).map Lexeme.token ++
        visible table (cs.dropWhile Text.isAlphabetic) := by
  have hkinds : forall token,
      token ∈ (ofWord table (c :: cs.takeWhile Text.isAlphabetic)).map Lexeme.token ->
      (token.kind != .whitespace) = true := by
    intro token htoken
    rcases List.mem_map.mp htoken with ⟨lexeme, hlexeme, rfl⟩
    rcases kind_ofWord hlexeme with hkind | hkind | hkind <;> rw [hkind] <;> rfl
  rw [visible_cons, head_letter h]
  simp only
  rw [List.filter_eq_self.mpr hkinds]

theorem visible_letters {word : List Char} (hword : word ≠ [])
    (hletters : forall c, c ∈ word -> Text.isAlphabetic c = true) :
    visible table word = (ofWord table word).map Lexeme.token := by
  rcases List.exists_cons_of_ne_nil hword with ⟨c, cs, rfl⟩
  have hrest : forall d, d ∈ cs -> Text.isAlphabetic d = true :=
    fun d hd => hletters d (List.mem_cons_of_mem c hd)
  rw [visible_word cs (hletters c List.mem_cons_self), List.takeWhile_eq_self_iff.mpr hrest,
    List.dropWhile_eq_nil_iff.mpr hrest, visible_nil, List.append_nil]

theorem visible_name {name : String} {kind : TokenKind} (hkind : table.kind? name = some kind)
    (hname : name.toList ≠ [])
    (hletters : forall c, c ∈ name.toList -> Text.isAlphabetic c = true) :
    visible table name.toList = [⟨kind, name⟩] := by
  rw [visible_letters hname hletters]
  simp [ofWord, hkind]

theorem visible_character {c : Char} (cs : List Char) (hnumber : startsNumber c = false)
    (halphabetic : Text.isAlphabetic c = false) (hblank : Text.isBlank c = false) :
    visible table (c :: cs) = characterToken c :: visible table cs := by
  rw [visible_cons, head_character hnumber halphabetic hblank]
  simp [kind_characterToken]

theorem visible_dropWhile_isBlank (cs : List Char) :
    visible table (cs.dropWhile Text.isBlank) = visible table cs := by
  rw [visible_eq_map, solid_dropWhile_isBlank, visible_eq_map]

theorem visible_blank {c : Char} (cs : List Char) (h : Text.isBlank c = true) :
    visible table (c :: cs) = visible table cs := by
  rw [visible_eq_map, solid_blank cs h, visible_eq_map]

theorem isBoundary_of_characterToken {c : Char} (h : (characterToken c).kind = .operator) :
    isBoundary c = true := by
  unfold characterToken at h
  split at h
  · cases h
  · split at h
    · cases h
    · split at h
      · cases h
      · split at h
        · rename_i hsymbol
          rcases List.any_eq_true.mp hsymbol with ⟨operator, _, hc⟩
          rw [← eq_of_beq hc]
          cases operator <;> decide +kernel
        · cases h

theorem isBoundary_of_head?_visible {c : Char} {cs : List Char} {token : Token}
    (h : (visible table (c :: cs)).head? = some token) (hkind : token.kind = .operator) :
    isBoundary c = true := by
  cases hnumber : startsNumber c with
  | true =>
      rw [visible_number cs hnumber] at h
      cases h
      rcases kind_ofNumeric ((NumericRun.read (c == '.') cs).cons c) with hother | hother <;>
        rw [hother] at hkind <;> cases hkind
  | false =>
      cases halphabetic : Text.isAlphabetic c with
      | true =>
          rw [visible_word cs halphabetic] at h
          cases hword : ofWord table (c :: cs.takeWhile Text.isAlphabetic) with
          | nil => exact absurd hword (ofWord_ne_nil table _)
          | cons lexeme rest =>
              rw [hword] at h
              cases h
              rcases kind_ofWord (hword ▸ List.mem_cons_self) with hother | hother | hother <;>
                rw [hother] at hkind <;> cases hkind
      | false =>
          cases hblank : Text.isBlank c with
          | true => exact isBoundary_of_isBlank hblank
          | false =>
              rw [visible_character cs hnumber halphabetic hblank] at h
              cases h
              exact isBoundary_of_characterToken hkind

/-!
## Joining texts
-/

theorem takeWhile_append_cons {p : Char -> Bool} {boundary : Char} (cs rest : List Char)
    (h : p boundary = false) :
    (cs ++ boundary :: rest).takeWhile p = cs.takeWhile p ∧
      (cs ++ boundary :: rest).dropWhile p = cs.dropWhile p ++ boundary :: rest := by
  induction cs with
  | nil => simp [h]
  | cons c cs ih =>
      by_cases hc : p c = true
      · simp [hc, ih.left, ih.right]
      · simp [hc]

theorem read_append_cons {boundary : Char} (h : isBoundary boundary = true) (point : Bool)
    (cs rest : List Char) :
    NumericRun.read point (cs ++ boundary :: rest) =
      { NumericRun.read point cs with
        rest := (NumericRun.read point cs).rest ++ boundary :: rest } := by
  rcases isBoundary_eq_true.mp h with ⟨hstarts, hmark, halphabetic⟩
  rcases Bool.or_eq_false_iff.mp hstarts with ⟨hdigit, hpoint⟩
  induction cs generalizing point with
  | nil => simp [NumericRun.read, hdigit, ne_of_beq_false hpoint, hmark]
  | cons c cs ih =>
      -- A mark at the end of the text is followed by no letter, and by none at a boundary.
      have hnext : ((cs ++ boundary :: rest).head?.map Text.isAlphabetic).getD false =
          (cs.head?.map Text.isAlphabetic).getD false := by
        cases cs with
        | nil => simp [halphabetic]
        | cons d cs => rfl
      rw [List.cons_append, NumericRun.read, NumericRun.read, hnext, ih, ih, ih]
      split
      · rfl
      · split
        · rfl
        · split
          · split <;> rfl
          · rfl

/-- In front of a boundary a text starts with the same lexemes as if it ended there. Only white
space could go on. -/
theorem head_append_cons {boundary : Char} (h : isBoundary boundary = true) {c : Char}
    (hblank : Text.isBlank c = false) (cs rest : List Char) :
    head table c (cs ++ boundary :: rest) =
      ((head table c cs).1, (head table c cs).2 ++ boundary :: rest) := by
  rcases start_cases c with hnumber | hletter | hspace | ⟨hnumber, hletter, _⟩
  · rw [head_number hnumber, head_number hnumber, read_append_cons h]
    rfl
  · rcases takeWhile_append_cons cs rest (isBoundary_eq_true.mp h).right.right with ⟨htake, hdrop⟩
    rw [head_letter hletter, head_letter hletter, htake, hdrop]
  · rw [hblank] at hspace
    cases hspace
  · rw [head_character hnumber hletter hblank, head_character hnumber hletter hblank]

/-- The lexemes of two texts that meet at a boundary are those of the one and then those of the
other. -/
theorem solid_append_cons {boundary : Char} (h : isBoundary boundary = true)
    (cs rest : List Char) :
    solid table (cs ++ boundary :: rest) =
      solid table cs ++ solid table (boundary :: rest) := by
  -- By length: the first lexemes of the text end in front of the boundary.
  match cs with
  | [] => rw [solid_nil, List.nil_append, List.nil_append]
  | c :: cs =>
      have hle := length_head_le table c cs
      rw [List.cons_append]
      cases hblank : Text.isBlank c with
      | true => rw [solid_blank _ hblank, solid_blank _ hblank, solid_append_cons h cs rest]
      | false =>
          rw [solid_cons, head_append_cons h hblank, solid_cons,
            solid_append_cons h (head table c cs).2 rest, List.append_assoc]
termination_by cs.length
decreasing_by
  all_goals simp only [List.length_cons]
  all_goals omega

theorem visible_append_cons {boundary : Char} (h : isBoundary boundary = true)
    (cs rest : List Char) :
    visible table (cs ++ boundary :: rest) =
      visible table cs ++ visible table (boundary :: rest) := by
  rw [visible_eq_map, solid_append_cons h, List.map_append, visible_eq_map, visible_eq_map]

/-- As `visible_append_cons`, for a second text that may be empty. -/
theorem visible_append {cs rest : List Char}
    (h : forall c, rest.head? = some c -> isBoundary c = true) :
    visible table (cs ++ rest) = visible table cs ++ visible table rest := by
  cases rest with
  | nil => rw [visible_nil, List.append_nil, List.append_nil]
  | cons c rest => exact visible_append_cons (h c rfl) cs rest

theorem visible_append_blanks (cs : List Char) {blanks : List Char}
    (h : forall c, c ∈ blanks -> Text.isBlank c = true) :
    visible table (cs ++ blanks) = visible table cs := by
  have hblanks : visible table blanks = [] := by
    rw [← visible_dropWhile_isBlank, List.dropWhile_eq_nil_iff.mpr h, visible_nil]
  rw [visible_append, hblanks, List.append_nil]
  intro c hc
  exact isBoundary_of_isBlank (h c (List.mem_of_head? hc))

theorem visible_trim (cs : List Char) : visible table (Text.trim cs) = visible table cs := by
  have hdropped := List.takeWhile_append_dropWhile (p := Text.isBlank)
    (l := (cs.dropWhile Text.isBlank).reverse)
  have hsplit := congrArg List.reverse hdropped
  rw [List.reverse_append, List.reverse_reverse] at hsplit
  rw [← visible_dropWhile_isBlank cs, ← hsplit, visible_append_blanks, Text.trim]
  intro c hc
  exact List.mem_takeWhile_imp (List.mem_reverse.mp hc)

end Lexeme
end AngleCalc
