import AngleCalc.Infix
import AngleCalc.Proofs.Lexeme.Cuts
import AngleCalc.Proofs.Lexeme.Numbers

/-!
# What is wrong with a text

A slice of a text is at fault in one of three ways: it is a whole word that is not made of known
names, a whole number that cannot be read, or a single character that starts nothing. These are
the slices with an error token. Which of the three it is can be told from the first character.
-/

namespace AngleCalc
namespace Lexeme

open NumericRun (EndsNumber HasSecondPoint)

/-!
## Faults
-/

/-- A run of letters that goes on neither in front nor behind. -/
structure IsWholeWord (before slice after : List Char) : Prop where
  ne_nil : slice ≠ []
  letters : forall c, c ∈ slice -> Text.isAlphabetic c = true
  starts : forall c, before.getLast? = some c -> Text.isAlphabetic c = false
  ends : startsWord after = false

/-- A run of digits, points, and angle marks that no letter follows. It starts with a digit or a
point, and it goes on neither in front nor behind. -/
structure IsWholeNumber (before slice after : List Char) : Prop where
  head : exists c cs, slice = c :: cs ∧ startsNumber c = true
  characters : forall c, c ∈ slice -> startsNumber c = true ∨ Sexagesimal.isMark c = true
  marks : forall front c back, slice = front ++ c :: back -> Sexagesimal.isMark c = true ->
    startsWord (back ++ after) = false
  starts : forall c, before.getLast? = some c -> startsNumber c = false
  ends : EndsNumber after

/-- A character that starts nothing: no digit, point, letter, white space, parenthesis, root sign
or symbol of an operator. -/
structure IsStray (c : Char) : Prop where
  startsNumber : startsNumber c = false
  isAlphabetic : Text.isAlphabetic c = false
  isBlank : Text.isBlank c = false
  ne_opening : c ≠ '('
  ne_closing : c ≠ ')'
  ne_root : c ≠ '√'
  isSymbol : Operator.isSymbol c = false

inductive IsFault (table : SymbolTable) (before : List Char) :
    List Char -> List Char -> Failure -> Prop where
  | word {word after : List Char} (hword : IsWholeWord before word after)
      (hunknown : ¬ table.Knows word) (hunsplittable : ¬ table.IsSplittable word) :
      IsFault table before word after (.unknownName (String.ofList word))
  | number {number after : List Char} (hnumber : IsWholeNumber before number after)
      (hunreadable : HasSecondPoint number ∨
        exists failure, Sexagesimal.readChars number = .error failure) :
      IsFault table before number after (.badNumber (String.ofList number))
  | character {c : Char} {after : List Char} (hstray : IsStray c) :
      IsFault table before [c] after (.strayCharacter c)

variable {table : SymbolTable}

theorem not_isAlphabetic_of_startsNumber {c : Char} (h : startsNumber c = true) :
    Text.isAlphabetic c = false := by
  by_contra hne
  rw [startsNumber_of_isAlphabetic (Bool.eq_true_of_not_eq_false hne)] at h
  cases h

theorem failureOf_of_isFault {before slice after : List Char} {failure : Failure}
    (h : IsFault table before slice after failure) :
    Infix.failureOf (String.ofList slice) = failure := by
  cases h with
  | word hword _ _ =>
      rcases List.exists_cons_of_ne_nil hword.ne_nil with ⟨c, cs, rfl⟩
      simp [Infix.failureOf, hword.letters c List.mem_cons_self]
  | number hnumber _ =>
      rcases hnumber.head with ⟨c, cs, rfl, hstarts⟩
      have hletter := not_isAlphabetic_of_startsNumber hstarts
      have hnumber : (c.isDigit || c == '.') = true := hstarts
      simp [Infix.failureOf, hletter, hnumber]
  | character hstray =>
      have hnumber : (_ || _) = false := hstray.startsNumber
      simp [Infix.failureOf, hstray.isAlphabetic, hnumber]

theorem IsFault.failure_eq {before slice after : List Char} {failure : Failure}
    (h : IsFault table before slice after failure) :
    failure = .unknownName (String.ofList slice) ∨ failure = .badNumber (String.ofList slice) ∨
      exists c, failure = .strayCharacter c := by
  cases h with
  | word _ _ _ => exact .inl rfl
  | number _ _ => exact .inr (.inl rfl)
  | @character c _ _ => exact .inr (.inr ⟨c, rfl⟩)

/-!
## The places of lexemes
-/

def IsBreak (before after : List Char) : Prop :=
  forall c d, before.getLast? = some c -> after.head? = some d ->
    (Text.isAlphabetic d = true -> Text.isAlphabetic c = false) ∧
      (startsNumber d = true -> startsNumber c = false)

theorem isBreak_of_stops {before after : List Char}
    (hletter : forall c, before.getLast? = some c -> Text.isAlphabetic c = true ->
      startsWord after = false)
    (hnumber : forall c d, before.getLast? = some c -> after.head? = some d ->
      startsNumber c = true -> startsNumber d = false) : IsBreak before after := by
  intro c d hlast hhead
  constructor
  · intro hd
    by_contra hc
    have hstop := hletter c hlast (Bool.eq_true_of_not_eq_false hc)
    rw [startsWord, hhead] at hstop
    exact Bool.eq_false_iff.mp hstop hd
  · intro hd
    by_contra hc
    have hstop := hnumber c d hlast hhead (Bool.eq_true_of_not_eq_false hc)
    exact Bool.eq_false_iff.mp hstop hd

theorem isBreak_of_last {before after : List Char}
    (h : forall c, before.getLast? = some c ->
      startsNumber c = false ∧ Text.isAlphabetic c = false) : IsBreak before after := by
  apply isBreak_of_stops
  · intro c hlast hc
    exact absurd hc (Bool.eq_false_iff.mp (h c hlast).right)
  · intro c d hlast _ hc
    exact absurd hc (Bool.eq_false_iff.mp (h c hlast).left)

theorem isBreak_number (cs : List Char) :
    IsBreak (NumericRun.read false cs).slice (NumericRun.read false cs).rest := by
  apply isBreak_of_stops
  · intro d hlast hletter
    rcases List.getLast?_eq_some_iff.mp hlast with ⟨front, hslice⟩
    have hmem : d ∈ (NumericRun.read false cs).slice := by simp [hslice]
    rcases NumericRun.startsNumber_or_isMark_of_mem_slice false cs hmem with hstarts | hmark
    · rw [startsNumber_of_isAlphabetic hletter] at hstarts
      cases hstarts
    · exact NumericRun.startsWord_of_mark_mem_slice false cs hslice hmark
  · intro d e _ hhead _
    have hends := NumericRun.endsNumber_rest false cs
    cases hrest : (NumericRun.read false cs).rest with
    | nil =>
        rw [hrest] at hhead
        cases hhead
    | cons first rest =>
        rw [hrest] at hhead hends
        cases hhead
        exact hends.left

theorem head_of_startsNumber {c : Char} (cs : List Char) (h : startsNumber c = true) :
    head table c cs = ([ofNumeric (NumericRun.read false (c :: cs))],
      (NumericRun.read false (c :: cs)).rest) := by
  rw [head_number h, ← NumericRun.cons_read cs h]
  rfl

theorem isBreak_head (table : SymbolTable) (c : Char) (cs : List Char) :
    IsBreak ((head table c cs).1.flatMap Lexeme.slice) (head table c cs).2 := by
  rcases start_cases c with hnumber | hletter | hblank | ⟨hnumber, hletter, hblank⟩
  · rw [head_of_startsNumber cs hnumber]
    simp only [List.flatMap_cons, List.flatMap_nil, List.append_nil, slice_ofNumeric]
    exact isBreak_number (c :: cs)
  · rw [head_letter hletter, flatMap_slice_ofWord]
    apply isBreak_of_stops
    · intro _ _ _
      exact startsWord_dropWhile cs
    · intro d e hlast _ hstarts
      have hd := of_mem_cons_takeWhile hletter (List.mem_of_getLast? hlast)
      rw [startsNumber_of_isAlphabetic hd] at hstarts
      cases hstarts
  · rw [head_blank hblank]
    apply isBreak_of_last
    intro d hlast
    have hd := of_mem_cons_takeWhile hblank (List.mem_of_getLast? (by simpa using hlast))
    rcases isBoundary_eq_true.mp (isBoundary_of_isBlank hd) with ⟨hstarts, _, halphabetic⟩
    exact ⟨hstarts, halphabetic⟩
  · rw [head_character hnumber hletter hblank]
    apply isBreak_of_last
    intro d hlast
    cases hlast
    exact ⟨hnumber, hletter⟩

/-- A lexeme is one of those at its place, and no word and no number goes on over the place. -/
theorem exists_place {text : List Char} {front back : List Lexeme} {lexeme : Lexeme}
    (h : scan table text = front ++ lexeme :: back) : exists before c cs first last,
      text = before ++ c :: cs ∧ IsBreak before (c :: cs) ∧
        (head table c cs).1 = first ++ lexeme :: last ∧
        front.flatMap Lexeme.slice = before ++ first.flatMap Lexeme.slice ∧
        back.flatMap Lexeme.slice = last.flatMap Lexeme.slice ++ (head table c cs).2 := by
  induction text using scan.induct table generalizing front with
  | case1 =>
      rw [scan] at h
      simp at h
  | case2 c cs ih =>
      -- A lexeme behind the first ones has its place in what follows them.
      have hbehind : forall more, front = (head table c cs).1 ++ more ->
          scan table (head table c cs).2 = more ++ lexeme :: back -> exists before d ds first last,
            c :: cs = before ++ d :: ds ∧ IsBreak before (d :: ds) ∧
              (head table d ds).1 = first ++ lexeme :: last ∧
              front.flatMap Lexeme.slice = before ++ first.flatMap Lexeme.slice ∧
              back.flatMap Lexeme.slice =
                last.flatMap Lexeme.slice ++ (head table d ds).2 := by
        rintro more rfl hrest
        rcases ih hrest with ⟨before, d, ds, first, last, htext, hbreak, hhead, hfront, hback⟩
        refine ⟨(head table c cs).1.flatMap Lexeme.slice ++ before, d, ds, first, last,
          ?_, ?_, hhead, ?_, hback⟩
        · rw [List.append_assoc, ← htext, flatMap_slice_head]
        · cases before with
          | nil =>
              have hbreak := isBreak_head table c cs
              rw [htext] at hbreak
              rwa [List.append_nil]
          | cons e before =>
              intro x y hlast
              rw [List.getLast?_append_of_ne_nil _ (List.cons_ne_nil e before)] at hlast
              exact hbreak x y hlast
        · rw [List.flatMap_append, hfront, List.append_assoc]
      rw [scan] at h
      rcases List.append_eq_append_iff.mp h with ⟨more, hfront, hrest⟩ | ⟨more, hhead, hrest⟩
      · exact hbehind more hfront hrest
      · cases more with
        | nil =>
            rw [List.append_nil] at hhead
            exact hbehind [] (by rw [hhead, List.append_nil]) hrest.symm
        | cons other last =>
            rw [List.cons_append, List.cons.injEq] at hrest
            rcases hrest with ⟨rfl, rfl⟩
            refine ⟨[], c, cs, front, last, rfl, ?_, hhead, rfl, ?_⟩
            · intro x y hlast
              cases hlast
            · rw [List.flatMap_append, flatMap_slice_scan]

/-!
## Errors are faults
-/

theorem kind_ofNumeric_eq_error_iff (run : NumericRun) :
    (ofNumeric run).token.kind = .error ↔
      run.malformed = true ∨ exists failure, Sexagesimal.readChars run.slice = .error failure := by
  simp only [ofNumeric]
  cases run.malformed with
  | true => simp
  | false => cases Sexagesimal.readChars run.slice <;> simp [Token.number]

theorem kind_characterToken_eq_error_iff (c : Char) : (characterToken c).kind = .error ↔
    c ≠ '(' ∧ c ≠ ')' ∧ c ≠ '√' ∧ Operator.isSymbol c = false := by
  unfold characterToken
  by_cases hopen : c = '('
  · simp [hopen]
  · by_cases hclose : c = ')'
    · simp [hclose]
    · by_cases hroot : c = '√'
      · simp [hroot, Token.function]
      · cases hsymbol : Operator.isSymbol c <;> simp [hopen, hclose, hroot, Token.operator]

theorem exists_isFault_number {before : List Char} {c : Char} {cs : List Char}
    (hstarts : startsNumber c = true) (hbreak : IsBreak before (c :: cs))
    (herror : (ofNumeric (NumericRun.read false (c :: cs))).token.kind = .error) :
    exists failure, IsFault table before (NumericRun.read false (c :: cs)).slice
      (NumericRun.read false (c :: cs)).rest failure := by
  have hslice : exists ds, (NumericRun.read false (c :: cs)).slice = c :: ds := by
    rw [← NumericRun.cons_read cs hstarts]
    exact ⟨_, rfl⟩
  have hwhole : IsWholeNumber before (NumericRun.read false (c :: cs)).slice
      (NumericRun.read false (c :: cs)).rest := {
    head := hslice.elim fun ds hds => ⟨c, ds, hds, hstarts⟩
    characters := fun d => NumericRun.startsNumber_or_isMark_of_mem_slice false (c :: cs)
    marks := fun _ d _ => NumericRun.startsWord_of_mark_mem_slice false (c :: cs)
    starts := fun d hlast => (hbreak d c hlast rfl).right hstarts
    ends := NumericRun.endsNumber_rest false (c :: cs) }
  rw [kind_ofNumeric_eq_error_iff, NumericRun.malformed_read_iff] at herror
  exact ⟨_, .number hwhole herror⟩

theorem exists_isFault_word {before : List Char} {c : Char} {cs : List Char}
    {first last : List Lexeme} {lexeme : Lexeme} (hletter : Text.isAlphabetic c = true)
    (hbreak : IsBreak before (c :: cs))
    (h : ofWord table (c :: cs.takeWhile Text.isAlphabetic) = first ++ lexeme :: last)
    (herror : lexeme.token.kind = .error) :
    exists failure, IsFault table (before ++ first.flatMap Lexeme.slice) lexeme.slice
      (last.flatMap Lexeme.slice ++ cs.dropWhile Text.isAlphabetic) failure := by
  have hne : c :: cs.takeWhile Text.isAlphabetic ≠ [] := List.cons_ne_nil _ _
  rw [SymbolTable.ofWord_eq_of_splitWord? hne] at h
  cases hsplit : table.splitWord? (c :: cs.takeWhile Text.isAlphabetic) with
  | some pieces =>
      -- A piece of a word is a known name.
      rw [hsplit] at h
      rcases List.map_eq_append_iff.mp h with ⟨front, others, hpieces, _, hothers⟩
      rcases List.map_eq_cons_iff.mp hothers with ⟨piece, back, rfl, rfl, _⟩
      have hpiece := SymbolTable.isLongestPiece_of_splitWord? hsplit front piece back hpieces
      rcases SymbolTable.kind?_eq_some hpiece.kind_eq with hkind | hkind <;>
        exact absurd (hkind.symm.trans herror) TokenKind.noConfusion
  | none =>
      rw [hsplit] at h
      rcases List.append_eq_singleton_iff.mp h.symm with ⟨rfl, hcons⟩ | ⟨_, hnil⟩
      · cases hcons
        have hunsplittable := SymbolTable.splitWord?_eq_none_iff.mp hsplit
        have hunknown : ¬ table.Knows (c :: cs.takeWhile Text.isAlphabetic) := by
          intro hknown
          have hsingle := SymbolTable.isSplittable_nil.append hne hknown
          rw [List.append_nil] at hsingle
          exact hunsplittable hsingle
        refine ⟨_, .word ⟨hne, ?_, ?_, ?_⟩ hunknown hunsplittable⟩
        · intro d hd
          exact of_mem_cons_takeWhile hletter hd
        · intro d hlast
          rw [List.flatMap_nil, List.append_nil] at hlast
          exact (hbreak d c hlast rfl).left hletter
        · exact startsWord_dropWhile cs
      · cases hnil

theorem exists_isFault_of_error {text : List Char} {front back : List Lexeme} {lexeme : Lexeme}
    (h : scan table text = front ++ lexeme :: back) (herror : lexeme.token.kind = .error) :
    exists failure, IsFault table (front.flatMap Lexeme.slice) lexeme.slice
      (back.flatMap Lexeme.slice) failure := by
  rcases exists_place h with ⟨before, c, cs, first, last, _, hbreak, hhead, hfront, hback⟩
  rw [hfront, hback]
  have hsingle : forall found, [found] = first ++ lexeme :: last ->
      first = [] ∧ lexeme = found ∧ last = [] := by
    intro found hfound
    rcases List.append_eq_singleton_iff.mp hfound.symm with ⟨hfirst, hcons⟩ | ⟨_, hnil⟩
    · exact ⟨hfirst, (List.cons.inj hcons).left, (List.cons.inj hcons).right⟩
    · cases hnil
  rcases start_cases c with hnumber | hletter | hblank | ⟨hnumber, hletter, hblank⟩
  · rw [head_of_startsNumber cs hnumber] at hhead ⊢
    rcases hsingle _ hhead with ⟨rfl, rfl, rfl⟩
    rw [List.flatMap_nil, List.append_nil, slice_ofNumeric]
    exact exists_isFault_number hnumber hbreak herror
  · rw [head_letter hletter] at hhead ⊢
    exact exists_isFault_word hletter hbreak hhead herror
  · rw [head_blank hblank] at hhead
    rcases hsingle _ hhead with ⟨rfl, rfl, rfl⟩
    cases herror
  · rw [head_character hnumber hletter hblank] at hhead ⊢
    rcases hsingle _ hhead with ⟨rfl, rfl, rfl⟩
    rcases (kind_characterToken_eq_error_iff c).mp herror with ⟨hopen, hclose, hroot, hsymbol⟩
    exact ⟨_, .character ⟨hnumber, hletter, hblank, hopen, hclose, hroot, hsymbol⟩⟩

/-!
## Faults are errors
-/

theorem head_of_isFault {before slice after : List Char} {failure : Failure}
    (h : IsFault table before slice after failure) : exists c cs lexeme,
      slice ++ after = c :: cs ∧ head table c cs = ([lexeme], after) ∧
        lexeme.slice = slice ∧ lexeme.token.kind = .error := by
  cases h with
  | word hword _ hunsplittable =>
      rcases List.exists_cons_of_ne_nil hword.ne_nil with ⟨c, cs, rfl⟩
      have hcs : forall d, d ∈ cs -> Text.isAlphabetic d = true :=
        fun d hd => hword.letters d (List.mem_cons_of_mem c hd)
      rcases takeWhile_append_of_not_startsWord hcs hword.ends with ⟨htake, hdrop⟩
      refine ⟨c, cs ++ after, ⟨c :: cs, ⟨.error, String.ofList (c :: cs)⟩, false⟩, rfl, ?_, rfl, rfl⟩
      rw [head_letter (hword.letters c List.mem_cons_self), htake, hdrop,
        SymbolTable.ofWord_eq_of_splitWord? hword.ne_nil,
        SymbolTable.splitWord?_eq_none_iff.mpr hunsplittable]
  | number hnumber hunreadable =>
      rcases hnumber.head with ⟨c, cs, rfl, hstarts⟩
      rcases NumericRun.read_append_of_endsNumber false hnumber.characters hnumber.marks
        hnumber.ends with ⟨hslice, hrest⟩
      rw [List.cons_append] at hslice hrest
      refine ⟨c, cs ++ after, ofNumeric (NumericRun.read false (c :: (cs ++ after))), rfl,
        ?_, ?_, ?_⟩
      · rw [head_of_startsNumber _ hstarts, hrest]
      · rw [slice_ofNumeric, hslice]
      · rw [kind_ofNumeric_eq_error_iff, NumericRun.malformed_read_iff, hslice]
        exact hunreadable
  | @character c _ hstray =>
      refine ⟨c, after, ⟨[c], characterToken c, false⟩, rfl,
        head_character hstray.startsNumber hstray.isAlphabetic hstray.isBlank after, rfl, ?_⟩
      exact (kind_characterToken_eq_error_iff c).mpr
        ⟨hstray.ne_opening, hstray.ne_closing, hstray.ne_root, hstray.isSymbol⟩

theorem text_of_error {lexeme : Lexeme} (h : lexeme.IsFaithful)
    (herror : lexeme.token.kind = .error) : lexeme.token.text = String.ofList lexeme.slice := by
  have htoken := h.isTokenOf
  unfold IsTokenOf at htoken
  split at htoken
  · rw [htoken] at herror
    cases herror
  · rwa [if_neg (by simp [herror])] at htoken

/-- Between the lexemes of a text and what follows them there is a fault if an error comes next,
and then it is the fault that is read off the text of its token. -/
theorem isFault_iff_of_scan {text : List Char} {front rest : List Lexeme}
    (h : scan table text = front ++ rest) {slice after : List Char}
    (hrest : rest.flatMap Lexeme.slice = slice ++ after) (failure : Failure) :
    IsFault table (front.flatMap Lexeme.slice) slice after failure ↔
      exists lexeme back, rest = lexeme :: back ∧ lexeme.slice = slice ∧
        lexeme.token.kind = .error ∧ Infix.failureOf lexeme.token.text = failure := by
  have htext : forall lexeme back, rest = lexeme :: back -> lexeme.token.kind = .error ->
      lexeme.token.text = String.ofList lexeme.slice := by
    rintro lexeme back rfl
    have hmem : lexeme ∈ scan table text := h ▸ List.mem_append_right front List.mem_cons_self
    exact text_of_error (isFaithful_of_mem_scan hmem)
  constructor
  · intro hfault
    rcases head_of_isFault hfault with ⟨c, cs, lexeme, hcons, hhead, rfl, herror⟩
    have hscan := (scan_cut text h).right
    rw [hrest, hcons, scan, hhead] at hscan
    refine ⟨lexeme, _, hscan.symm, rfl, herror, ?_⟩
    rw [htext _ _ hscan.symm herror, failureOf_of_isFault hfault]
  · rintro ⟨lexeme, back, rfl, rfl, herror, hfailure⟩
    rcases exists_isFault_of_error h herror with ⟨other, hfault⟩
    rw [htext _ _ rfl herror, failureOf_of_isFault hfault] at hfailure
    rw [List.flatMap_cons, List.append_cancel_left_eq] at hrest
    rwa [← hfailure, ← hrest]

end Lexeme
end AngleCalc
