import AngleCalc.Proofs.Lexeme.NumericRuns

/-!
# Texts that are cut

A text may be cut between two of its slices, also between two pieces of a word. Each part, read
on its own, has the lexemes that it had before. There is one exception: an angle mark that a
letter follows is no part of the number in front of it, but it would be if the text ended there.
-/

namespace AngleCalc

/-!
## Words
-/

namespace SymbolTable

variable {table : SymbolTable}

theorem IsSplittable.concat {word rest : List Char} (hword : table.IsSplittable word)
    (hrest : table.IsSplittable rest) : table.IsSplittable (word ++ rest) := by
  rcases hword with ⟨names, hnames, rfl⟩
  rcases hrest with ⟨others, hothers, rfl⟩
  refine ⟨names ++ others, ?_, List.flatten_append⟩
  intro name hname
  rcases List.mem_append.mp hname with hmem | hmem
  · exact hnames name hmem
  · exact hothers name hmem

/-- The pieces behind some piece are the split of what they spell, and so are those in front of
it: a longer first piece would also be there in the whole word. -/
theorem splitWord?_spelled {word : List Char} {pieces : List Token}
    (h : table.splitWord? word = some pieces) : forall front back, pieces = front ++ back ->
      table.splitWord? (spelled front) = some front ∧
        table.splitWord? (spelled back) = some back := by
  refine splitWord?_induction (motive := fun word pieces => forall front back,
    pieces = front ++ back -> table.splitWord? (spelled front) = some front ∧
      table.splitWord? (spelled back) = some back) ?_ ?_ word h
  · intro front back hpieces
    rcases List.append_eq_nil_iff.mp hpieces.symm with ⟨rfl, rfl⟩
    exact ⟨splitWord?_nil, splitWord?_nil⟩
  · intro name rest kind pieces hfirst hrest front back hpieces
    have hspelled := spelled_splitWord? rest hfirst.rest_eq
    cases front with
    | nil =>
        rw [List.nil_append] at hpieces
        rw [← hpieces, spelled_cons, hspelled, String.toList_ofList]
        exact ⟨splitWord?_nil, hfirst.splitWord?_eq⟩
    | cons piece front =>
        rw [List.cons_append, List.cons.injEq] at hpieces
        rcases hpieces with ⟨rfl, rfl⟩
        rcases hrest front back rfl with ⟨hfront, hback⟩
        refine ⟨?_, hback⟩
        rw [spelled_cons, String.toList_ofList]
        refine IsFirstPiece.splitWord?_eq ⟨hfirst.ne_nil, hfirst.kind_eq, hfront, ?_⟩
        intro longer others hword hlonger hknown
        by_contra hothers
        rcases Option.ne_none_iff_exists'.mp hothers with ⟨more, hmore⟩
        -- With the pieces behind the cut the longer piece splits the whole word.
        have hsplittable := (isSplittable_of_splitWord? hmore).concat
          (isSplittable_of_splitWord? hback)
        rcases exists_splitWord?_of_isSplittable hsplittable with ⟨all, hall⟩
        have hwhole : name ++ rest = longer ++ (others ++ spelled back) := by
          rw [← List.append_assoc, ← hword, ← hspelled, spelled, List.flatMap_append,
            List.append_assoc]
          rfl
        rw [hfirst.longest longer _ hwhole hlonger hknown] at hall
        cases hall

end SymbolTable

/-!
## The lexemes at one place
-/

namespace Lexeme

variable {table : SymbolTable}

/-- What follows the characters of one kind goes on with no such character, and neither does a
beginning of it. -/
theorem takeWhile_of_beginning_dropWhile {p : Char -> Bool} {cs front : List Char}
    (h : front <+: cs.dropWhile p) : front.takeWhile p = [] ∧ front.dropWhile p = front := by
  rcases h with ⟨back, hback⟩
  cases front with
  | nil => exact ⟨rfl, rfl⟩
  | cons c front =>
      have hhead := List.head_dropWhile_not p (l := cs) (by simp [← hback])
      have hc : p c = false := by simpa [← hback] using hhead
      simp [hc]

theorem takeWhile_append_beginning {p : Char -> Bool} {cs front : List Char}
    (h : front <+: cs.dropWhile p) : (cs.takeWhile p ++ front).takeWhile p = cs.takeWhile p ∧
      (cs.takeWhile p ++ front).dropWhile p = front := by
  rcases takeWhile_of_beginning_dropWhile h with ⟨htake, hdrop⟩
  have hall : forall c, c ∈ cs.takeWhile p -> p c = true := fun c hc => List.mem_takeWhile_imp hc
  rw [List.takeWhile_append_of_pos hall, htake, List.append_nil,
    List.dropWhile_append_of_pos hall, hdrop]
  exact ⟨rfl, rfl⟩

/-- The lexemes at the start of a text are found again in front of a beginning of what followed
them. -/
theorem head_of_beginning {c : Char} {cs front : List Char} (hfront : front <+: (head table c cs).2)
    (hends : startsNumber c = true -> NumericRun.EndsNumber front) : exists ds,
      (head table c cs).1.flatMap Lexeme.slice ++ front = c :: ds ∧
        head table c ds = ((head table c cs).1, front) := by
  rcases start_cases c with hnumber | hletter | hblank | ⟨hnumber, hletter, hblank⟩
  · rw [head_number hnumber] at hfront ⊢
    refine ⟨(NumericRun.read (c == '.') cs).slice ++ front, ?_, ?_⟩
    · simp [slice_ofNumeric, NumericRun.cons]
    · rw [head_number hnumber, NumericRun.read_slice_append _ cs hfront (hends hnumber)]
      rfl
  · rw [head_letter hletter] at hfront ⊢
    refine ⟨cs.takeWhile Text.isAlphabetic ++ front, ?_, ?_⟩
    · rw [flatMap_slice_ofWord]
      rfl
    · rcases takeWhile_append_beginning hfront with ⟨htake, hdrop⟩
      rw [head_letter hletter, htake, hdrop]
  · rw [head_blank hblank] at hfront ⊢
    refine ⟨cs.takeWhile Text.isBlank ++ front, ?_, ?_⟩
    · simp
    · rcases takeWhile_append_beginning hfront with ⟨htake, hdrop⟩
      rw [head_blank hblank, htake, hdrop]
  · rw [head_character hnumber hletter hblank]
    exact ⟨front, rfl, head_character hnumber hletter hblank front⟩

theorem scan_head_append {c : Char} {cs front : List Char} (hfront : front <+: (head table c cs).2)
    (hends : startsNumber c = true -> NumericRun.EndsNumber front) :
    scan table ((head table c cs).1.flatMap Lexeme.slice ++ front) =
      (head table c cs).1 ++ scan table front := by
  rcases head_of_beginning hfront hends with ⟨ds, htext, hhead⟩
  rw [htext, scan, hhead]

/-!
## The pieces of a word
-/

theorem takeWhile_append_of_not_startsWord {cs rest : List Char}
    (hletters : forall c, c ∈ cs -> Text.isAlphabetic c = true) (hrest : startsWord rest = false) :
    (cs ++ rest).takeWhile Text.isAlphabetic = cs ∧
      (cs ++ rest).dropWhile Text.isAlphabetic = rest := by
  rw [List.takeWhile_append_of_pos hletters, List.dropWhile_append_of_pos hletters]
  cases rest with
  | nil => exact ⟨List.append_nil cs, rfl⟩
  | cons c rest =>
      have hc : Text.isAlphabetic c = false := hrest
      simp [hc]

theorem scan_word {word rest : List Char} (hword : word ≠ [])
    (hletters : forall c, c ∈ word -> Text.isAlphabetic c = true)
    (hrest : startsWord rest = false) :
    scan table (word ++ rest) = ofWord table word ++ scan table rest := by
  rcases List.exists_cons_of_ne_nil hword with ⟨c, cs, rfl⟩
  have hcs : forall d, d ∈ cs -> Text.isAlphabetic d = true :=
    fun d hd => hletters d (List.mem_cons_of_mem c hd)
  rcases takeWhile_append_of_not_startsWord hcs hrest with ⟨htake, hdrop⟩
  rw [List.cons_append, scan, head_letter (hletters c List.mem_cons_self), htake, hdrop]

theorem ofWord_spelled {pieces : List Token} (hpieces : pieces ≠ [])
    (h : table.splitWord? (SymbolTable.spelled pieces) = some pieces) :
    ofWord table ((pieces.map ofName).flatMap Lexeme.slice) = pieces.map ofName := by
  have hspelled : (pieces.map ofName).flatMap Lexeme.slice = SymbolTable.spelled pieces := by
    rw [List.flatMap_map]
    rfl
  have hword : SymbolTable.spelled pieces ≠ [] := by
    intro hnil
    rw [hnil, SymbolTable.splitWord?_nil] at h
    exact hpieces (Option.some.inj h).symm
  rw [hspelled, SymbolTable.ofWord_eq_of_splitWord? hword, h]

theorem ofWord_cut {word : List Char} {front back : List Lexeme} (hword : word ≠ [])
    (hfront : front ≠ []) (hback : back ≠ []) (h : ofWord table word = front ++ back) :
    ofWord table (front.flatMap Lexeme.slice) = front ∧
      ofWord table (back.flatMap Lexeme.slice) = back := by
  rw [SymbolTable.ofWord_eq_of_splitWord? hword] at h
  cases hsplit : table.splitWord? word with
  | none =>
      rw [hsplit] at h
      rcases List.append_eq_singleton_iff.mp h.symm with ⟨hnil, _⟩ | ⟨_, hnil⟩
      · exact absurd hnil hfront
      · exact absurd hnil hback
  | some pieces =>
      rw [hsplit] at h
      rcases List.map_eq_append_iff.mp h with ⟨first, second, hpieces, rfl, rfl⟩
      rcases SymbolTable.splitWord?_spelled hsplit first second hpieces with ⟨hfirst, hsecond⟩
      have hne : forall others : List Token, others.map ofName ≠ [] -> others ≠ [] :=
        fun others hothers hnil => hothers (List.map_eq_nil_iff.mpr hnil)
      exact ⟨ofWord_spelled (hne first hfront) hfirst, ofWord_spelled (hne second hback) hsecond⟩

/-!
## The whole text
-/

/-- A lexeme that is cut out by the rules for numbers, whether it is a number or not. -/
def IsNumeric (lexeme : Lexeme) : Prop :=
  exists c cs, lexeme.slice = c :: cs ∧ startsNumber c = true

/-- The last of the lexemes is a single angle mark, directly behind a numeric one. -/
def EndsInLooseMark (lexemes : List Lexeme) : Prop :=
  exists before numeric mark c, lexemes = before ++ [numeric, mark] ∧ numeric.IsNumeric ∧
    mark.slice = [c] ∧ Sexagesimal.isMark c = true

theorem EndsInLooseMark.append {lexemes : List Lexeme} (front : List Lexeme)
    (h : EndsInLooseMark lexemes) : EndsInLooseMark (front ++ lexemes) := by
  rcases h with ⟨before, numeric, mark, c, rfl, hmark⟩
  exact ⟨front ++ before, numeric, mark, c, (List.append_assoc _ _ _).symm, hmark⟩

theorem flatMap_slice_ne_nil {lexemes : List Lexeme}
    (hslices : forall lexeme, lexeme ∈ lexemes -> lexeme.slice ≠ []) (h : lexemes ≠ []) :
    lexemes.flatMap Lexeme.slice ≠ [] := by
  rcases List.exists_mem_of_ne_nil lexemes h with ⟨lexeme, hlexeme⟩
  intro hnil
  exact hslices lexeme hlexeme (List.flatMap_eq_nil_iff.mp hnil lexeme hlexeme)

theorem eq_singleton_of_flatMap_slice {lexemes : List Lexeme} {c : Char}
    (hslices : forall lexeme, lexeme ∈ lexemes -> lexeme.slice ≠ [])
    (h : lexemes.flatMap Lexeme.slice = [c]) :
    exists lexeme, lexemes = [lexeme] ∧ lexeme.slice = [c] := by
  cases lexemes with
  | nil => cases h
  | cons lexeme rest =>
      rw [List.flatMap_cons] at h
      rcases List.append_eq_singleton_iff.mp h with ⟨hnil, _⟩ | ⟨hslice, hrest⟩
      · exact absurd hnil (hslices lexeme List.mem_cons_self)
      · refine ⟨lexeme, ?_, hslice⟩
        by_contra hne
        have hcons : rest ≠ [] := fun hnil => hne (by rw [hnil])
        exact flatMap_slice_ne_nil
          (fun other hother => hslices other (List.mem_cons_of_mem lexeme hother)) hcons hrest

theorem isAlphabetic_of_head_eq_append {c : Char} {cs : List Char} {front more : List Lexeme}
    (hfront : front ≠ []) (hmore : more ≠ []) (h : (head table c cs).1 = front ++ more) :
    Text.isAlphabetic c = true := by
  have hlength := congrArg List.length h
  have hfirst := List.length_pos_iff.mpr hfront
  have hsecond := List.length_pos_iff.mpr hmore
  rw [List.length_append] at hlength
  rcases start_cases c with hnumber | hletter | hblank | ⟨hnumber, hletter, hblank⟩
  · rw [head_number hnumber, List.length_singleton] at hlength
    omega
  · exact hletter
  · rw [head_blank hblank, List.length_singleton] at hlength
    omega
  · rw [head_character hnumber hletter hblank, List.length_singleton] at hlength
    omega

theorem scan_cut_word {c : Char} {cs : List Char} {front more : List Lexeme}
    (hletter : Text.isAlphabetic c = true) (hfront : front ≠ []) (hmore : more ≠ [])
    (h : (head table c cs).1 = front ++ more) :
    scan table (front.flatMap Lexeme.slice) = front ∧
      scan table (more.flatMap Lexeme.slice ++ (head table c cs).2) =
        more ++ scan table (head table c cs).2 := by
  have hslices : forall lexeme, lexeme ∈ front ++ more -> lexeme.slice ≠ [] :=
    fun lexeme hlexeme => (isFaithful_of_mem_head (h ▸ hlexeme)).slice_ne_nil
  rw [head_letter hletter] at h ⊢
  have hword : forall d, d ∈ (front ++ more).flatMap Lexeme.slice -> Text.isAlphabetic d = true := by
    rw [← h, flatMap_slice_ofWord]
    intro d hd
    exact of_mem_cons_takeWhile hletter hd
  rw [List.flatMap_append] at hword
  rcases ofWord_cut (List.cons_ne_nil _ _) hfront hmore h with ⟨hfirst, hsecond⟩
  constructor
  · have hne := flatMap_slice_ne_nil
      (fun lexeme hlexeme => hslices lexeme (List.mem_append_left more hlexeme)) hfront
    have hletters := fun d hd => hword d (List.mem_append_left _ hd)
    have hscan : scan table (front.flatMap Lexeme.slice ++ []) = _ := scan_word hne hletters rfl
    rwa [hfirst, scan, List.append_nil, List.append_nil] at hscan
  · have hne := flatMap_slice_ne_nil
      (fun lexeme hlexeme => hslices lexeme (List.mem_append_right front hlexeme)) hmore
    have hletters := fun d hd => hword d (List.mem_append_right _ hd)
    rw [scan_word hne hletters (startsWord_dropWhile cs), hsecond]

/-- Behind a number the lexemes up to a cut end the number, as they do in the whole text. -/
theorem endsNumber_of_not_endsInLooseMark {c : Char} {cs : List Char} {more back : List Lexeme}
    (hnumber : startsNumber c = true) (hrest : scan table (head table c cs).2 = more ++ back)
    (hmark : ¬ EndsInLooseMark ((head table c cs).1 ++ more)) :
    NumericRun.EndsNumber (more.flatMap Lexeme.slice) := by
  rw [head_number hnumber] at hrest hmark
  have hbegins : more.flatMap Lexeme.slice <+: (NumericRun.read (c == '.') cs).rest := by
    refine ⟨back.flatMap Lexeme.slice, ?_⟩
    rw [← List.flatMap_append, ← hrest, flatMap_slice_scan]
  refine (NumericRun.endsNumber_rest (c == '.') cs).of_beginning hbegins ?_
  intro d hd
  have hslices : forall lexeme, lexeme ∈ more -> lexeme.slice ≠ [] := by
    intro lexeme hlexeme
    exact (isFaithful_of_mem_scan (hrest ▸ List.mem_append_left back hlexeme)).slice_ne_nil
  rcases eq_singleton_of_flatMap_slice hslices hd with ⟨mark, rfl, hslice⟩
  by_contra hne
  refine hmark ⟨[], _, mark, d, rfl, ⟨c, _, slice_ofNumeric _, hnumber⟩, hslice, ?_⟩
  exact Bool.eq_true_of_not_eq_false hne

/-- A text may be cut between two of its lexemes. The second part has the lexemes that it had in
the text, and so has the first one, unless it ends in a loose angle mark. -/
theorem scan_cut (text : List Char) {front back : List Lexeme}
    (h : scan table text = front ++ back) :
    (¬ EndsInLooseMark front -> scan table (front.flatMap Lexeme.slice) = front) ∧
      scan table (back.flatMap Lexeme.slice) = back := by
  induction text using scan.induct table generalizing front with
  | case1 =>
      rw [scan] at h
      rcases List.append_eq_nil_iff.mp h.symm with ⟨rfl, rfl⟩
      exact ⟨fun _ => scan.eq_1 table, scan.eq_1 table⟩
  | case2 c cs ih =>
      -- A cut behind the first lexemes is a cut of what follows them.
      have hbehind : forall more, front = (head table c cs).1 ++ more ->
          scan table (head table c cs).2 = more ++ back ->
          (¬ EndsInLooseMark front -> scan table (front.flatMap Lexeme.slice) = front) ∧
            scan table (back.flatMap Lexeme.slice) = back := by
        rintro more rfl hrest
        rcases ih hrest with ⟨hmore, hback⟩
        refine ⟨fun hmark => ?_, hback⟩
        have hbegins : more.flatMap Lexeme.slice <+: (head table c cs).2 := by
          refine ⟨back.flatMap Lexeme.slice, ?_⟩
          rw [← List.flatMap_append, ← hrest, flatMap_slice_scan]
        have hends := fun hnumber => endsNumber_of_not_endsInLooseMark hnumber hrest hmark
        rw [List.flatMap_append, scan_head_append hbegins hends,
          hmore (fun hloose => hmark (hloose.append _))]
      have htext := h
      rw [scan] at h
      rcases List.append_eq_append_iff.mp h with ⟨more, hfront, hrest⟩ | ⟨more, hhead, rfl⟩
      · exact hbehind more hfront hrest
      · by_cases hfront : front = []
        · subst hfront
          rw [List.nil_append] at htext
          rw [← htext, flatMap_slice_scan]
          exact ⟨fun _ => scan.eq_1 table, rfl⟩
        · by_cases hmore : more = []
          · subst hmore
            exact hbehind [] (by rw [hhead]; simp) rfl
          · have hletter := isAlphabetic_of_head_eq_append hfront hmore hhead
            rw [List.flatMap_append, flatMap_slice_scan]
            rcases scan_cut_word hletter hfront hmore hhead with ⟨hfirst, hsecond⟩
            exact ⟨fun _ => hfirst, hsecond⟩

end Lexeme
end AngleCalc
