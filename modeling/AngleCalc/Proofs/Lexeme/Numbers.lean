import AngleCalc.Proofs.Decimal.Canonical
import AngleCalc.Proofs.Lexeme.Boundaries
import AngleCalc.Proofs.Lexeme.Tokens
import AngleCalc.Proofs.Sexagesimal.Order

/-!
# Numbers that are read again

The token of a number holds a canonical text of a number that is not negative, since
no sign is part of a numeric slice. Read once more, such a text is one token, and the
token holds the same text.
-/

namespace AngleCalc

/-!
## Unsigned texts
-/

namespace Decimal

theorem readSign_of_unsigned {cs : List Char} (h : '-' ∉ cs) :
    (Numeral.readSign cs).1 = false := by
  unfold Numeral.readSign
  split
  · exact absurd List.mem_cons_self h
  · rfl
  · rfl

theorem readChars?_nonneg {cs : List Char} {value : Rat} (hunsigned : '-' ∉ cs)
    (h : readChars? cs = some value) : 0 ≤ value := by
  unfold readChars? at h
  cases hread : Numeral.read? cs with
  | none =>
      rw [hread] at h
      cases h
  | some numeral =>
      have hnegative : numeral.negative = false := by
        simp only [Numeral.read?] at hread
        split at hread
        · cases hread
        · split at hread
          · cases hread
          · cases hread
            exact readSign_of_unsigned hunsigned
      simp only [hread] at h
      split at h
      · cases h
        have hsize : (0 : Rat) ≤ numeral.magnitude * (10 : Rat) ^ numeral.scale :=
          mul_nonneg (Nat.cast_nonneg _) (zpow_nonneg (by norm_num) _)
        simpa [Numeral.value, hnegative] using hsize
      · cases h

end Decimal

namespace Sexagesimal

theorem readComponent_nonneg {marks cs rest : List Char} {value : Rat}
    (hunsigned : '-' ∉ cs) (h : readComponent marks cs = .ok (value, rest)) :
    0 ≤ value ∧ '-' ∉ rest := by
  unfold readComponent at h
  split at h
  · cases h
    exact ⟨le_refl 0, List.not_mem_nil⟩
  · split at h
    · rename_i hread
      cases h
      exact ⟨Decimal.readChars?_nonneg hunsigned hread, List.not_mem_nil⟩
    · simp only at h
      split at h
      · cases h
        exact ⟨le_refl 0, hunsigned⟩
      · rename_i mark after hdrop
        have hafter : '-' ∉ after := by
          intro hmem
          apply hunsigned
          apply (List.dropWhile_suffix (fun c => !marks.contains c)).subset
          rw [hdrop]
          exact List.mem_cons_of_mem mark hmem
        split at h
        · cases h
          exact ⟨le_refl 0, hafter⟩
        · split at h
          · rename_i hread
            cases h
            refine ⟨Decimal.readChars?_nonneg ?_ hread, hafter⟩
            exact fun hmem => hunsigned ((List.takeWhile_prefix _).subset hmem)
          · cases h

theorem ReadsAll.nonneg {units : List AngleUnit} {cs : List Char} {values : List Rat}
    (hunsigned : '-' ∉ cs) (h : ReadsAll units cs values) :
    forall value, value ∈ values -> 0 ≤ value := by
  induction h with
  | done => simp
  | next hread _ ih =>
      rcases readComponent_nonneg hunsigned hread with ⟨hpos, hrest⟩
      rw [List.forall_mem_cons]
      exact ⟨hpos, ih hrest⟩

theorem readChars_nonneg {cs : List Char} {value : Rat} (hunsigned : '-' ∉ cs)
    (h : readChars cs = .ok value) : 0 ≤ value := by
  rcases readChars_eq_ok_iff.mp h with ⟨degrees, minutes, seconds, hreads, rfl⟩
  have hnonneg := hreads.nonneg hunsigned
  have hdegrees : 0 ≤ degrees := hnonneg degrees (by simp)
  have hminutes : 0 ≤ minutes := hnonneg minutes (by simp)
  have hseconds : 0 ≤ seconds := hnonneg seconds (by simp)
  unfold combine
  positivity

theorem readChars_of_readChars? {cs : List Char} {value : Rat}
    (h : Decimal.readChars? cs = some value) : readChars cs = .ok value := by
  have hcs : cs.isEmpty = false := by
    cases cs with
    | nil => cases h
    | cons c rest => rfl
  have hcomponent : readComponent degreeMarks cs = .ok (value, []) := by
    simp [readComponent, hcs, h]
  have hvalue : combine value 0 0 = value := by
    simp [combine]
  unfold readChars
  rw [hcomponent]
  exact congrArg Except.ok hvalue

end Sexagesimal

/-!
## Numeric slices
-/

namespace NumericRun

theorem cons_read {c : Char} (cs : List Char) (h : Lexeme.startsNumber c = true) :
    (read (c == '.') cs).cons c = read false (c :: cs) := by
  rcases Bool.or_eq_true_iff.mp h with hdigit | hpoint
  · have hne : (c == '.') = false := beq_false_of_ne (ne_of_isDigit hdigit rfl)
    rw [read, if_pos hdigit, hne]
  · rw [eq_of_beq hpoint]
    rfl

theorem read_digits (point : Bool) {digits : List Char}
    (h : forall c, c ∈ digits -> c.isDigit = true) :
    read point digits = ⟨digits, [], false, false⟩ := by
  induction digits with
  | nil => rfl
  | cons c digits ih =>
      rw [read, if_pos (h c List.mem_cons_self),
        ih (fun d hd => h d (List.mem_cons_of_mem c hd))]
      rfl

theorem read_point {whole fraction : List Char}
    (hwhole : forall c, c ∈ whole -> c.isDigit = true)
    (hfraction : forall c, c ∈ fraction -> c.isDigit = true) :
    read false (whole ++ '.' :: fraction) = ⟨whole ++ '.' :: fraction, [], false, false⟩ := by
  induction whole with
  | nil =>
      rw [List.nil_append, read, read_digits true hfraction]
      rfl
  | cons c whole ih =>
      rw [List.cons_append, read, if_pos (hwhole c List.mem_cons_self),
        ih (fun d hd => hwhole d (List.mem_cons_of_mem c hd))]
      rfl

theorem read_body (spelling : Spelling) :
    read false spelling.body = ⟨spelling.body, [], false, false⟩ := by
  unfold Spelling.body Spelling.pointed
  split
  · rw [List.append_nil]
    exact read_digits false spelling.isDigit_whole
  · exact read_point spelling.isDigit_whole spelling.isDigit_fraction

end NumericRun

namespace Lexeme

variable {table : SymbolTable}

/-- A text that is a single numeric slice, and a number as a whole, is one token. -/
theorem visible_numeral {c : Char} {cs : List Char} {value : Rat}
    (hstarts : startsNumber c = true)
    (hrun : NumericRun.read false (c :: cs) = ⟨c :: cs, [], false, false⟩)
    (hread : Decimal.readChars? (c :: cs) = some value) :
    visible table (c :: cs) = [.number (Decimal.toText value)] := by
  have hrest : (NumericRun.read (c == '.') cs).rest = [] := by
    have h := congrArg NumericRun.rest hrun
    rwa [← NumericRun.cons_read cs hstarts] at h
  have htoken : (ofNumeric ⟨c :: cs, [], false, false⟩).token =
      .number (Decimal.toText value) := by
    simp [ofNumeric, Sexagesimal.readChars_of_readChars? hread]
  rw [visible_number cs hstarts, NumericRun.cons_read cs hstarts, hrun, htoken, hrest,
    visible_nil]

theorem visible_spelling {spelling : Spelling} (hsign : spelling.negative = false)
    (hlength : spelling.fraction.length ≤ Numeral.maxScale) :
    visible table spelling.chars = [.number (Decimal.toText spelling.numeral.value)] := by
  have hchars := spelling.chars_eq_body hsign
  have hread := spelling.readChars?_chars hlength
  have hrun := NumericRun.read_body spelling
  rw [hchars] at hread ⊢
  cases hbody : spelling.body with
  | nil => simp [Spelling.body, spelling.whole_ne_nil] at hbody
  | cons c rest =>
      have hstarts : startsNumber c = true := by
        rcases spelling.mem_body (hbody ▸ List.mem_cons_self) with hdigit | rfl
        · exact Bool.or_eq_true_iff.mpr (.inl hdigit)
        · rfl
      rw [hbody] at hread hrun
      exact visible_numeral hstarts hrun hread

theorem visible_toText {x : Rat} (h : 0 ≤ x) :
    visible table (Decimal.toText x).toList = [.number (Decimal.toText x)] := by
  have hlength : (Decimal.canonicalSpelling x).fraction.length ≤ Numeral.maxScale :=
    (Decimal.length_fraction_canonicalSpelling x).trans (by decide)
  rw [Decimal.toList_toText, visible_spelling (Decimal.negative_canonicalSpelling h) hlength,
    Decimal.value_canonicalSpelling, Decimal.toText_rounded]

theorem exists_toText_of_ofNumeric {run : NumericRun} (hunsigned : '-' ∉ run.slice)
    (h : (ofNumeric run).token.kind = .number) :
    exists x, 0 ≤ x ∧ (ofNumeric run).token = .number (Decimal.toText x) := by
  unfold ofNumeric at h ⊢
  split
  · rename_i hmalformed
    simp [hmalformed] at h
  · rename_i hmalformed
    cases hread : Sexagesimal.readChars run.slice with
    | error failure => simp [hmalformed, hread] at h
    | ok value => exact ⟨value, Sexagesimal.readChars_nonneg hunsigned hread, rfl⟩

end Lexeme
end AngleCalc
