import AngleCalc.Proofs.Sexagesimal.Components

/-!
# Reading one component of an angle

A component takes everything if there is no mark any more, the stretch in front of the first
mark if this is its own, and nothing if it has no mark. A mark of its own behind another one is
a failure.
-/

namespace AngleCalc
namespace Sexagesimal

open AngleUnit Numeral

variable {cs front rest : List Char} {mark : Char} {unit : AngleUnit}

/-!
## Numbers and marks
-/

theorem isPlain_of_unmarked (h : IsLiteral cs) (hmarks : forall c, c ∈ cs -> isMark c = false)
    (hne : cs ≠ []) : IsPlain cs := by
  refine ⟨hne, ?_, ?_⟩
  · intro c hc
    rcases h.left c hc with hdigit | hpoint | hmark
    · exact .inl hdigit
    · exact .inr hpoint
    · rw [hmarks c hc] at hmark
      cases hmark
  · exact (h.right cs (by rw [stretches_of_unmarked hmarks]; exact List.mem_cons_self)).left

theorem readChars?_of_unmarked (h : IsLiteral cs) (hmarks : forall c, c ∈ cs -> isMark c = false)
    (hne : cs ≠ []) : Decimal.readChars? cs = some (plainValue cs) := by
  have hlength := h.right cs (by rw [stretches_of_unmarked hmarks]; exact List.mem_cons_self)
  rw [Decimal.readChars?_of_isPlain (isPlain_of_unmarked h hmarks hne), if_pos hlength.right]
  rfl

theorem plainValue_nil : plainValue [] = 0 := by
  decide +kernel

theorem isMark_of_isNumeralChar {c : Char} (h : IsNumeralChar c) : isMark c = false := by
  rcases h with hdigit | hother
  · exact isMark_of_isDigit hdigit
  · have hall : ['.', '+', '-', 'e', 'E'].all (fun d => !isMark d) = true := by decide
    simpa using List.all_eq_true.mp hall c hother

theorem isMark_of_readChars? {value : Rat} (h : Decimal.readChars? cs = some value) :
    forall c, c ∈ cs -> isMark c = false :=
  fun c hc => isMark_of_isNumeralChar (Decimal.isNumeralChar_of_readChars? h c hc)

theorem readChars?_eq_none_of_mark (hmem : mark ∈ cs) (hmark : isMark mark = true) :
    Decimal.readChars? cs = none := by
  cases hread : Decimal.readChars? cs with
  | none => rfl
  | some value =>
      rw [isMark_of_readChars? hread mark hmem] at hmark
      cases hmark

/-!
## One component
-/

theorem readComponent_of_unmarked (h : IsLiteral cs) (hmarks : forall c, c ∈ cs -> isMark c = false)
    (marks : List Char) : readComponent marks cs = .ok (plainValue cs, []) := by
  by_cases hne : cs = []
  · subst hne
    rw [plainValue_nil]
    rfl
  · simp [readComponent, hne, readChars?_of_unmarked h hmarks hne]

theorem readComponent_of_mark (hmem : mark ∈ cs) (hmark : isMark mark = true)
    (marks : List Char) :
    readComponent marks cs =
      match cs.dropWhile (fun c => !marks.contains c) with
      | [] => .ok (0, cs)
      | _ :: rest =>
          if (cs.takeWhile (fun c => !marks.contains c)).isEmpty then .ok (0, rest)
          else
            match Decimal.readChars? (cs.takeWhile (fun c => !marks.contains c)) with
            | some value => .ok (value, rest)
            | none => .error (.badNumber (String.ofList
                (cs.takeWhile (fun c => !marks.contains c)))) := by
  have hne : cs.isEmpty = false := by
    rw [List.isEmpty_eq_false_iff]
    exact List.ne_nil_of_mem hmem
  simp only [readComponent, hne, readChars?_eq_none_of_mark hmem hmark]
  rfl

theorem not_contains_marks {c : Char} (h : ofMark? c ≠ some unit) :
    (!unit.marks.contains c) = true := by
  rw [Bool.not_eq_true', ← Bool.not_eq_true, contains_marks_iff]
  exact h

theorem ofMark?_ne_of_unmarked {c : Char} (h : isMark c = false) : ofMark? c ≠ some unit := by
  intro hunit
  rw [isMark_of_ofMark? hunit] at h
  cases h

theorem readComponent_of_own_mark (hfront : forall c, c ∈ front -> isMark c = false)
    (hmark : ofMark? mark = some unit) {value : Rat}
    (hvalue : if front = [] then value = 0 else Decimal.readChars? front = some value) :
    readComponent unit.marks (front ++ mark :: rest) = .ok (value, rest) := by
  have hpass : forall c, c ∈ front -> (!unit.marks.contains c) = true :=
    fun c hc => not_contains_marks (ofMark?_ne_of_unmarked (hfront c hc))
  have hstop : unit.marks.contains mark = true := contains_marks_iff.mpr hmark
  have htake : (front ++ mark :: rest).takeWhile (fun c => !unit.marks.contains c) = front := by
    rw [List.takeWhile_append_of_pos hpass, List.takeWhile_cons, hstop, Bool.not_true,
      if_neg Bool.false_ne_true, List.append_nil]
  have hdrop : (front ++ mark :: rest).dropWhile (fun c => !unit.marks.contains c) =
      mark :: rest := by
    rw [List.dropWhile_append_of_pos hpass, List.dropWhile_cons, hstop, Bool.not_true,
      if_neg Bool.false_ne_true]
  rw [readComponent_of_mark (List.mem_append_right front List.mem_cons_self)
    (isMark_of_ofMark? hmark), htake, hdrop]
  by_cases hne : front = []
  · rw [if_pos hne] at hvalue
    subst hvalue
    simp [hne]
  · rw [if_neg hne] at hvalue
    simp [hne, hvalue]

theorem readComponent_number (hmark : ofMark? mark = some unit) {value : Rat}
    (hread : Decimal.readChars? front = some value) :
    readComponent unit.marks (front ++ mark :: rest) = .ok (value, rest) := by
  apply readComponent_of_own_mark (isMark_of_readChars? hread) hmark
  split
  · rename_i hnil
    subst hnil
    cases hread
  · exact hread

theorem readComponent_of_first_mark (h : IsLiteral (front ++ mark :: rest))
    (hfront : forall c, c ∈ front -> isMark c = false) (hmark : ofMark? mark = some unit) :
    readComponent unit.marks (front ++ mark :: rest) = .ok (plainValue front, rest) := by
  apply readComponent_of_own_mark hfront hmark
  split
  · rename_i hnil
    rw [hnil, plainValue_nil]
  · rename_i hne
    exact readChars?_of_unmarked (h.of_append_cons hfront hmark).left hfront hne

theorem readComponent_of_later_mark {other : AngleUnit}
    (hfront : forall c, c ∈ front -> isMark c = false) (hmark : ofMark? mark = some other)
    (hne : other ≠ unit) :
    (unit ∉ markedUnits rest -> readComponent unit.marks (front ++ mark :: rest) =
      .ok (0, front ++ mark :: rest)) ∧
    (unit ∈ markedUnits rest -> forall value after,
      readComponent unit.marks (front ++ mark :: rest) ≠ .ok (value, after)) := by
  have hmem : mark ∈ front ++ mark :: rest := List.mem_append_right front List.mem_cons_self
  have hpass : (!unit.marks.contains mark) = true := by
    apply not_contains_marks
    rw [hmark]
    exact fun heq => hne (Option.some.inj heq)
  have hpassFront : forall c, c ∈ front -> (!unit.marks.contains c) = true :=
    fun c hc => not_contains_marks (ofMark?_ne_of_unmarked (hfront c hc))
  rw [readComponent_of_mark hmem (isMark_of_ofMark? hmark)]
  constructor
  · intro hunit
    have hdrop : (front ++ mark :: rest).dropWhile (fun c => !unit.marks.contains c) = [] := by
      rw [List.dropWhile_eq_nil_iff]
      intro c hc
      rcases List.mem_append.mp hc with hc | hc
      · exact hpassFront c hc
      · rcases List.mem_cons.mp hc with rfl | hc
        · exact hpass
        · apply not_contains_marks
          exact fun hother => hunit (List.mem_filterMap.mpr ⟨c, hc, hother⟩)
    rw [hdrop]
  · intro hunit value after hread
    rcases List.mem_filterMap.mp hunit with ⟨c, hc, hother⟩
    have htake : mark ∈ (front ++ mark :: rest).takeWhile (fun c => !unit.marks.contains c) := by
      rw [List.takeWhile_append_of_pos hpassFront, List.takeWhile_cons, hpass, if_pos rfl]
      exact List.mem_append_right front List.mem_cons_self
    -- The first mark is among what should be the digits of the component.
    have hnone : Decimal.readChars?
        ((front ++ mark :: rest).takeWhile (fun c => !unit.marks.contains c)) = none :=
      readChars?_eq_none_of_mark htake (isMark_of_ofMark? hmark)
    cases hdrop : (front ++ mark :: rest).dropWhile (fun c => !unit.marks.contains c) with
    | nil =>
        have hall := List.dropWhile_eq_nil_iff.mp hdrop c
          (List.mem_append_right front (List.mem_cons_of_mem mark hc))
        rw [contains_marks_iff.mpr hother] at hall
        cases hall
    | cons first others =>
        rw [hdrop, hnone] at hread
        simp only [List.isEmpty_eq_false_iff.mpr (List.ne_nil_of_mem htake)] at hread
        cases hread

end Sexagesimal
end AngleCalc
