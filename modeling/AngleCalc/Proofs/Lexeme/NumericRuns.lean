import AngleCalc.Proofs.Lexeme.Slices

/-!
# Numeric slices

A numeric slice takes digits, points, and those angle marks that no letter follows, as many as
there are. It is malformed if one of its components has a second point. What follows it decides
where it ends, and nothing else: the same slice is read in front of any text that ends a number.
-/

namespace AngleCalc

namespace Lexeme

def startsWord (cs : List Char) : Bool :=
  (cs.head?.map Text.isAlphabetic).getD false

theorem startsWord_dropWhile (cs : List Char) :
    startsWord (cs.dropWhile Text.isAlphabetic) = false := by
  cases hdrop : cs.dropWhile Text.isAlphabetic with
  | nil => rfl
  | cons c rest =>
      have hhead := List.head_dropWhile_not Text.isAlphabetic (l := cs) (by simp [hdrop])
      simpa [startsWord, hdrop] using hhead

end Lexeme

namespace NumericRun

open Lexeme (startsNumber startsWord)

/-- A number in front of the text ends there: no digit and no point comes next, and an angle
mark only if a letter follows it. -/
def EndsNumber : List Char -> Prop
  | [] => True
  | c :: cs => startsNumber c = false ∧ (Sexagesimal.isMark c = true -> startsWord cs = true)

/-!
## One character
-/

theorem read_of_endsNumber (point : Bool) {cs : List Char} (h : EndsNumber cs) :
    read point cs = ⟨[], cs, false, false⟩ := by
  cases cs with
  | nil => rfl
  | cons c cs =>
      rcases h with ⟨hstarts, hletter⟩
      rcases Bool.or_eq_false_iff.mp hstarts with ⟨hdigit, hpoint⟩
      cases hmark : Sexagesimal.isMark c with
      | false => simp [read, hdigit, ne_of_beq_false hpoint, hmark]
      | true =>
          have hnext : (cs.head?.map Text.isAlphabetic).getD false = true := hletter hmark
          simp [read, hdigit, ne_of_beq_false hpoint, hmark, hnext]

theorem read_digit_cons (point : Bool) {c : Char} (h : c.isDigit = true) (cs : List Char) :
    read point (c :: cs) = (read point cs).cons c := by
  rw [read, if_pos h]

theorem read_point_cons (point : Bool) (cs : List Char) :
    read point ('.' :: cs) =
      { (read true cs).cons '.' with malformed := point || (read true cs).malformed } := rfl

theorem not_startsNumber_of_isMark {c : Char} (h : Sexagesimal.isMark c = true) :
    startsNumber c = false := by
  by_contra hstarts
  rw [Lexeme.isMark_of_startsNumber (Bool.eq_true_of_not_eq_false hstarts)] at h
  cases h

theorem read_mark_cons (point : Bool) {c : Char} (h : Sexagesimal.isMark c = true) {cs : List Char}
    (hnext : startsWord cs = false) :
    read point (c :: cs) = { (read false cs).cons c with marked := true } := by
  rcases Bool.or_eq_false_iff.mp (not_startsNumber_of_isMark h) with ⟨hdigit, hpoint⟩
  have hletter : (cs.head?.map Text.isAlphabetic).getD false = false := hnext
  simp [read, hdigit, ne_of_beq_false hpoint, h, hletter, cons]

theorem endsNumber_or (c : Char) (cs : List Char) :
    EndsNumber (c :: cs) ∨ c.isDigit = true ∨ c = '.' ∨
      (Sexagesimal.isMark c = true ∧ startsWord cs = false) := by
  cases hstarts : startsNumber c with
  | true =>
      rcases Bool.or_eq_true_iff.mp hstarts with hdigit | hpoint
      · exact .inr (.inl hdigit)
      · exact .inr (.inr (.inl (eq_of_beq hpoint)))
  | false =>
      by_cases hgoes : Sexagesimal.isMark c = true ∧ startsWord cs = false
      · exact .inr (.inr (.inr hgoes))
      · refine .inl ⟨hstarts, fun hmark => ?_⟩
        exact Bool.eq_true_of_not_eq_false fun hnext => hgoes ⟨hmark, hnext⟩

/-- What holds where a number ends, and is carried over each character of a numeric slice, holds
of every text. -/
theorem read_induction {motive : Bool -> List Char -> Prop}
    (stop : forall point cs, EndsNumber cs -> motive point cs)
    (digit : forall point c cs, c.isDigit = true -> motive point cs -> motive point (c :: cs))
    (point : forall point cs, motive true cs -> motive point ('.' :: cs))
    (mark : forall point c cs, Sexagesimal.isMark c = true -> startsWord cs = false ->
      motive false cs -> motive point (c :: cs))
    (start : Bool) (cs : List Char) : motive start cs := by
  induction cs generalizing start with
  | nil => exact stop start [] trivial
  | cons c cs ih =>
      rcases endsNumber_or c cs with hends | hdigit | rfl | ⟨hmark, hnext⟩
      · exact stop start (c :: cs) hends
      · exact digit start c cs hdigit (ih start)
      · exact point start cs (ih true)
      · exact mark start c cs hmark hnext (ih false)

/-!
## The characters of a slice
-/

theorem endsNumber_rest (start : Bool) (cs : List Char) : EndsNumber (read start cs).rest := by
  induction start, cs using read_induction with
  | stop start cs h => rwa [read_of_endsNumber start h]
  | digit start c cs h ih => rwa [read_digit_cons start h]
  | point start cs ih => exact ih
  | mark start c cs h hnext ih =>
      rw [read_mark_cons start h hnext]
      exact ih

theorem startsNumber_or_isMark_of_mem_slice {d : Char} (start : Bool) (cs : List Char)
    (hd : d ∈ (read start cs).slice) : startsNumber d = true ∨ Sexagesimal.isMark d = true := by
  induction start, cs using read_induction with
  | stop start cs h =>
      rw [read_of_endsNumber start h] at hd
      cases hd
  | digit start c cs h ih =>
      rw [read_digit_cons start h] at hd
      rcases List.mem_cons.mp hd with rfl | hrest
      · exact .inl (Bool.or_eq_true_iff.mpr (.inl h))
      · exact ih hrest
  | point start cs ih =>
      rcases List.mem_cons.mp hd with rfl | hrest
      · exact .inl rfl
      · exact ih hrest
  | mark start c cs h hnext ih =>
      rw [read_mark_cons start h hnext] at hd
      rcases List.mem_cons.mp hd with rfl | hrest
      · exact .inr h
      · exact ih hrest

theorem startsWord_of_mark_mem_slice {d : Char} (start : Bool) (cs : List Char)
    {front back : List Char} (hslice : (read start cs).slice = front ++ d :: back)
    (hd : Sexagesimal.isMark d = true) : startsWord (back ++ (read start cs).rest) = false := by
  induction start, cs using read_induction generalizing front with
  | stop start cs h =>
      rw [read_of_endsNumber start h] at hslice
      simp at hslice
  | digit start c cs h ih =>
      rw [read_digit_cons start h] at hslice ⊢
      cases front with
      | nil =>
          cases hslice
          rw [Sexagesimal.isMark_of_isDigit h] at hd
          cases hd
      | cons e front => exact ih (List.cons.inj hslice).right
  | point start cs ih =>
      cases front with
      | nil =>
          cases hslice
          exact absurd hd (by decide)
      | cons e front => exact ih (List.cons.inj hslice).right
  | mark start c cs h hnext ih =>
      rw [read_mark_cons start h hnext] at hslice ⊢
      cases front with
      | nil =>
          cases hslice
          have htext := slice_append_rest false cs
          exact htext.symm ▸ hnext
      | cons e front => exact ih (List.cons.inj hslice).right

/-!
## A second point
-/

def HasSecondPoint (cs : List Char) : Prop :=
  exists stretch, stretch ∈ Sexagesimal.stretches cs ∧ 2 ≤ stretch.count '.'

theorem stretches_mark_cons {c : Char} (h : Sexagesimal.isMark c = true) (cs : List Char) :
    Sexagesimal.stretches (c :: cs) = [] :: Sexagesimal.stretches cs :=
  List.splitOnP_append_cons_of_forall_mem (fun _ hd => absurd hd List.not_mem_nil) c h cs

theorem exists_stretches_cons {c : Char} (h : Sexagesimal.isMark c = false) (cs : List Char) :
    exists first more, Sexagesimal.stretches cs = first :: more ∧
      Sexagesimal.stretches (c :: cs) = (c :: first) :: more := by
  rcases List.exists_cons_of_ne_nil (List.splitOnP_ne_nil Sexagesimal.isMark cs) with
    ⟨first, more, hcs⟩
  refine ⟨first, more, hcs, ?_⟩
  rw [Sexagesimal.stretches, List.splitOnP_cons_eq_if_modifyHead, hcs, h]
  rfl

/-- A slice is malformed if one of its components has a second point, the first one counted
together with the point in front of it. -/
theorem malformed_read_iff_of_stretches (start : Bool) (cs : List Char) {first : List Char}
    {more : List (List Char)}
    (h : Sexagesimal.stretches (read start cs).slice = first :: more) :
    (read start cs).malformed = true ↔
      2 ≤ start.toNat + first.count '.' ∨ exists stretch, stretch ∈ more ∧ 2 ≤ stretch.count '.' := by
  induction start, cs using read_induction generalizing first more with
  | stop start cs hends =>
      rw [read_of_endsNumber start hends] at h ⊢
      have hnil : Sexagesimal.stretches [] = [[]] := List.splitOnP_nil
      cases hnil.symm.trans h
      have hle := start.toNat_le
      rw [List.count_nil]
      constructor
      · intro hfalse
        cases hfalse
      · rintro (hcount | ⟨stretch, hmem, _⟩)
        · omega
        · cases hmem
  | digit start c cs hdigit ih =>
      rw [read_digit_cons start hdigit] at h ⊢
      rcases exists_stretches_cons (Sexagesimal.isMark_of_isDigit hdigit) (read start cs).slice with
        ⟨rest, others, hrest, hcons⟩
      cases hcons.symm.trans h
      have hcount : (c :: rest).count '.' = rest.count '.' :=
        List.count_cons_of_ne (ne_of_isDigit hdigit rfl)
      rw [hcount]
      exact ih hrest
  | point start cs ih =>
      rcases exists_stretches_cons (c := '.') (by decide) (read true cs).slice with
        ⟨rest, others, hrest, hcons⟩
      cases hcons.symm.trans h
      rw [read_point_cons, Bool.or_eq_true, ih hrest, List.count_cons_self, Bool.toNat_true]
      -- With a point in front, this one is the second.
      cases start with
      | true =>
          have hsecond : 2 ≤ 1 + (rest.count '.' + 1) := by omega
          simp [hsecond]
      | false => simp [Nat.add_comm]
  | mark start c cs hmark hnext ih =>
      rw [read_mark_cons start hmark hnext] at h ⊢
      rw [cons, stretches_mark_cons hmark] at h
      cases h
      rcases List.exists_cons_of_ne_nil
        (List.splitOnP_ne_nil Sexagesimal.isMark (read false cs).slice) with ⟨rest, others, hrest⟩
      have hle := start.toNat_le
      have hfirst : ¬ 2 ≤ start.toNat + ([] : List Char).count '.' := by
        rw [List.count_nil]
        omega
      have hrest' : Sexagesimal.stretches (read false cs).slice = rest :: others := hrest
      rw [hrest', or_iff_right hfirst]
      simpa [cons] using ih hrest'

theorem malformed_read_iff (cs : List Char) :
    (read false cs).malformed = true ↔ HasSecondPoint (read false cs).slice := by
  rcases List.exists_cons_of_ne_nil
    (List.splitOnP_ne_nil Sexagesimal.isMark (read false cs).slice) with ⟨first, more, h⟩
  have hstretches : Sexagesimal.stretches (read false cs).slice = first :: more := h
  rw [malformed_read_iff_of_stretches false cs hstretches, HasSecondPoint, hstretches]
  simp

/-!
## The same slice in front of other texts
-/

theorem startsWord_of_beginning {front cs : List Char} (h : front <+: cs)
    (hcs : startsWord cs = false) : startsWord front = false := by
  rcases h with ⟨back, rfl⟩
  cases front with
  | nil => rfl
  | cons c front => exact hcs

/-- The beginning of a text ends a number like the text, unless it is a single angle mark. -/
theorem EndsNumber.of_beginning {front cs : List Char} (h : EndsNumber cs) (hfront : front <+: cs)
    (hmark : forall c, front = [c] -> Sexagesimal.isMark c = false) : EndsNumber front := by
  rcases hfront with ⟨back, rfl⟩
  cases front with
  | nil => exact trivial
  | cons c front =>
      refine ⟨h.left, fun hc => ?_⟩
      cases front with
      | nil => exact absurd hc (Bool.eq_false_iff.mp (hmark c rfl))
      | cons d front => exact h.right hc

theorem read_slice_append (start : Bool) (cs : List Char) {front : List Char}
    (hfront : front <+: (read start cs).rest) (hends : EndsNumber front) :
    read start ((read start cs).slice ++ front) = { read start cs with rest := front } := by
  induction start, cs using read_induction with
  | stop start cs h =>
      rw [read_of_endsNumber start h]
      exact read_of_endsNumber start hends
  | digit start c cs h ih =>
      rw [read_digit_cons start h] at hfront ⊢
      rw [cons, List.cons_append, read_digit_cons start h, ih hfront]
      rfl
  | point start cs ih =>
      rw [read_point_cons] at hfront ⊢
      rw [cons, List.cons_append, read_point_cons, ih hfront]
      rfl
  | mark start c cs h hnext ih =>
      rw [read_mark_cons start h hnext] at hfront ⊢
      have hrest : front <+: (read false cs).rest := hfront
      -- What follows the mark is the beginning of what followed it before.
      have hbegins : (read false cs).slice ++ front <+: cs := by
        have happend := (List.prefix_append_right_inj (read false cs).slice).mpr hrest
        rwa [slice_append_rest] at happend
      rw [cons, List.cons_append, read_mark_cons start h (startsWord_of_beginning hbegins hnext),
        ih hrest]
      rfl

/-- Digits, points, and angle marks that no letter follows are read as one slice, up to a text
that ends a number. -/
theorem read_append_of_endsNumber (start : Bool) {number after : List Char}
    (hcharacters : forall c, c ∈ number -> startsNumber c = true ∨ Sexagesimal.isMark c = true)
    (hmarks : forall front c back, number = front ++ c :: back -> Sexagesimal.isMark c = true ->
      startsWord (back ++ after) = false) (hends : EndsNumber after) :
    (read start (number ++ after)).slice = number ∧
      (read start (number ++ after)).rest = after := by
  induction number generalizing start with
  | nil =>
      rw [List.nil_append, read_of_endsNumber start hends]
      exact ⟨rfl, rfl⟩
  | cons c number ih =>
      have hih := fun start => ih start
        (fun d hd => hcharacters d (List.mem_cons_of_mem c hd))
        (fun front d back hnumber => hmarks (c :: front) d back (congrArg (List.cons c) hnumber))
      rw [List.cons_append]
      rcases hcharacters c List.mem_cons_self with hstarts | hmark
      · rcases Bool.or_eq_true_iff.mp hstarts with hdigit | hpoint
        · rw [read_digit_cons start hdigit]
          exact ⟨congrArg (List.cons c) (hih start).left, (hih start).right⟩
        · rw [eq_of_beq hpoint, read_point_cons]
          exact ⟨congrArg (List.cons _) (hih true).left, (hih true).right⟩
      · rw [read_mark_cons start hmark (hmarks [] c number rfl hmark)]
        exact ⟨congrArg (List.cons c) (hih false).left, (hih false).right⟩

end NumericRun
end AngleCalc
