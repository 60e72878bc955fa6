import AngleCalc.Proofs.Sexagesimal.Order
import Mathlib.Data.List.Sort
import Mathlib.Data.List.Sublists

/-!
# Sexagesimal literals

A text of digits, points and marks is an angle if and only if its marks are in the order of the
units and nothing stands behind a mark of seconds. Its value is the sum of its components, each
in its unit. Both are the same if a mark is written as the other mark of its unit.
-/

namespace AngleCalc

namespace AngleUnit

def Precedes (unit other : AngleUnit) : Prop :=
  [unit, other].Sublist all

instance (unit other : AngleUnit) : Decidable (Precedes unit other) :=
  inferInstanceAs (Decidable (List.Sublist _ _))

instance : Std.Irrefl Precedes where
  irrefl unit := by cases unit <;> decide

instance : Std.Antisymm Precedes where
  antisymm unit other h hother := by
    cases unit <;> cases other <;> revert h hother <;> decide

theorem mem_all (unit : AngleUnit) : unit ∈ all := by
  cases unit <;> decide

theorem sublist_all_iff {units : List AngleUnit} :
    units.Sublist all ↔ units.Pairwise Precedes := by
  have hall : all.Pairwise Precedes := by decide
  constructor
  · exact fun h => hall.sublist h
  · intro h
    have hsubset : units ⊆ all := fun unit _ => mem_all unit
    exact List.sublist_of_subperm_of_pairwise (List.subperm_of_subset h.nodup hsubset) h hall

theorem next?_all_eq_none_iff {units : List AngleUnit} (h : units.Sublist all) :
    next? all units = none ↔ second ∈ units := by
  have hall : forall units, units ∈ all.sublists ->
      (next? all units = none ↔ second ∈ units) := by
    decide
  exact hall units (List.mem_sublists.mpr h)

end AngleUnit

namespace Sexagesimal

open AngleUnit

/-- The marks of larger units stand in front of the marks of smaller ones, each unit has one mark
at most, and nothing follows a mark of seconds. -/
def InOrder (cs : List Char) : Prop :=
  (markedUnits cs).Pairwise Precedes ∧ (second ∈ markedUnits cs -> lastStretch cs = [])

instance (cs : List Char) : Decidable (InOrder cs) :=
  inferInstanceAs (Decidable (_ ∧ _))

theorem accepts_all_iff {cs : List Char} : Accepts all cs ↔ InOrder cs := by
  rw [Accepts, InOrder, sublist_all_iff]
  apply and_congr_right
  intro h
  rw [next?_all_eq_none_iff (sublist_all_iff.mpr h)]

def angle (cs : List Char) : Rat :=
  combine (plainValue (component all cs degree)) (plainValue (component all cs minute))
    (plainValue (component all cs second))

theorem readChars_eq_ok_iff_inOrder {cs : List Char} (h : IsLiteral cs) {value : Rat} :
    readChars cs = .ok value ↔ InOrder cs ∧ value = angle cs := by
  have hreads : ReadsExactly all cs := readsExactly (by decide) h
  rw [readChars_eq_ok_iff, ← accepts_all_iff]
  constructor
  · rintro ⟨degrees, minutes, seconds, hall, rfl⟩
    rcases (hreads _).mp hall with ⟨haccepted, hvalues⟩
    cases hvalues
    exact ⟨haccepted, rfl⟩
  · rintro ⟨haccepted, rfl⟩
    exact ⟨_, _, _, (hreads _).mpr ⟨haccepted, rfl⟩, rfl⟩

/-!
## Two marks for each unit
-/

def SameMark (c d : Char) : Prop :=
  c = d ∨ exists unit : AngleUnit, c ∈ unit.marks ∧ d ∈ unit.marks

theorem SameMark.cases {c d : Char} (h : SameMark c d) :
    ofMark? c = ofMark? d ∧ (c = d ∨ isMark c = true ∧ isMark d = true) := by
  rcases h with rfl | ⟨unit, hc, hd⟩
  · exact ⟨rfl, .inl rfl⟩
  · have hfirst := contains_marks_iff.mp (List.contains_iff_mem.mpr hc)
    have hsecond := contains_marks_iff.mp (List.contains_iff_mem.mpr hd)
    exact ⟨hfirst.trans hsecond.symm, .inr ⟨isMark_of_ofMark? hfirst, isMark_of_ofMark? hsecond⟩⟩

section SameMarks

variable {cs ds : List Char} (hsame : List.Forall₂ SameMark cs ds)
include hsame

theorem markedUnits_of_sameMark : markedUnits cs = markedUnits ds := by
  induction hsame with
  | nil => rfl
  | cons hfirst _ ih =>
      rw [markedUnits] at ih ⊢
      rw [List.filterMap_cons, hfirst.cases.left, ih]
      rfl

theorem stretches_of_sameMark : stretches cs = stretches ds := by
  induction hsame with
  | nil => rfl
  | cons hfirst _ ih =>
      rw [stretches, stretches] at ih ⊢
      rw [List.splitOnP_cons_eq_if_modifyHead, List.splitOnP_cons_eq_if_modifyHead, ih]
      rcases hfirst.cases.right with rfl | ⟨hmark, hother⟩
      · rfl
      · rw [if_pos hmark, if_pos hother]

theorem lastStretch_of_sameMark : lastStretch cs = lastStretch ds := by
  rw [lastStretch, stretches_of_sameMark hsame, lastStretch]

theorem inOrder_of_sameMark : InOrder cs ↔ InOrder ds := by
  rw [InOrder, markedUnits_of_sameMark hsame, lastStretch_of_sameMark hsame, InOrder]

theorem component_of_sameMark (units : List AngleUnit) (unit : AngleUnit) :
    component units cs unit = component units ds unit := by
  rw [component, markedUnits_of_sameMark hsame, stretches_of_sameMark hsame,
    lastStretch_of_sameMark hsame, component]

theorem angle_of_sameMark : angle cs = angle ds := by
  simp only [angle, component_of_sameMark hsame]

theorem isLiteral_of_sameMark (h : IsLiteral cs) : IsLiteral ds := by
  rcases h with ⟨hchars, hstretches⟩
  refine ⟨?_, by rwa [← stretches_of_sameMark hsame]⟩
  clear hstretches
  induction hsame with
  | nil => exact hchars
  | cons hfirst _ ih =>
      rw [List.forall_mem_cons] at hchars ⊢
      refine ⟨?_, ih hchars.right⟩
      rcases hfirst.cases.right with rfl | ⟨_, hother⟩
      · exact hchars.left
      · exact .inr (.inr hother)

end SameMarks

/-- A literal is an angle if and only if its marks are in order. The angle is the sum of its
components, and another mark of the same unit makes no difference. -/
theorem parse_literal {text : String} (h : IsLiteral text.toList) :
    (forall value, parse text = .ok value ↔
        InOrder text.toList ∧ value = angle text.toList) ∧
      forall other : String, List.Forall₂ SameMark text.toList other.toList ->
        forall value, parse other = .ok value ↔ parse text = .ok value := by
  have hread : forall value, parse text = .ok value ↔
      InOrder text.toList ∧ value = angle text.toList :=
    fun _ => readChars_eq_ok_iff_inOrder h
  refine ⟨hread, ?_⟩
  intro other hsame value
  rw [hread, parse, readChars_eq_ok_iff_inOrder (isLiteral_of_sameMark hsame h),
    ← inOrder_of_sameMark hsame, ← angle_of_sameMark hsame]

theorem parse_literal_half_second : IsLiteral "1°2'.5".toList ∧
    List.Forall₂ SameMark "1°2'.5".toList "1d2m.5".toList ∧
      parse "1d2m.5" = .ok (1 + 2 / 60 + 1 / 2 / 3600) := by
  have hliteral : IsLiteral "1°2'.5".toList := by decide
  have hsame : List.Forall₂ SameMark "1°2'.5".toList "1d2m.5".toList := by
    refine .cons (.inl rfl) (.cons (.inr ⟨degree, ?_⟩) (.cons (.inl rfl)
      (.cons (.inr ⟨minute, ?_⟩) (.cons (.inl rfl) (.cons (.inl rfl) .nil))))) <;> decide
  refine ⟨hliteral, hsame, ?_⟩
  rcases parse_literal hliteral with ⟨hread, hother⟩
  rw [hother "1d2m.5" hsame, hread]
  exact ⟨by decide, by decide +kernel⟩

example : parse "" = .ok 0 := by
  decide +kernel

end Sexagesimal
end AngleCalc
