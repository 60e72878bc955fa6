import AngleCalc.Proofs.Sexagesimal.Reading

/-!
# Reading all components of an angle

Each component is searched in what the ones before it have left. So a text is read to its end
if and only if its marks are in the order of the units and no stretch is left for a unit after
the last one.
-/

namespace AngleCalc
namespace Sexagesimal

open AngleUnit

variable {cs front rest : List Char} {mark : Char} {unit : AngleUnit}

/-!
## The unit of the last stretch
-/

variable {units marked : List AngleUnit}

theorem next?_unmarked (units : List AngleUnit) : next? units [] = units.head? :=
  List.head?_eq_getElem?.symm

theorem next?_cons_of_not_mem (hunit : unit ∉ marked) (hmarked : marked ≠ []) :
    next? (unit :: units) marked = next? units marked := by
  rcases List.eq_nil_or_concat marked with hnil | ⟨front, last, rfl⟩
  · exact absurd hnil hmarked
  · have hne : unit ≠ last := by
      rintro rfl
      exact hunit (by simp)
    simp [next?, List.idxOf_cons, beq_false_of_ne hne]

theorem next?_cons_cons (hunit : unit ∉ marked) :
    next? (unit :: units) (unit :: marked) = next? units marked := by
  by_cases hmarked : marked = []
  · subst hmarked
    simp [next?]
  · rw [← next?_cons_of_not_mem hunit hmarked, next?, next?, List.getLast?_cons,
      List.getLast?_eq_some_getLast hmarked]
    rfl

theorem mem_of_next?_eq_some (h : next? units marked = some unit) : unit ∈ units :=
  List.mem_of_getElem? h

/-!
## All components
-/

/-- The components of the units are read one behind the other, up to the end of the text. -/
inductive ReadsAll : List AngleUnit -> List Char -> List Rat -> Prop where
  | done : ReadsAll [] [] []
  | next {unit : AngleUnit} {units : List AngleUnit} {cs rest : List Char} {value : Rat}
      {values : List Rat} : readComponent unit.marks cs = .ok (value, rest) ->
      ReadsAll units rest values -> ReadsAll (unit :: units) cs (value :: values)

theorem readsAll_nil_iff {values : List Rat} : ReadsAll [] cs values ↔ cs = [] ∧ values = [] := by
  constructor
  · rintro ⟨⟩
    exact ⟨rfl, rfl⟩
  · rintro ⟨rfl, rfl⟩
    exact .done

theorem readsAll_cons_iff {value : Rat} {values : List Rat}
    (hread : readComponent unit.marks cs = .ok (value, rest)) :
    ReadsAll (unit :: units) cs values ↔
      exists more, ReadsAll units rest more ∧ values = value :: more := by
  constructor
  · intro h
    cases h with
    | next hother hmore =>
        rw [hread] at hother
        cases hother
        exact ⟨_, hmore, rfl⟩
  · rintro ⟨more, hmore, rfl⟩
    exact .next hread hmore

theorem exceptBind_eq_ok {α β : Type} {x : Except Failure α} {f : α -> Except Failure β} {y : β} :
    (x >>= f) = .ok y ↔ exists a, x = .ok a ∧ f a = .ok y := by
  cases x with
  | error failure => simp [bind, Except.bind]
  | ok a => simp [bind, Except.bind]

theorem readChars_eq_ok_iff {value : Rat} :
    readChars cs = .ok value ↔
      exists degrees minutes seconds, ReadsAll all cs [degrees, minutes, seconds] ∧
        value = combine degrees minutes seconds := by
  simp only [readChars, exceptBind_eq_ok, Prod.exists]
  constructor
  · rintro ⟨degrees, cs₁, hdegrees, minutes, cs₂, hminutes, seconds, cs₃, hseconds, h⟩
    split at h
    · rename_i hempty
      cases h
      rw [List.isEmpty_iff.mp hempty] at hseconds
      exact ⟨degrees, minutes, seconds, .next hdegrees (.next hminutes (.next hseconds .done)), rfl⟩
    · cases h
  · rintro ⟨degrees, minutes, seconds, hreads, rfl⟩
    rcases hreads with _ | ⟨hdegrees, hreads⟩
    rcases hreads with _ | ⟨hminutes, hreads⟩
    rcases hreads with _ | ⟨hseconds, ⟨⟩⟩
    exact ⟨_, _, hdegrees, _, _, hminutes, _, _, hseconds, rfl⟩

/-!
## The order of the marks
-/

theorem accepts_of_unmarked_cons (unit : AngleUnit) (units : List AngleUnit)
    (hmarks : forall c, c ∈ cs -> isMark c = false) : Accepts (unit :: units) cs := by
  rw [Accepts, markedUnits_of_unmarked hmarks]
  exact ⟨List.nil_sublist _, fun hnone => by cases hnone⟩

theorem lastStretch_of_unmarked (hmarks : forall c, c ∈ cs -> isMark c = false) :
    lastStretch cs = cs := by
  rw [lastStretch, stretches_of_unmarked hmarks]
  rfl

theorem component_of_unmarked (hmarks : forall c, c ∈ cs -> isMark c = false)
    (units : List AngleUnit) (unit : AngleUnit) :
    component units cs unit = if units.head? = some unit then cs else [] := by
  rw [component, markedUnits_of_unmarked hmarks, next?_unmarked, lastStretch_of_unmarked hmarks]
  rfl

theorem accepts_nil : Accepts units [] :=
  ⟨List.nil_sublist _, fun _ => rfl⟩

theorem component_nil (units : List AngleUnit) (unit : AngleUnit) :
    component units [] unit = [] := by
  rw [component_of_unmarked (fun _ hc => by cases hc)]
  exact ite_self []

theorem accepts_no_units_iff : Accepts [] cs ↔ cs = [] := by
  constructor
  · rintro ⟨hmarked, hlast⟩
    have hmarks : forall c, c ∈ cs -> isMark c = false := by
      intro c hc
      rw [← isSome_ofMark?, Option.isSome_eq_false_iff, Option.isNone_iff_eq_none]
      exact List.filterMap_eq_nil_iff.mp (List.sublist_nil.mp hmarked) c hc
    rw [← lastStretch_of_unmarked hmarks]
    exact hlast rfl
  · rintro rfl
    exact accepts_nil

theorem component_cons_of_not_mem (hunit : unit ∉ markedUnits cs) (hmarked : markedUnits cs ≠ [])
    (units : List AngleUnit) (other : AngleUnit) :
    component (unit :: units) cs other = component units cs other := by
  rw [component, next?_cons_of_not_mem hunit hmarked, component]

theorem component_of_not_mem (hunit : unit ∉ units) (hmarked : unit ∉ markedUnits cs) :
    component units cs unit = [] := by
  have hlookup : ((markedUnits cs).zip (stretches cs)).lookup unit = none := by
    rw [List.lookup_eq_none_iff]
    rintro ⟨other, stretch⟩ hpair
    have hne : unit ≠ other := by
      rintro rfl
      exact hmarked (List.of_mem_zip hpair).left
    exact bne_iff_ne.mpr hne
  have hnext : next? units (markedUnits cs) ≠ some unit :=
    fun hunits => hunit (mem_of_next?_eq_some hunits)
  rw [component, hlookup, if_neg hnext]
  rfl

theorem accepts_cons_of_not_mem (hunit : unit ∉ markedUnits cs) (hmarked : markedUnits cs ≠ []) :
    Accepts (unit :: units) cs ↔ Accepts units cs := by
  rw [Accepts, next?_cons_of_not_mem hunit hmarked, List.sublist_cons_iff, Accepts]
  have hfirst : ¬ exists more, markedUnits cs = unit :: more ∧ more.Sublist units := by
    rintro ⟨more, hmore, _⟩
    rw [hmore] at hunit
    exact hunit List.mem_cons_self
  simp only [hfirst, or_false]

section FirstMark

variable (hfront : forall c, c ∈ front -> isMark c = false) (hmark : ofMark? mark = some unit)
include hfront hmark

theorem component_first_mark (units : List AngleUnit) :
    component units (front ++ mark :: rest) unit = front := by
  rw [component, markedUnits_append_cons hfront hmark, stretches_append_cons hfront hmark,
    List.zip_cons_cons, List.lookup_cons_self]
  rfl

theorem component_behind_first_mark (hunit : unit ∉ markedUnits rest) {other : AngleUnit}
    (hne : other ≠ unit) :
    component (unit :: units) (front ++ mark :: rest) other = component units rest other := by
  rw [component, markedUnits_append_cons hfront hmark, stretches_append_cons hfront hmark,
    lastStretch_append_cons hfront hmark, next?_cons_cons hunit, List.zip_cons_cons,
    List.lookup_cons, beq_false_of_ne hne, component]

theorem accepts_first_mark_iff (hunit : unit ∉ units) :
    Accepts (unit :: units) (front ++ mark :: rest) ↔ Accepts units rest := by
  rw [Accepts, markedUnits_append_cons hfront hmark, lastStretch_append_cons hfront hmark,
    List.cons_sublist_cons, Accepts]
  apply and_congr_right
  intro hmarked
  rw [next?_cons_cons (fun hmem => hunit (hmarked.subset hmem))]

end FirstMark

def componentValues (units : List AngleUnit) (cs : List Char) : List Rat :=
  units.map (fun unit => plainValue (component units cs unit))

/-- The components are read if and only if the text is accepted, and they have their values. -/
def ReadsExactly (units : List AngleUnit) (cs : List Char) : Prop :=
  forall values, ReadsAll units cs values ↔ Accepts units cs ∧ values = componentValues units cs

theorem componentValues_cons (unit : AngleUnit) (units : List AngleUnit) {other : List Char}
    (hcomponent : forall later, later ∈ units ->
      component (unit :: units) cs later = component units other later) :
    componentValues (unit :: units) cs =
      plainValue (component (unit :: units) cs unit) :: componentValues units other := by
  rw [componentValues, List.map_cons, componentValues]
  congr 1
  apply List.map_congr_left
  intro later hlater
  rw [hcomponent later hlater]

/-- One component is read, and the others are read from what it leaves. -/
theorem ReadsExactly.cons {value : Rat}
    (hread : readComponent unit.marks cs = .ok (value, rest)) (hrest : ReadsExactly units rest)
    (haccepts : Accepts (unit :: units) cs ↔ Accepts units rest)
    (hvalues : Accepts units rest ->
      componentValues (unit :: units) cs = value :: componentValues units rest) :
    ReadsExactly (unit :: units) cs := by
  intro values
  rw [readsAll_cons_iff hread, haccepts]
  constructor
  · rintro ⟨more, hmore, rfl⟩
    rcases (hrest more).mp hmore with ⟨haccepted, rfl⟩
    exact ⟨haccepted, (hvalues haccepted).symm⟩
  · rintro ⟨haccepted, rfl⟩
    exact ⟨_, (hrest _).mpr ⟨haccepted, rfl⟩, hvalues haccepted⟩

theorem ReadsExactly.nil : ReadsExactly [] cs := by
  intro values
  rw [readsAll_nil_iff, accepts_no_units_iff]
  rfl

section Unit

variable (hunit : unit ∉ units)
include hunit

theorem ReadsExactly.of_unmarked (h : IsLiteral cs) (hmarks : forall c, c ∈ cs -> isMark c = false)
    (hrest : ReadsExactly units []) : ReadsExactly (unit :: units) cs := by
  refine hrest.cons (readComponent_of_unmarked h hmarks unit.marks) ?_ ?_
  · exact iff_of_true (accepts_of_unmarked_cons unit units hmarks) accepts_nil
  · intro _
    rw [componentValues_cons unit units, component_of_unmarked hmarks, List.head?_cons, if_pos rfl]
    intro later hlater
    have hne : (unit :: units).head? ≠ some later := by
      rintro ⟨⟩
      exact hunit hlater
    rw [component_of_unmarked hmarks, if_neg hne, component_nil]

theorem ReadsExactly.of_first_mark (h : IsLiteral (front ++ mark :: rest))
    (hfront : forall c, c ∈ front -> isMark c = false) (hmark : ofMark? mark = some unit)
    (hrest : ReadsExactly units rest) : ReadsExactly (unit :: units) (front ++ mark :: rest) := by
  refine hrest.cons (readComponent_of_first_mark h hfront hmark)
    (accepts_first_mark_iff hfront hmark hunit) ?_
  intro haccepted
  rw [componentValues_cons unit units, component_first_mark hfront hmark]
  intro later hlater
  apply component_behind_first_mark hfront hmark
  · exact fun hmarked => hunit (haccepted.left.subset hmarked)
  · rintro rfl
    exact hunit hlater

/-- A component whose mark is not there is left out. One whose mark is behind another one is not
read, and the marks are not in order. -/
theorem ReadsExactly.of_later_mark {other : AngleUnit}
    (hfront : forall c, c ∈ front -> isMark c = false) (hmark : ofMark? mark = some other)
    (hne : other ≠ unit) (hrest : ReadsExactly units (front ++ mark :: rest)) :
    ReadsExactly (unit :: units) (front ++ mark :: rest) := by
  have hmarked : markedUnits (front ++ mark :: rest) = other :: markedUnits rest :=
    markedUnits_append_cons hfront hmark
  rcases readComponent_of_later_mark hfront hmark hne with ⟨habsent, hpresent⟩
  by_cases hmem : unit ∈ markedUnits rest
  · intro values
    refine iff_of_false ?_ ?_
    · rintro ⟨⟩
      rename_i hread
      exact hpresent hmem _ _ hread
    · rintro ⟨haccepted, _⟩
      have horder := haccepted.left
      rw [hmarked] at horder
      exact hunit (horder.of_cons_cons.subset hmem)
  · have hnotin : unit ∉ markedUnits (front ++ mark :: rest) := by
      rw [hmarked, List.mem_cons, not_or]
      exact ⟨hne.symm, hmem⟩
    have hnil : markedUnits (front ++ mark :: rest) ≠ [] := by
      rw [hmarked]
      exact List.cons_ne_nil _ _
    refine hrest.cons (habsent hmem) (accepts_cons_of_not_mem hnotin hnil) ?_
    intro _
    rw [componentValues_cons unit units fun later _ => component_cons_of_not_mem hnotin hnil _ _,
      component_cons_of_not_mem hnotin hnil, component_of_not_mem hunit hnotin, plainValue_nil]

end Unit

theorem readsExactly (hunits : units.Nodup) (h : IsLiteral cs) : ReadsExactly units cs := by
  induction units generalizing cs with
  | nil => exact .nil
  | cons unit units ih =>
      rcases List.nodup_cons.mp hunits with ⟨hunit, hdistinct⟩
      rcases unmarked_or_first_mark cs with hmarks | ⟨front, mark, marked, rest, rfl, hfront, hmark⟩
      · exact .of_unmarked hunit h hmarks (ih hdistinct (by decide))
      · by_cases hown : marked = unit
        · subst hown
          exact .of_first_mark hunit h hfront hmark
            (ih hdistinct (h.of_append_cons hfront hmark).right)
        · exact .of_later_mark hunit hfront hmark hown (ih hdistinct h)

end Sexagesimal
end AngleCalc
