import AngleCalc.Proofs.Decimal.Literal
import AngleCalc.Sexagesimal

/-!
# The components of an angle

The marks of a text cut it into stretches. A stretch belongs to the unit of the mark behind
it, and the last one, which has no mark behind it, to the unit after the last mark. A unit
that no stretch belongs to has the empty component, which counts zero.
-/

namespace AngleCalc

inductive AngleUnit where
  | degree
  | minute
  | second
deriving DecidableEq, Repr

namespace AngleUnit

def all : List AngleUnit :=
  [degree, minute, second]

def marks : AngleUnit -> List Char
  | degree => Sexagesimal.degreeMarks
  | minute => Sexagesimal.minuteMarks
  | second => Sexagesimal.secondMarks

def ofMark? (c : Char) : Option AngleUnit :=
  all.find? (fun unit => unit.marks.contains c)

theorem contains_marks_iff {unit : AngleUnit} {c : Char} :
    unit.marks.contains c = true ↔ ofMark? c = some unit := by
  constructor
  · intro h
    have hall : unit.marks.all (fun d => ofMark? d == some unit) = true := by
      cases unit <;> decide
    exact beq_iff_eq.mp (List.all_eq_true.mp hall c (List.contains_iff_mem.mp h))
  · intro h
    exact List.find?_some (p := fun unit : AngleUnit => unit.marks.contains c) h

theorem isSome_ofMark? (c : Char) : (ofMark? c).isSome = Sexagesimal.isMark c := by
  simp [ofMark?, all, marks, Sexagesimal.isMark, List.isSome_find?, Bool.or_assoc]

/-- The unit of a component without a mark behind marks of the given units: the one after the
last of them, and the first unit if there is none. -/
def next? (units marked : List AngleUnit) : Option AngleUnit :=
  units[(marked.getLast?.map (fun unit => units.idxOf unit + 1)).getD 0]?

end AngleUnit

namespace Sexagesimal

open AngleUnit Numeral

theorem isMark_of_isDigit {c : Char} (h : c.isDigit = true) : isMark c = false := by
  have hall : (degreeMarks ++ minuteMarks ++ secondMarks).all (fun d => !d.isDigit) = true := by
    decide
  have hne : forall d, d ∈ degreeMarks ++ minuteMarks ++ secondMarks -> c ≠ d :=
    fun d hd => ne_of_isDigit h (by simpa using List.all_eq_true.mp hall d hd)
  have hmem : c ∉ degreeMarks ++ minuteMarks ++ secondMarks := fun hc => hne c hc rfl
  simpa [isMark, not_or, and_assoc] using hmem

def markedUnits (cs : List Char) : List AngleUnit :=
  cs.filterMap ofMark?

/-- The stretches of a text between its marks. There is one more of them than there are marks. -/
def stretches (cs : List Char) : List (List Char) :=
  cs.splitOnP isMark

def lastStretch (cs : List Char) : List Char :=
  (stretches cs).getLastD []

/-- The component of a unit, given the units that a text can have: the stretch in front of its
mark, or the last stretch if it has no mark and its turn has come. -/
def component (units : List AngleUnit) (cs : List Char) (unit : AngleUnit) : List Char :=
  (((markedUnits cs).zip (stretches cs)).lookup unit).getD
    (if next? units (markedUnits cs) = some unit then lastStretch cs else [])

/-- The number that digits with at most one point write. Without digits it is zero. -/
def plainValue (cs : List Char) : Rat :=
  Nat.ofDigitChars 10 (wholeOf cs ++ fractionOf cs) 0 / 10 ^ (fractionOf cs).length

/-- A text of digits, points and marks. No stretch has a second point or too many digits behind
its point. -/
def IsLiteral (cs : List Char) : Prop :=
  (forall c, c ∈ cs -> c.isDigit = true ∨ c = '.' ∨ isMark c = true) ∧
    forall stretch, stretch ∈ stretches cs ->
      stretch.count '.' ≤ 1 ∧ (fractionOf stretch).length ≤ maxScale

instance (cs : List Char) : Decidable (IsLiteral cs) :=
  letI : Decidable (forall c, c ∈ cs -> c.isDigit = true ∨ c = '.' ∨ isMark c = true) :=
    List.decidableBAll _ cs
  inferInstanceAs (Decidable (_ ∧ _))

/-- The marks stand in the order of the units, each at most once, and nothing follows the mark
of the last unit. -/
def Accepts (units : List AngleUnit) (cs : List Char) : Prop :=
  (markedUnits cs).Sublist units ∧
    (next? units (markedUnits cs) = none -> lastStretch cs = [])

/-!
## The first mark
-/

variable {cs front rest : List Char} {mark : Char} {unit : AngleUnit}

theorem unmarked_or_first_mark (cs : List Char) :
    (forall c, c ∈ cs -> isMark c = false) ∨
      exists front mark unit rest, cs = front ++ mark :: rest ∧
        (forall c, c ∈ front -> isMark c = false) ∧ ofMark? mark = some unit := by
  cases hdrop : cs.dropWhile (fun c => !isMark c) with
  | nil =>
      left
      simpa using List.dropWhile_eq_nil_iff.mp hdrop
  | cons mark rest =>
      right
      have hmark : isMark mark = true := by
        have hhead := List.head_dropWhile_not (fun c => !isMark c) (l := cs) (by simp [hdrop])
        simpa [hdrop] using hhead
      rw [← isSome_ofMark?] at hmark
      rcases Option.isSome_iff_exists.mp hmark with ⟨unit, hunit⟩
      refine ⟨cs.takeWhile (fun c => !isMark c), mark, unit, rest, ?_, ?_, hunit⟩
      · rw [← hdrop, List.takeWhile_append_dropWhile]
      · intro c hc
        simpa using List.mem_takeWhile_imp hc

theorem markedUnits_of_unmarked (h : forall c, c ∈ cs -> isMark c = false) :
    markedUnits cs = [] := by
  rw [markedUnits, List.filterMap_eq_nil_iff]
  intro c hc
  rw [← Option.not_isSome_iff_eq_none, isSome_ofMark?, h c hc]
  exact Bool.false_ne_true

theorem stretches_of_unmarked (h : forall c, c ∈ cs -> isMark c = false) : stretches cs = [cs] :=
  List.splitOnP_eq_singleton h

theorem isMark_of_ofMark? (h : ofMark? mark = some unit) : isMark mark = true := by
  rw [← isSome_ofMark?, h]
  rfl

section FirstMark

variable (hfront : forall c, c ∈ front -> isMark c = false) (hmark : ofMark? mark = some unit)
include hfront hmark

theorem markedUnits_append_cons :
    markedUnits (front ++ mark :: rest) = unit :: markedUnits rest := by
  have hnone := markedUnits_of_unmarked hfront
  rw [markedUnits] at hnone
  rw [markedUnits, List.filterMap_append, hnone, List.filterMap_cons_some hmark]
  rfl

theorem stretches_append_cons : stretches (front ++ mark :: rest) = front :: stretches rest :=
  List.splitOnP_append_cons_of_forall_mem hfront mark (isMark_of_ofMark? hmark) rest

theorem lastStretch_append_cons : lastStretch (front ++ mark :: rest) = lastStretch rest := by
  have hne : stretches rest ≠ [] := List.splitOnP_ne_nil isMark rest
  rw [lastStretch, stretches_append_cons hfront hmark, lastStretch]
  rcases List.exists_cons_of_ne_nil hne with ⟨stretch, more, hmore⟩
  rw [hmore]
  rfl

theorem IsLiteral.of_append_cons (h : IsLiteral (front ++ mark :: rest)) :
    IsLiteral front ∧ IsLiteral rest := by
  rcases h with ⟨hchars, hstretches⟩
  rw [stretches_append_cons hfront hmark] at hstretches
  refine ⟨⟨?_, ?_⟩, ⟨?_, ?_⟩⟩
  · exact fun c hc => hchars c (List.mem_append_left _ hc)
  · rw [stretches_of_unmarked hfront]
    intro stretch hstretch
    rw [List.mem_singleton.mp hstretch]
    exact hstretches front List.mem_cons_self
  · exact fun c hc => hchars c (List.mem_append_right _ (List.mem_cons_of_mem mark hc))
  · exact fun stretch hstretch => hstretches stretch (List.mem_cons_of_mem front hstretch)

end FirstMark

end Sexagesimal
end AngleCalc
