import AngleCalc.Expression
import AngleCalc.Proofs.Symbols.Splitting
import Mathlib.Order.Nat

/-!
# Tables with the same names

Two symbol tables have the same names if the user has bound the same constants in them, to
whatever values. A name then has the same kind in both, and a text is cut into the same
tokens: reading asks for kinds and for the length of the longest name, and never for a value.
-/

namespace AngleCalc

namespace SymbolTable

/-- The user has bound the same names in both tables. -/
def SameNames (first second : SymbolTable) : Prop :=
  forall name, (first.userConstant? name).isSome = (second.userConstant? name).isSome

variable {first second : SymbolTable}

theorem SameNames.symm (h : first.SameNames second) : second.SameNames first :=
  fun name => (h name).symm

theorem sameNames_add {table : SymbolTable} {name : String} {value : Rat}
    (h : (table.userConstant? name).isSome = true) : table.SameNames (table.add name value) := by
  intro other
  by_cases hother : other = name
  · rw [hother, userConstant?_add_self, h]
    rfl
  · rw [userConstant?_add_of_ne table value hother]

theorem foldl_max_le {lengths : List Nat} {bound : Nat}
    (h : forall n, n ∈ lengths -> n ≤ bound) : lengths.foldl max 0 ≤ bound := by
  rw [List.foldl_eq_foldr]
  exact List.max_le_of_forall_le lengths bound h

theorem kind?_of_mem_user {table : SymbolTable} {entry : String × Rat}
    (h : entry ∈ table.user) : table.kind? entry.1 = some .constant := by
  have hbound : (table.userConstant? entry.1).isSome = true :=
    List.lookup_isSome_iff.mpr ⟨entry, h, beq_self_eq_true _⟩
  rcases Option.isSome_iff_exists.mp hbound with ⟨value, hvalue⟩
  simp [kind?, hvalue]

namespace SameNames

variable (h : first.SameNames second)
include h

theorem kind?_eq (name : String) : first.kind? name = second.kind? name := by
  have hname := h name
  unfold kind?
  cases hfirst : first.userConstant? name <;> cases hsecond : second.userConstant? name <;>
    simp [hfirst, hsecond] at hname ⊢

theorem function?_eq (name : String) : first.function? name = second.function? name := by
  have hname := h name
  unfold function? resolve?
  cases hfirst : first.userConstant? name <;> cases hsecond : second.userConstant? name <;>
    simp [hfirst, hsecond] at hname ⊢

theorem longestName_le : first.longestName ≤ second.longestName := by
  apply foldl_max_le
  intro n hn
  rcases List.mem_append.mp hn with hbuiltin | huser
  · exact length_le_foldl_max (List.mem_append_left _ hbuiltin)
  · rcases List.mem_map.mp huser with ⟨entry, hentry, rfl⟩
    have hkind := kind?_of_mem_user hentry
    rw [h.kind?_eq] at hkind
    exact length_le_longestName hkind

theorem longestName_eq : first.longestName = second.longestName :=
  le_antisymm h.longestName_le h.symm.longestName_le

/-!
## Words
-/

theorem longestCut?_eq (word : List Char) (shorter : List Suffix) :
    first.longestCut? word shorter = second.longestCut? word shorter := by
  have hcut : first.cutAt? word shorter = second.cutAt? word shorter := by
    funext k
    simp only [cutAt?, h.kind?_eq]
  rw [longestCut?, longestCut?, h.longestName_eq, hcut]

theorem suffixes_eq (word : List Char) : first.suffixes word = second.suffixes word := by
  induction word with
  | nil => rfl
  | cons c rest ih => rw [suffixes, suffixes, ih, h.longestCut?_eq]

theorem splitWord?_eq (word : List Char) : first.splitWord? word = second.splitWord? word := by
  rw [splitWord?, h.suffixes_eq, splitWord?]

/-!
## Texts
-/

theorem ofWord_eq (word : List Char) : Lexeme.ofWord first word = Lexeme.ofWord second word := by
  simp only [Lexeme.ofWord, h.kind?_eq, h.splitWord?_eq]

theorem head_eq (c : Char) (cs : List Char) :
    Lexeme.head first c cs = Lexeme.head second c cs := by
  unfold Lexeme.head
  rw [h.ofWord_eq]

theorem scan_eq (text : List Char) : Lexeme.scan first text = Lexeme.scan second text := by
  induction text using Lexeme.scan.induct first with
  | case1 => rw [Lexeme.scan, Lexeme.scan]
  | case2 c cs ih => rw [Lexeme.scan, Lexeme.scan, ih, h.head_eq]

theorem hasMarks_eq (text : String) :
    Lexeme.hasMarks first text = Lexeme.hasMarks second text := by
  rw [Lexeme.hasMarks, h.scan_eq, Lexeme.hasMarks]

/-- What is read from a text depends on the names alone. -/
theorem read_eq (text : String) : Expression.read first text = Expression.read second text := by
  unfold Expression.read Lexeme.tokens
  rw [h.scan_eq]

end SameNames
end SymbolTable
end AngleCalc
