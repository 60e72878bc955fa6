import AngleCalc.Symbols.Builtin
import AngleCalc.Token

/-!
# Symbol tables

A symbol table gives a meaning to names: a function or a constant. It holds the
constants of the user, which hide the built-in names. A constant that is bound
again replaces the earlier one.
-/

namespace AngleCalc

inductive Symbol where
  | function (function : Elementary)
  | constant (value : Rat)
deriving DecidableEq, Repr

def Symbol.text : Symbol -> String
  | function _ => "Function"
  | constant value => "Constant(" ++ Decimal.toText value ++ ")"

/-- The names with a meaning: the constants of the user and, where none has the
name, the built-in functions and constants. -/
structure SymbolTable where
  user : List (String × Rat)
deriving DecidableEq, Repr

namespace SymbolTable

def empty : SymbolTable := ⟨[]⟩

/-- Bind a constant, in place of an earlier one of the same name. -/
def add (table : SymbolTable) (name : String) (value : Rat) : SymbolTable :=
  ⟨(name, value) :: table.user.filter (fun entry => entry.1 != name)⟩

def userConstant? (table : SymbolTable) (name : String) : Option Rat :=
  table.user.lookup name

theorem userConstant?_add_self (table : SymbolTable) (name : String) (value : Rat) :
    (table.add name value).userConstant? name = some value := by
  simp [add, userConstant?]

theorem userConstant?_add_of_ne (table : SymbolTable) {name other : String}
    (value : Rat) (h : other ≠ name) :
    (table.add name value).userConstant? other = table.userConstant? other := by
  have hbeq : (other == name) = false := beq_false_of_ne h
  simp only [add, userConstant?, List.lookup_cons, hbeq]
  induction table.user with
  | nil => rfl
  | cons entry rest ih =>
      rcases entry with ⟨key, bound⟩
      by_cases hkey : key = name
      · subst hkey
        simpa [List.lookup_cons, hbeq] using ih
      · simp [hkey, List.lookup_cons, ih]

/-- The constants of the user in the order of their names. -/
def userConstants (table : SymbolTable) : List (String × Rat) :=
  table.user.mergeSort (fun a b => decide (a.1 ≤ b.1))

/-!
## Looking up a name
-/

def resolve? (table : SymbolTable) (name : String) : Option Symbol :=
  match table.userConstant? name with
  | some value => some (.constant value)
  | none =>
      match Builtin.find? name with
      | some (.function function) => some (.function function)
      | some (.constant constant) => some (.constant constant.value)
      | none => none

def kind? (table : SymbolTable) (name : String) : Option TokenKind :=
  match table.userConstant? name with
  | some _ => some .constant
  | none =>
      match Builtin.find? name with
      | some (.function _) => some .function
      | some (.constant _) => some .constant
      | none => none

def function? (table : SymbolTable) (name : String) : Option Elementary :=
  match table.resolve? name with
  | some (.function function) => some function
  | _ => none

def constant? (table : SymbolTable) (name : String) : Option Rat :=
  match table.resolve? name with
  | some (.constant value) => some value
  | _ => none

def longestName (table : SymbolTable) : Nat :=
  (Builtin.table.map (fun entry => entry.1.length) ++
    table.user.map (fun entry => entry.1.length)).foldl max 0

end SymbolTable
end AngleCalc
