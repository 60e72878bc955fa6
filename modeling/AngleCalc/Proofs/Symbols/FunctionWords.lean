import AngleCalc.Proofs.Symbols.Resolution
import AngleCalc.Proofs.Symbols.Splitting
import AngleCalc.Session.Basic

/-!
# Words made of function names

As long as the previous answer is the only constant of the user, the names of
functions that are written together are split into the same functions again. The name
of square roots is the front of other names, but none of them goes on with the first
letter of a function.
-/

namespace AngleCalc

namespace Elementary

theorem mem_all (function : Elementary) : function ∈ all := by
  cases function <;> decide

theorem name_ne_nil (function : Elementary) : function.name.toList ≠ [] := by
  cases function <;> decide

/-- Functions that are called without parentheses, one right after the other. -/
def word (functions : List Elementary) : List Char :=
  functions.flatMap (fun function => function.name.toList)

theorem word_cons (function : Elementary) (functions : List Elementary) :
    word (function :: functions) = function.name.toList ++ word functions := rfl

theorem word_concat (functions : List Elementary) (function : Elementary) :
    word (functions ++ [function]) = word functions ++ function.name.toList := by
  simp [word]

def token (function : Elementary) : Token :=
  .function function.name

end Elementary

namespace SymbolTable

def AnswerOnly (table : SymbolTable) : Prop :=
  exists value, table.user = [(Session.answerName, value)]

/-- The names with a meaning besides the constants of the user, and the previous
answer. -/
def commonNames : List String :=
  Session.answerName :: Builtin.table.map Prod.fst

variable {table : SymbolTable}

theorem exists_function_of_kind? {name : String} (h : table.kind? name = some .function) :
    exists function : Elementary, name = function.name := by
  unfold kind? at h
  split at h
  · cases h
  · split at h
    · rename_i function hbuiltin
      rcases List.mem_append.mp (name_mem_of_lookup hbuiltin) with hfunction | hconstant
      · rcases List.mem_map.mp hfunction with ⟨other, _, hentry⟩
        exact ⟨other, (congrArg Prod.fst hentry).symm⟩
      · simp at hconstant
    · cases h
    · cases h

namespace AnswerOnly

theorem mem_commonNames (h : table.AnswerOnly) {name : String} {kind : TokenKind}
    (hkind : table.kind? name = some kind) : name ∈ commonNames := by
  rcases h with ⟨value, huser⟩
  unfold kind? at hkind
  cases hlookup : table.userConstant? name with
  | some bound =>
      rw [userConstant?, huser] at hlookup
      have hmem := name_mem_of_lookup hlookup
      rw [List.mem_singleton, Prod.mk.injEq] at hmem
      rw [hmem.left]
      exact List.mem_cons_self
  | none =>
      cases hbuiltin : Builtin.find? name with
      | none =>
          rw [hlookup, hbuiltin] at hkind
          cases hkind
      | some builtin =>
          exact List.mem_cons_of_mem _ (List.mem_map.mpr ⟨_, name_mem_of_lookup hbuiltin, rfl⟩)

theorem kind?_name (h : table.AnswerOnly) (function : Elementary) :
    table.kind? function.name = some .function := by
  rcases h with ⟨value, huser⟩
  have hne : (function.name == Session.answerName) = false := by
    cases function <;> decide
  simp [kind?, userConstant?, huser, List.lookup_cons, hne, find?_name]

theorem ne_empty (h : table.AnswerOnly) {name : String} {kind : TokenKind}
    (hkind : table.kind? name = some kind) : name ≠ "" := by
  have hall : forall name, name ∈ commonNames -> name ≠ "" := by
    decide
  exact hall name (h.mem_commonNames hkind)

theorem kind?_eq_none (h : table.AnswerOnly) (function next : Elementary) {name : List Char}
    (hname : function.name.toList ++ next.name.toList.take 1 <+: name) :
    table.kind? (String.ofList name) = none := by
  have hall : forall name, name ∈ commonNames -> forall function, function ∈ Elementary.all ->
      forall next, next ∈ Elementary.all ->
      ¬ function.name.toList ++ next.name.toList.take 1 <+: name.toList := by
    decide +kernel
  cases hkind : table.kind? (String.ofList name) with
  | none => rfl
  | some kind =>
      have hprefix := hall _ (h.mem_commonNames hkind) function function.mem_all next next.mem_all
      rw [String.toList_ofList] at hprefix
      exact absurd hname hprefix

theorem kind?_word (h : table.AnswerOnly) (first second : Elementary)
    (functions : List Elementary) :
    table.kind? (String.ofList (Elementary.word (first :: second :: functions))) = none := by
  apply h.kind?_eq_none first second
  rw [Elementary.word_cons, Elementary.word_cons, List.prefix_append_right_inj]
  exact (List.take_prefix 1 _).trans (List.prefix_append _ _)

theorem splitWord?_word (h : table.AnswerOnly) (functions : List Elementary) :
    table.splitWord? (Elementary.word functions) = some (functions.map Elementary.token) := by
  induction functions with
  | nil => exact splitWord?_nil
  | cons function functions ih =>
      have hkind : table.kind? (String.ofList function.name.toList) = some .function := by
        rw [String.ofList_toList]
        exact h.kind?_name function
      rw [Elementary.word_cons, splitWord?_append function.name_ne_nil hkind ih ?_,
        String.ofList_toList]
      · rfl
      · intro front back hword hfront
        rcases List.exists_cons_of_ne_nil hfront with ⟨c, front, rfl⟩
        cases functions with
        | nil => cases hword
        | cons next functions =>
            -- The letter behind the name is the first one of the next function.
            apply h.kind?_eq_none function next
            rw [List.prefix_append_right_inj]
            rcases List.exists_cons_of_ne_nil next.name_ne_nil with ⟨d, letters, hnext⟩
            rw [Elementary.word_cons, hnext, List.cons_append, List.cons_append,
              List.cons.injEq] at hword
            rw [hnext, hword.left]
            exact ⟨front, rfl⟩

end AnswerOnly
end SymbolTable
end AngleCalc
