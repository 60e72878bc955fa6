import AngleCalc.Proofs.Infix.Completion

/-!
# Arguments in parentheses

A value right after a function can as well be put in parentheses: the postfix order
stays the same, and no product is called for that was not called for before.
-/

namespace AngleCalc
namespace Infix

open Postfix

/-- The tokens with parentheses around each value right after a function. -/
def withGroups (afterFunction : Bool) : List Token -> List Token
  | [] => []
  | token :: rest =>
      (if afterFunction && token.isValue then [.opening, token, .closing] else [token]) ++
        withGroups (token.kind == .function) rest

theorem operand_of_isValue {token : Token} (h : token.isValue = true) :
    startsOperand token.kind = true ∧ endsOperand token.kind = true ∧
      (token.kind == .function) = false := by
  have hkind : token.kind = .number ∨ token.kind = .constant := by
    simpa [Token.isValue] using h
  rcases hkind with hkind | hkind <;> rw [hkind] <;> exact ⟨rfl, rfl, rfl⟩

theorem withGroups_value {token : Token} (rest : List Token) (h : token.isValue = true) :
    withGroups true (token :: rest) = .opening :: token :: .closing :: withGroups false rest := by
  rw [withGroups, h, (operand_of_isValue h).right.right]
  rfl

theorem withGroups_other {afterFunction : Bool} {token : Token} (rest : List Token)
    (h : (afterFunction && token.isValue) = false) :
    withGroups afterFunction (token :: rest) =
      token :: withGroups (token.kind == .function) rest := by
  rw [withGroups, h]
  rfl

theorem mem_withGroups {tokens : List Token} {token : Token} (afterFunction : Bool)
    (h : token ∈ withGroups afterFunction tokens) :
    token ∈ tokens ∨ token = .opening ∨ token = .closing := by
  induction tokens generalizing afterFunction with
  | nil => cases h
  | cons first rest ih =>
      rw [withGroups, List.mem_append] at h
      rcases h with hfirst | hrest
      · split at hfirst
        · simp only [List.mem_cons, List.not_mem_nil, or_false] at hfirst
          rcases hfirst with rfl | rfl | rfl <;> simp
        · rw [List.mem_singleton.mp hfirst]
          exact .inl List.mem_cons_self
      · exact (ih _ hrest).imp_left (List.mem_cons_of_mem first)

theorem isPlain_of_mem_withGroups {tokens : List Token} (afterFunction : Bool)
    (h : forall token, token ∈ tokens -> token.isPlain = true) :
    forall token, token ∈ withGroups afterFunction tokens -> token.isPlain = true := by
  intro token htoken
  rcases mem_withGroups afterFunction htoken with hmem | rfl | rfl
  · exact h token hmem
  · rfl
  · rfl

theorem startsOpen_withGroups (tokens : List Token) :
    startsOpen (withGroups false tokens) = startsOpen tokens := by
  cases tokens with
  | nil => rfl
  | cons token rest =>
      rw [withGroups_other rest (Bool.false_and _)]
      rfl

/-!
## Products
-/

theorem separated_withGroups {tokens : List Token} {afterOperand : Bool} (afterFunction : Bool)
    (h : Separated afterOperand tokens) :
    Separated afterOperand (withGroups afterFunction tokens) := by
  induction tokens generalizing afterOperand afterFunction with
  | nil => trivial
  | cons token rest ih =>
      rcases h with ⟨hstarts, hrest⟩
      cases hgroup : afterFunction && token.isValue with
      | false =>
          rw [withGroups_other rest hgroup]
          exact ⟨hstarts, ih _ hrest⟩
      | true =>
          rcases Bool.and_eq_true_iff.mp hgroup with ⟨rfl, hvalue⟩
          rcases operand_of_isValue hvalue with ⟨hvalueStarts, hvalueEnds, _⟩
          rw [hvalueEnds] at hrest
          rw [withGroups_value rest hvalue]
          refine ⟨?_, ?_, fun _ => rfl, ih false hrest⟩
          · intro hafter
            rw [hstarts hafter] at hvalueStarts
            cases hvalueStarts
          · intro hafter
            cases hafter

/-!
## The postfix order
-/

theorem followsOperand_withGroups {tokens : List Token}
    (hplain : forall token, token ∈ tokens -> token.isPlain = true)
    (h : Separated true tokens) : FollowsOperand (withGroups false tokens) := by
  rw [← insertProductsAfter_of_separated (separated_withGroups false h)]
  exact followsOperand_insertProductsAfter (isPlain_of_mem_withGroups false hplain)

theorem convert_withGroups {tokens : List Token} {afterOperand : Bool}
    (hplain : forall token, token ∈ tokens -> token.isPlain = true)
    (h : Separated afterOperand tokens) (afterFunction : Bool) (held : List Token)
    (atStart : Bool) :
    convert held atStart (withGroups afterFunction tokens) = convert held atStart tokens := by
  induction tokens generalizing afterOperand afterFunction held atStart with
  | nil => rfl
  | cons token rest ih =>
      have hplainRest : forall other, other ∈ rest -> other.isPlain = true :=
        fun other hother => hplain other (List.mem_cons_of_mem token hother)
      have ih' := ih hplainRest h.right
      cases hgroup : afterFunction && token.isValue with
      | false =>
          rw [withGroups_other rest hgroup, convert_cons, convert_cons, ih']
      | true =>
          rcases Bool.and_eq_true_iff.mp hgroup with ⟨rfl, hvalue⟩
          rcases operand_of_isValue hvalue with ⟨_, hends, _⟩
          have hfollows : FollowsOperand (withGroups false rest) :=
            followsOperand_withGroups hplainRest (hends ▸ h.right)
          -- The closing parenthesis releases the function that the next token would release.
          have hclose : convert (.opening :: held) false (.closing :: withGroups false rest) =
              convert held false (withGroups false rest) :=
            @convert_close [] held _ .opening .closing false (by simp) rfl rfl hfollows
          rw [withGroups_value rest hvalue, convert_opening _ _ _ rfl, convert_value _ _ _ hvalue,
            convert_value _ _ _ hvalue, hclose, ih']

theorem ofInfix_withGroups {tokens : List Token}
    (hplain : forall token, token ∈ tokens -> token.isPlain = true)
    (h : Separated false tokens) : ofInfix (withGroups false tokens) = ofInfix tokens :=
  convert_withGroups hplain h false [] true

end Infix
end AngleCalc
