import AngleCalc.Proofs.Postfix.Conversion

/-!
# What a conversion emits

A conversion rearranges the tokens of an expression, once the zeros are written
that signs take as their left operands. Parentheses are dropped, and so is what
does not belong to an expression; nothing else is lost, and nothing is added.
-/

namespace AngleCalc
namespace Postfix

/-!
## Written zeros
-/

def zeroBefore (atStart : Bool) (token : Token) : List Token :=
  match token.operator? with
  | some operator => signOperand atStart operator
  | none => []

/-- The tokens with the left operands of their signs. -/
def withZeros (atStart : Bool) : List Token -> List Token
  | [] => []
  | token :: rest =>
      zeroBefore atStart token ++ token :: withZeros (startsAfter atStart token) rest

def isEmitted (token : Token) : Bool :=
  match token.kind with
  | .number | .constant | .function | .operator => true
  | _ => false

/-!
## Held tokens
-/

theorem filter_takeWhile_leavesBefore (operator : Operator) (held : List Token) :
    held.takeWhile (leavesBefore operator) ++
        (held.dropWhile (leavesBefore operator)).filter isNotOpening =
      held.filter isNotOpening := by
  induction held with
  | nil => rfl
  | cons top held ih =>
      by_cases hleaves : leavesBefore operator top = true
      · rw [List.takeWhile_cons_of_pos hleaves, List.dropWhile_cons_of_pos hleaves,
          List.filter_cons_of_pos (isNotOpening_of_leavesBefore hleaves), List.cons_append, ih]
      · rw [List.takeWhile_cons_of_neg hleaves, List.dropWhile_cons_of_neg hleaves]
        rfl

theorem filter_closeGroup (held : List Token) :
    (closeGroup held).1 ++ (closeGroup held).2.filter isNotOpening =
      held.filter isNotOpening := by
  induction held with
  | nil => rfl
  | cons top held ih =>
      by_cases hopening : top.kind = .lparen
      · have hnot : ¬ isNotOpening top = true := by
          rw [isNotOpening_eq_true]
          exact fun h => h hopening
        rw [closeGroup_opening hopening, List.filter_cons_of_neg hnot]
        cases held with
        | nil => rfl
        | cons next below =>
            by_cases hfunction : next.kind = .function
            · simp [releaseFunction, isNotOpening, hfunction]
            · simp [releaseFunction, hfunction]
      · rw [closeGroup_cons hopening, List.cons_append, ih,
          List.filter_cons_of_pos (isNotOpening_eq_true.mpr hopening)]

/-!
## One token, and the whole conversion
-/

theorem signOperand_filter_isEmitted (atStart : Bool) (operator : Operator) :
    (signOperand atStart operator).filter isEmitted = signOperand atStart operator := by
  unfold signOperand
  split <;> rfl

theorem step_perm (held : List Token) (atStart : Bool) (token : Token) :
    (leaving held atStart token ++ (heldAfter held token).filter isNotOpening).Perm
      (held.filter isNotOpening ++ (zeroBefore atStart token ++ [token]).filter isEmitted) := by
  cases hkind : token.kind with
  | number | constant =>
      simp [leaving, heldAfter, zeroBefore, isEmitted, Token.operator?, hkind]
      exact List.perm_append_singleton _ _ |>.symm
  | function =>
      simp [leaving, heldAfter, zeroBefore, isEmitted, Token.operator?, isNotOpening, hkind]
      exact List.perm_append_singleton _ _ |>.symm
  | lparen | whitespace | finish | error =>
      simp [leaving, heldAfter, zeroBefore, isEmitted, Token.operator?, isNotOpening, hkind]
  | rparen =>
      simp [leaving, heldAfter, zeroBefore, isEmitted, Token.operator?, hkind,
        filter_closeGroup]
  | operator =>
      cases hoperator : token.operator? with
      | none =>
          simp [leaving, heldAfter, zeroBefore, isEmitted, hkind, hoperator]
          exact List.perm_append_singleton _ _ |>.symm
      | some operator =>
          have hkept : isNotOpening token = true := by simp [isNotOpening, hkind]
          have hemitted : isEmitted token = true := by simp [isEmitted, hkind]
          simp only [leaving, heldAfter, zeroBefore, hkind, hoperator, List.filter_append,
            signOperand_filter_isEmitted, List.filter_cons_of_pos hkept,
            List.filter_cons_of_pos hemitted, List.filter_nil]
          rw [← filter_takeWhile_leavesBefore operator held]
          generalize signOperand atStart operator = zero
          generalize held.takeWhile (leavesBefore operator) = left
          generalize (held.dropWhile (leavesBefore operator)).filter isNotOpening = kept
          calc
            (zero ++ left ++ token :: kept).Perm (token :: (zero ++ left ++ kept)) :=
              List.perm_middle
            _ = token :: (zero ++ (left ++ kept)) := by rw [List.append_assoc]
            List.Perm _ (zero ++ token :: (left ++ kept)) := List.perm_middle.symm
            _ = zero ++ [token] ++ (left ++ kept) := by rw [List.append_assoc]; rfl
            List.Perm _ (left ++ kept ++ (zero ++ [token])) := List.perm_append_comm

theorem convert_perm (tokens : List Token) (held : List Token) (atStart : Bool) :
    (convert held atStart tokens).Perm
      (held.filter isNotOpening ++ (withZeros atStart tokens).filter isEmitted) := by
  induction tokens generalizing held atStart with
  | nil => simp [convert, withZeros]
  | cons token rest ih =>
      rw [convert_cons, withZeros, ← List.singleton_append, ← List.append_assoc,
        List.filter_append, ← List.append_assoc]
      have hrest := (ih (heldAfter held token) (startsAfter atStart token)).append_left
        (leaving held atStart token)
      rw [← List.append_assoc] at hrest
      exact hrest.trans ((step_perm held atStart token).append_right _)

theorem ofInfix_perm (tokens : List Token) :
    (ofInfix tokens).Perm ((withZeros true tokens).filter isEmitted) :=
  convert_perm tokens [] true

theorem mem_withZeros {tokens : List Token} {atStart : Bool} {token : Token}
    (h : token ∈ withZeros atStart tokens) : token ∈ tokens ∨ token = .number "0" := by
  induction tokens generalizing atStart with
  | nil => cases h
  | cons first rest ih =>
      rcases List.mem_append.mp h with hzero | hcons
      · unfold zeroBefore signOperand at hzero
        split at hzero
        · split at hzero
          · exact .inr (List.mem_singleton.mp hzero)
          · cases hzero
        · cases hzero
      · rcases List.mem_cons.mp hcons with rfl | hrest
        · exact .inl List.mem_cons_self
        · rcases ih hrest with hmem | hzero
          · exact .inl (List.mem_cons_of_mem first hmem)
          · exact .inr hzero

theorem mem_ofInfix {tokens : List Token} {token : Token} (h : token ∈ ofInfix tokens) :
    token ∈ tokens ∨ token = .number "0" :=
  mem_withZeros (List.mem_filter.mp ((ofInfix_perm tokens).mem_iff.mp h)).left

end Postfix
end AngleCalc
