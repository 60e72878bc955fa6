import AngleCalc.Proofs.Infix.Parentheses
import AngleCalc.Proofs.Postfix.Conversion

/-!
# Inserted products

After the products are inserted no two operands stand side by side. Nothing else
changes: the parentheses stay as they are, every token that is inserted is a known
operator, and what is inserted behind a token depends on that token alone.
-/

namespace AngleCalc

namespace Token

/-- Whether a token belongs to an expression and, if it is an operator, is a known
one. -/
def isPlain (token : Token) : Bool :=
  match token.kind with
  | .whitespace | .finish | .error => false
  | .operator => token.operator?.isSome
  | _ => true

theorem plain_cases {token : Token} (h : token.isPlain = true) :
    token.isValue = true ∨ token.kind = .function ∨ token.kind = .lparen ∨
      token.kind = .rparen ∨ exists operator, token.operator? = some operator := by
  rcases role_cases token with hvalue | hfunction | hopening | hclosing | hoperator |
    ⟨hkind, hunknown⟩ | hskip
  · exact Or.inl hvalue
  · exact Or.inr (Or.inl hfunction)
  · exact Or.inr (Or.inr (Or.inl hopening))
  · exact Or.inr (Or.inr (Or.inr (Or.inl hclosing)))
  · exact Or.inr (Or.inr (Or.inr (Or.inr hoperator)))
  · simp [isPlain, hkind, hunknown] at h
  · rcases hskip with hskip | hskip | hskip <;> simp [isPlain, hskip] at h

theorem kind_of_isValue {token : Token} (h : token.isValue = true) :
    token.kind ≠ .lparen ∧ token.kind ≠ .rparen := by
  constructor
  · intro hkind
    simp [isValue, hkind] at h
  · intro hkind
    simp [isValue, hkind] at h

end Token

namespace Infix

def productBefore (afterOperand : Bool) (token : Token) : List Token :=
  if afterOperand && startsOperand token.kind then [.operator "*"] else []

theorem insertProductsAfter_cons (afterOperand : Bool) (token : Token) (rest : List Token) :
    insertProductsAfter afterOperand (token :: rest) =
      productBefore afterOperand token ++
        token :: insertProductsAfter (endsOperand token.kind) rest := by
  rw [insertProductsAfter, productBefore]
  split <;> rfl

theorem operator?_times : (Token.operator "*").operator? = some .times :=
  Operator.operator?_token .times

/-- Whether no token that starts an operand comes right after one that ends an
operand. -/
def Separated (afterOperand : Bool) : List Token -> Prop
  | [] => True
  | token :: rest =>
      (afterOperand = true -> startsOperand token.kind = false) ∧
        Separated (endsOperand token.kind) rest

theorem separated_insertProductsAfter (tokens : List Token) (afterOperand : Bool) :
    Separated afterOperand (insertProductsAfter afterOperand tokens) := by
  induction tokens generalizing afterOperand with
  | nil => trivial
  | cons token rest ih =>
      rw [insertProductsAfter_cons, productBefore]
      split
      · refine ⟨fun _ => rfl, ?_, ih (endsOperand token.kind)⟩
        intro h
        cases h
      · rename_i hnone
        refine ⟨?_, ih (endsOperand token.kind)⟩
        intro hafter
        simpa [hafter] using hnone

theorem insertProductsAfter_of_separated {tokens : List Token} {afterOperand : Bool}
    (h : Separated afterOperand tokens) : insertProductsAfter afterOperand tokens = tokens := by
  induction tokens generalizing afterOperand with
  | nil => rfl
  | cons token rest ih =>
      have hproduct : productBefore afterOperand token = [] := by
        unfold productBefore
        split
        · rename_i hboth
          rcases Bool.and_eq_true_iff.mp hboth with ⟨hafter, hstarts⟩
          rw [h.left hafter] at hstarts
          cases hstarts
        · rfl
      rw [insertProductsAfter_cons, hproduct, ih h.right, List.nil_append]

theorem isPlain_of_mem_insertProductsAfter {tokens : List Token} {afterOperand : Bool}
    (h : forall token, token ∈ tokens -> token.isPlain = true) :
    forall token, token ∈ insertProductsAfter afterOperand tokens -> token.isPlain = true := by
  induction tokens generalizing afterOperand with
  | nil =>
      intro token htoken
      cases htoken
  | cons first rest ih =>
      intro token htoken
      rw [insertProductsAfter_cons, List.mem_append, List.mem_cons] at htoken
      rcases htoken with hproduct | rfl | hrest
      · unfold productBefore at hproduct
        split at hproduct
        · cases List.mem_singleton.mp hproduct
          decide
        · cases hproduct
      · exact h token List.mem_cons_self
      · exact ih (fun other hother => h other (List.mem_cons_of_mem first hother)) token hrest

theorem insertProductsAfter_append (front : List Token) (afterOperand : Bool) :
    exists afterOperand', forall rest,
      insertProductsAfter afterOperand (front ++ rest) =
        insertProductsAfter afterOperand front ++ insertProductsAfter afterOperand' rest := by
  induction front generalizing afterOperand with
  | nil => exact ⟨afterOperand, fun _ => rfl⟩
  | cons token front ih =>
      rcases ih (endsOperand token.kind) with ⟨afterOperand', hfront⟩
      refine ⟨afterOperand', ?_⟩
      intro rest
      rw [List.cons_append, insertProductsAfter_cons, insertProductsAfter_cons, hfront,
        List.append_assoc, List.cons_append]

theorem followsOperand_insertProductsAfter {tokens : List Token}
    (h : forall token, token ∈ tokens -> token.isPlain = true) :
    Postfix.FollowsOperand (insertProductsAfter true tokens) := by
  cases tokens with
  | nil => trivial
  | cons token rest =>
      rw [insertProductsAfter_cons, productBefore]
      cases hstarts : startsOperand token.kind with
      | true => exact Or.inr ⟨.times, operator?_times⟩
      | false =>
          rcases Token.plain_cases (h token List.mem_cons_self) with
            hvalue | hfunction | hopening | hclosing | hoperator
          · cases hkind : token.kind <;> simp_all [Token.isValue, startsOperand]
          · simp [hfunction, startsOperand] at hstarts
          · simp [hopening, startsOperand] at hstarts
          · exact Or.inl hclosing
          · exact Or.inr hoperator

/-!
## Parentheses
-/

theorem unmatchedClosing_insertProductsAfter (tokens : List Token) (afterOperand : Bool) :
    unmatchedClosing (insertProductsAfter afterOperand tokens) = unmatchedClosing tokens := by
  induction tokens generalizing afterOperand with
  | nil => rfl
  | cons token rest ih =>
      have hproduct : forall others, unmatchedClosing (productBefore afterOperand token ++ others) =
          unmatchedClosing others := by
        intro others
        unfold productBefore
        split <;> rfl
      rw [insertProductsAfter_cons, hproduct, unmatchedClosing, unmatchedClosing, ih]

theorem unmatchedOpening_insertProductsAfter (tokens : List Token) (afterOperand : Bool) :
    unmatchedOpening (insertProductsAfter afterOperand tokens) = unmatchedOpening tokens := by
  induction tokens generalizing afterOperand with
  | nil => rfl
  | cons token rest ih =>
      have hproduct : forall others, unmatchedOpening (productBefore afterOperand token ++ others) =
          unmatchedOpening others := by
        intro others
        unfold productBefore
        split <;> rfl
      rw [insertProductsAfter_cons, hproduct, unmatchedOpening, unmatchedOpening, ih,
        unmatchedClosing_insertProductsAfter]

end Infix
end AngleCalc
