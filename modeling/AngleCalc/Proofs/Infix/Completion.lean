import AngleCalc.Proofs.Infix.Products

/-!
# Completed expressions

An expression is completed after its products are inserted. Neither end of an open
expression takes a product, so the constant that completes it can as well be there
before the products are inserted.
-/

namespace AngleCalc
namespace Infix

variable {tokens : List Token}

theorem complete_eq_false {name : String} (h : (complete tokens name).2 = false) :
    complete tokens name = (tokens, false) ∧ startsOpen tokens = false ∧
      endsOpen tokens = false := by
  unfold complete at h ⊢
  split at h
  · cases h
  · rename_i hstarts
    split at h
    · cases h
    · rename_i hends
      rw [if_neg hstarts, if_neg hends]
      exact ⟨rfl, Bool.not_eq_true _ ▸ hstarts, Bool.not_eq_true _ ▸ hends⟩

theorem complete_eq_self (name : String) (hstarts : startsOpen tokens = false)
    (hends : endsOpen tokens = false) : complete tokens name = (tokens, false) := by
  rw [complete, hstarts, hends]
  rfl

theorem startsOpen_complete (tokens : List Token) (name : String) :
    startsOpen (complete tokens name).1 = false := by
  unfold complete
  split
  · rfl
  · rename_i hstarts
    rw [Bool.not_eq_true] at hstarts
    split
    · cases tokens with
      | nil => rfl
      | cons token rest => exact hstarts
    · exact hstarts

theorem startsOpen_insertProducts (tokens : List Token) :
    startsOpen (insertProducts tokens) = startsOpen tokens := by
  cases tokens with
  | nil => rfl
  | cons token rest => rw [insertProducts, insertProductsAfter_cons]; rfl

theorem insertProducts_constant_cons (name : String) (h : startsOpen tokens = true) :
    insertProducts (.constant name :: tokens) = .constant name :: insertProducts tokens := by
  cases tokens with
  | nil => cases h
  | cons token rest =>
      have hkind : token.kind = .operator := eq_of_beq h
      rw [insertProducts, insertProducts, insertProductsAfter_cons, insertProductsAfter_cons,
        insertProductsAfter_cons]
      simp [productBefore, startsOperand, hkind]

theorem insertProductsAfter_concat (front : List Token) (last : Token) (afterOperand : Bool) :
    exists start, forall rest,
      insertProductsAfter afterOperand (front ++ last :: rest) =
        start ++ last :: insertProductsAfter (endsOperand last.kind) rest := by
  rcases insertProductsAfter_append front afterOperand with ⟨afterFront, hfront⟩
  refine ⟨insertProductsAfter afterOperand front ++ productBefore afterFront last, ?_⟩
  intro rest
  rw [hfront, insertProductsAfter_cons, List.append_assoc]

theorem endsOpen_concat (front : List Token) (last : Token) :
    endsOpen (front ++ [last]) = (last.kind == .function || last.kind == .operator) := by
  rw [endsOpen, List.getLast?_append]
  rfl

theorem insertProducts_concat_constant (name : String)
    (h : endsOpen (insertProducts tokens) = true) :
    insertProducts (tokens ++ [.constant name]) =
      insertProducts tokens ++ [.constant name] := by
  rcases List.eq_nil_or_concat tokens with rfl | ⟨front, last, rfl⟩
  · cases h
  · rw [List.concat_eq_append] at h ⊢
    rcases insertProductsAfter_concat front last false with ⟨start, hstart⟩
    rw [insertProducts, hstart [], insertProductsAfter, endsOpen_concat] at h
    have hends : endsOperand last.kind = false := by
      rcases Bool.or_eq_true_iff.mp h with hkind | hkind <;> rw [eq_of_beq hkind] <;> rfl
    rw [insertProducts, insertProducts, List.append_assoc, List.singleton_append, hstart,
      hstart, insertProductsAfter, hends, List.append_assoc]
    rfl

end Infix
end AngleCalc
