import AngleCalc.Proofs.Infix.Products
import AngleCalc.Proofs.Postfix.Stack

/-!
# The tokens of an expression

An expression has all tokens of its text except for white space, in their order,
and between them nothing but multiplication signs.
-/

namespace AngleCalc
namespace Infix

theorem significant_eq_ok_iff {tokens out : List Token}
    (hfinish : forall token, token ∈ tokens -> token.kind ≠ .finish) :
    significant (tokens ++ [.finish]) = .ok out ↔
      (forall token, token ∈ tokens -> token.kind ≠ .error) ∧
        tokens.filter (fun token => token.kind != .whitespace) = out := by
  induction tokens generalizing out with
  | nil => simp [significant, Token.finish]
  | cons token rest ih =>
      have hrest := fun out => @ih out
        (fun other hother => hfinish other (List.mem_cons_of_mem token hother))
      cases hkind : token.kind with
      | finish => exact absurd hkind (hfinish token List.mem_cons_self)
      | error => simp [significant, hkind]
      | whitespace => simp [significant, hkind, hrest]
      | number | function | constant | operator | lparen | rparen =>
          simp [significant, hkind, exceptMap_eq_ok, hrest, and_assoc]

theorem significant_eq_error_iff {tokens : List Token} {failure : Failure}
    (hfinish : forall token, token ∈ tokens -> token.kind ≠ .finish) :
    significant (tokens ++ [.finish]) = .error failure ↔
      exists front token back, tokens = front ++ token :: back ∧
        (forall earlier, earlier ∈ front -> earlier.kind ≠ .error) ∧
        token.kind = .error ∧ failureOf token.text = failure := by
  induction tokens with
  | nil => simp [significant, Token.finish]
  | cons token rest ih =>
      have hrest := ih (fun other hother => hfinish other (List.mem_cons_of_mem token hother))
      by_cases herror : token.kind = .error
      · simp only [List.cons_append, significant, herror]
        constructor
        · intro h
          exact ⟨[], token, rest, rfl, fun _ hnil => absurd hnil List.not_mem_nil, herror,
            Except.error.inj h⟩
        · rintro ⟨front, other, back, hcons, hearlier, hother, hfailure⟩
          cases front with
          | nil =>
              cases hcons
              rw [hfailure]
          | cons first front =>
              cases hcons
              exact absurd herror (hearlier _ List.mem_cons_self)
      · have hskip : significant (token :: rest ++ [.finish]) = .error failure ↔
            significant (rest ++ [.finish]) = .error failure := by
          cases hkind : token.kind with
          | finish => exact absurd hkind (hfinish token List.mem_cons_self)
          | error => exact absurd hkind herror
          | whitespace => simp [significant, hkind]
          | number | function | constant | operator | lparen | rparen =>
              simp [significant, hkind, exceptMap_eq_error]
        rw [hskip, hrest]
        constructor
        · rintro ⟨front, other, back, rfl, hearlier, hother⟩
          refine ⟨token :: front, other, back, rfl, ?_, hother⟩
          intro earlier hmem
          rcases List.mem_cons.mp hmem with rfl | hfront
          · exact herror
          · exact hearlier earlier hfront
        · rintro ⟨front, other, back, hcons, hearlier, hother, hfailure⟩
          cases front with
          | nil =>
              cases hcons
              exact absurd hother herror
          | cons first front =>
              cases hcons
              exact ⟨front, other, back, rfl,
                fun earlier hmem => hearlier earlier (List.mem_cons_of_mem _ hmem), hother, hfailure⟩

theorem significant_filter (tokens rest : List Token) :
    significant (tokens.filter (fun token => token.kind != .whitespace) ++ rest) =
      significant (tokens ++ rest) := by
  induction tokens with
  | nil => rfl
  | cons token tokens ih =>
      cases hkind : token.kind with
      | whitespace => simp [significant, hkind, ih]
      | number | function | constant | operator | lparen | rparen | finish | error =>
          simp [significant, hkind, ih]

theorem mem_insertProductsAfter {tokens : List Token} {afterOperand : Bool} {token : Token}
    (h : token ∈ insertProductsAfter afterOperand tokens) :
    token ∈ tokens ∨ token = .operator "*" := by
  induction tokens generalizing afterOperand with
  | nil => cases h
  | cons first rest ih =>
      rw [insertProductsAfter_cons] at h
      rcases List.mem_append.mp h with hproduct | hcons
      · unfold productBefore at hproduct
        split at hproduct
        · exact .inr (List.mem_singleton.mp hproduct)
        · cases hproduct
      · rcases List.mem_cons.mp hcons with rfl | hrest
        · exact .inl List.mem_cons_self
        · rcases ih hrest with hmem | hstar
          · exact .inl (List.mem_cons_of_mem first hmem)
          · exact .inr hstar

theorem sublist_insertProductsAfter (tokens : List Token) (afterOperand : Bool) :
    tokens.Sublist (insertProductsAfter afterOperand tokens) := by
  induction tokens generalizing afterOperand with
  | nil => exact List.Sublist.slnil
  | cons token rest ih =>
      rw [insertProductsAfter_cons]
      exact ((ih (endsOperand token.kind)).cons_cons token).trans (List.sublist_append_right _ _)

theorem ofTokens_eq_ok {tokens out : List Token}
    (hfinish : forall token, token ∈ tokens -> token.kind ≠ .finish)
    (h : ofTokens (tokens ++ [.finish]) = .ok out) :
    (forall token, token ∈ out -> token ∈ tokens ∨ token = .operator "*") ∧
      forall token, token ∈ tokens -> token.kind ≠ .whitespace -> token ∈ out := by
  rcases exceptMap_eq_ok.mp h with ⟨kept, hkept, rfl⟩
  have hfilter := ((significant_eq_ok_iff hfinish).mp hkept).right
  subst hfilter
  constructor
  · intro token htoken
    rcases mem_insertProductsAfter htoken with hmem | hstar
    · exact .inl (List.mem_filter.mp hmem).left
    · exact .inr hstar
  · intro token htoken hkind
    apply (sublist_insertProductsAfter _ false).subset
    exact List.mem_filter.mpr ⟨htoken, bne_iff_ne.mpr hkind⟩

end Infix
end AngleCalc
