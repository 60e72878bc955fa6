import AngleCalc.Token

/-!
# Parentheses without a partner

The closing parentheses of an expression that close nothing, and the opening
ones that nothing closes. An expression is balanced if it has neither, and every
expression becomes balanced with opening parentheses in front and closing ones
behind.
-/

namespace AngleCalc

namespace Token

def opening : Token := ⟨.lparen, "("⟩

def closing : Token := ⟨.rparen, ")"⟩

@[simp] theorem kind_opening : opening.kind = .lparen := rfl

@[simp] theorem kind_closing : closing.kind = .rparen := rfl

def isOpening (token : Token) : Bool :=
  token.kind == .lparen

def isClosing (token : Token) : Bool :=
  token.kind == .rparen

end Token

namespace Infix

/-- How many closing parentheses close nothing. An opening one takes the first of
those after it as its partner. -/
def unmatchedClosing : List Token -> Nat
  | [] => 0
  | token :: rest =>
      match token.kind with
      | .lparen => unmatchedClosing rest - 1
      | .rparen => unmatchedClosing rest + 1
      | _ => unmatchedClosing rest

def unmatchedOpening : List Token -> Nat
  | [] => 0
  | token :: rest =>
      match token.kind with
      | .lparen =>
          if unmatchedClosing rest = 0 then unmatchedOpening rest + 1
          else unmatchedOpening rest
      | _ => unmatchedOpening rest

def enclosed (openings closings : Nat) (tokens : List Token) : List Token :=
  List.replicate openings .opening ++ tokens ++ List.replicate closings .closing

def matched (tokens : List Token) : List Token :=
  enclosed (unmatchedClosing tokens) (unmatchedOpening tokens) tokens

/-- Every closing parenthesis has an opening one before it, and there are as many
of one kind as of the other. -/
structure IsBalanced (tokens : List Token) : Prop where
  closing_le_opening : forall front, front <+: tokens ->
    front.countP Token.isClosing ≤ front.countP Token.isOpening
  closing_eq_opening :
    tokens.countP Token.isClosing = tokens.countP Token.isOpening

/-!
## One token in front
-/

section Cons

variable {token : Token} (rest : List Token)

theorem unmatchedClosing_cons_opening (h : token.kind = .lparen) :
    unmatchedClosing (token :: rest) = unmatchedClosing rest - 1 := by
  rw [unmatchedClosing]
  simp only [h]

theorem unmatchedClosing_cons_closing (h : token.kind = .rparen) :
    unmatchedClosing (token :: rest) = unmatchedClosing rest + 1 := by
  rw [unmatchedClosing]
  simp only [h]

theorem unmatchedClosing_cons_other (hopening : token.kind ≠ .lparen)
    (hclosing : token.kind ≠ .rparen) :
    unmatchedClosing (token :: rest) = unmatchedClosing rest := by
  rw [unmatchedClosing]
  cases hkind : token.kind <;> simp_all

theorem unmatchedOpening_cons_opening (h : token.kind = .lparen) :
    unmatchedOpening (token :: rest) =
      if unmatchedClosing rest = 0 then unmatchedOpening rest + 1
      else unmatchedOpening rest := by
  rw [unmatchedOpening]
  simp only [h]

theorem unmatchedOpening_cons_other (hopening : token.kind ≠ .lparen) :
    unmatchedOpening (token :: rest) = unmatchedOpening rest := by
  rw [unmatchedOpening]
  cases hkind : token.kind <;> simp_all

/-- Where every opening parenthesis is closed, the first token alone decides how
many closing ones are added. -/
theorem unmatchedClosing_cons_of_opening_eq_zero
    (h : unmatchedOpening (token :: rest) = 0) :
    unmatchedOpening rest = 0 ∧
      unmatchedClosing rest + [token].countP Token.isClosing =
        unmatchedClosing (token :: rest) + [token].countP Token.isOpening := by
  by_cases hopening : token.kind = .lparen
  · rw [unmatchedOpening_cons_opening rest hopening] at h
    rw [unmatchedClosing_cons_opening rest hopening]
    split at h
    · cases h
    · refine ⟨h, ?_⟩
      simp only [List.countP_singleton, Token.isClosing, Token.isOpening, hopening]
      simp
      omega
  · rw [unmatchedOpening_cons_other rest hopening] at h
    refine ⟨h, ?_⟩
    by_cases hclosing : token.kind = .rparen
    · rw [unmatchedClosing_cons_closing rest hclosing]
      simp [Token.isClosing, Token.isOpening, hclosing]
    · rw [unmatchedClosing_cons_other rest hopening hclosing]
      simp [Token.isClosing, Token.isOpening, hopening, hclosing]

end Cons

/-!
## Balanced expressions
-/

theorem unmatchedClosing_le {tokens : List Token} {depth : Nat}
    (h : forall front, front <+: tokens ->
      front.countP Token.isClosing ≤ depth + front.countP Token.isOpening) :
    unmatchedClosing tokens ≤ depth := by
  induction tokens generalizing depth with
  | nil => exact Nat.zero_le depth
  | cons token rest ih =>
      have hrest : forall front, front <+: rest ->
          (token :: front).countP Token.isClosing ≤
            depth + (token :: front).countP Token.isOpening := by
        intro front hfront
        exact h (token :: front) ((List.prefix_cons_inj token).mpr hfront)
      by_cases hopening : token.kind = .lparen
      · rw [unmatchedClosing_cons_opening rest hopening]
        have hbound : unmatchedClosing rest ≤ depth + 1 := by
          apply ih
          intro front hfront
          have hcount := hrest front hfront
          simp [Token.isClosing, Token.isOpening, hopening] at hcount ⊢
          omega
        omega
      · by_cases hclosing : token.kind = .rparen
        · rw [unmatchedClosing_cons_closing rest hclosing]
          have hpositive : 1 ≤ depth := by
            have hcount := hrest [] List.nil_prefix
            simpa [Token.isClosing, Token.isOpening, List.countP_cons, hclosing] using hcount
          have hbound : unmatchedClosing rest ≤ depth - 1 := by
            apply ih
            intro front hfront
            have hcount := hrest front hfront
            simp [Token.isClosing, Token.isOpening, hclosing] at hcount ⊢
            omega
          omega
        · rw [unmatchedClosing_cons_other rest hopening hclosing]
          apply ih
          intro front hfront
          have hcount := hrest front hfront
          simpa [Token.isClosing, Token.isOpening, List.countP_cons, hopening, hclosing]
            using hcount

theorem unmatchedOpening_add_closing (tokens : List Token) :
    unmatchedOpening tokens + tokens.countP Token.isClosing =
      unmatchedClosing tokens + tokens.countP Token.isOpening := by
  induction tokens with
  | nil => rfl
  | cons token rest ih =>
      by_cases hopening : token.kind = .lparen
      · rw [unmatchedOpening_cons_opening rest hopening,
          unmatchedClosing_cons_opening rest hopening]
        simp only [List.countP_cons, Token.isClosing, Token.isOpening, hopening] at ih ⊢
        split <;> simp <;> omega
      · rw [unmatchedOpening_cons_other rest hopening]
        by_cases hclosing : token.kind = .rparen
        · rw [unmatchedClosing_cons_closing rest hclosing]
          simp [Token.isClosing, Token.isOpening, hclosing] at ih ⊢
          omega
        · rw [unmatchedClosing_cons_other rest hopening hclosing]
          simpa [List.countP_cons, Token.isClosing, Token.isOpening, hopening, hclosing]
            using ih

theorem isBalanced_of_countP_eq_zero {tokens : List Token}
    (hclosing : tokens.countP Token.isClosing = 0)
    (hopening : tokens.countP Token.isOpening = 0) : IsBalanced tokens := by
  constructor
  · intro front hfront
    have hcount := hfront.sublist.countP_le (p := Token.isClosing)
    omega
  · rw [hclosing, hopening]

theorem IsBalanced.unmatchedClosing_eq_zero {tokens : List Token} (h : IsBalanced tokens) :
    unmatchedClosing tokens = 0 := by
  have hle : unmatchedClosing tokens ≤ 0 := by
    apply unmatchedClosing_le
    intro front hfront
    rw [Nat.zero_add]
    exact h.closing_le_opening front hfront
  omega

theorem IsBalanced.unmatchedOpening_eq_zero {tokens : List Token} (h : IsBalanced tokens) :
    unmatchedOpening tokens = 0 := by
  have hcount := unmatchedOpening_add_closing tokens
  have hclosing := h.unmatchedClosing_eq_zero
  have heq := h.closing_eq_opening
  omega

/-!
## Completed expressions
-/

/-- A beginning of an expression closes no more than what it opens and what the whole
expression closes without having opened it. -/
theorem countP_isClosing_le {front tokens : List Token} (h : front <+: tokens) :
    front.countP Token.isClosing ≤ unmatchedClosing tokens + front.countP Token.isOpening := by
  induction tokens generalizing front with
  | nil =>
      rw [List.prefix_nil.mp h]
      exact Nat.zero_le _
  | cons token rest ih =>
      cases front with
      | nil => exact Nat.zero_le _
      | cons first front =>
          rcases List.cons_prefix_cons.mp h with ⟨rfl, hfront⟩
          have hcount := ih hfront
          by_cases hopening : first.kind = .lparen
          · rw [unmatchedClosing_cons_opening rest hopening]
            simp [Token.isClosing, Token.isOpening, hopening] at hcount ⊢
            omega
          · by_cases hclosing : first.kind = .rparen
            · rw [unmatchedClosing_cons_closing rest hclosing]
              simp [Token.isClosing, Token.isOpening, hclosing] at hcount ⊢
              omega
            · rw [unmatchedClosing_cons_other rest hopening hclosing]
              simpa [Token.isClosing, Token.isOpening, hopening, hclosing] using hcount

theorem prefix_append_cases {α : Type} {front first second : List α}
    (h : front <+: first ++ second) :
    front <+: first ∨ exists more, front = first ++ more ∧ more <+: second := by
  rcases List.prefix_or_prefix_of_prefix h (List.prefix_append first second) with
    hfront | ⟨more, rfl⟩
  · exact .inl hfront
  · exact .inr ⟨more, rfl, (List.prefix_append_right_inj first).mp h⟩

theorem countP_replicate_opening (count : Nat) :
    (List.replicate count Token.opening).countP Token.isOpening = count ∧
      (List.replicate count Token.opening).countP Token.isClosing = 0 := by
  rw [List.countP_replicate, List.countP_replicate]
  exact ⟨rfl, rfl⟩

theorem countP_replicate_closing (count : Nat) :
    (List.replicate count Token.closing).countP Token.isOpening = 0 ∧
      (List.replicate count Token.closing).countP Token.isClosing = count := by
  rw [List.countP_replicate, List.countP_replicate]
  exact ⟨rfl, rfl⟩

theorem isBalanced_enclosed_iff {openings closings : Nat} {tokens : List Token} :
    IsBalanced (enclosed openings closings tokens) ↔
      exists more, openings = unmatchedClosing tokens + more ∧
        closings = unmatchedOpening tokens + more := by
  have hcount := unmatchedOpening_add_closing tokens
  constructor
  · rintro ⟨hbeginnings, htotal⟩
    have hle : unmatchedClosing tokens ≤ openings := by
      apply unmatchedClosing_le
      intro front hfront
      have hbeginning := hbeginnings (List.replicate openings .opening ++ front)
        (((List.prefix_append_right_inj _).mpr hfront).trans (List.prefix_append _ _))
      simp only [List.countP_append, countP_replicate_opening] at hbeginning
      omega
    rcases Nat.exists_eq_add_of_le hle with ⟨more, rfl⟩
    simp only [enclosed, List.countP_append, countP_replicate_opening, countP_replicate_closing]
      at htotal
    exact ⟨more, rfl, by omega⟩
  · rintro ⟨more, rfl, rfl⟩
    constructor
    · intro front hfront
      rcases prefix_append_cases hfront with hbefore | ⟨behind, rfl, hbehind⟩
      · rcases prefix_append_cases hbefore with hopenings | ⟨inner, rfl, hinner⟩
        · rw [(List.prefix_replicate_iff.mp hopenings).right, (countP_replicate_opening _).right]
          exact Nat.zero_le _
        · have hle := countP_isClosing_le hinner
          simp only [List.countP_append, countP_replicate_opening]
          omega
      · rcases List.prefix_replicate_iff.mp hbehind with ⟨hle, hclosings⟩
        rw [hclosings]
        simp only [List.countP_append, countP_replicate_opening, countP_replicate_closing]
        omega
    · simp only [enclosed, List.countP_append, countP_replicate_opening,
        countP_replicate_closing]
      omega

theorem isBalanced_matched (tokens : List Token) : IsBalanced (matched tokens) :=
  isBalanced_enclosed_iff.mpr ⟨0, rfl, rfl⟩

end Infix
end AngleCalc
