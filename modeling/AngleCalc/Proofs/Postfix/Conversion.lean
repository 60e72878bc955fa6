import AngleCalc.Expression

/-!
# Conversion to postfix order, token by token

For each token that is read, some tokens leave and the others stay held. The rest
of the module is about held tokens: which of them leave before the next token is
read, and what a closing parenthesis does to those below the group it closes.
-/

namespace AngleCalc

/-!
## Tokens that stand for an operator
-/

namespace Token

def operator? (token : Token) : Option Operator :=
  if token.kind = .operator then Operator.ofSymbol? token.text else none

theorem operator?_eq_some {token : Token} {operator : Operator} :
    token.operator? = some operator ↔
      token.kind = .operator ∧ Operator.ofSymbol? token.text = some operator := by
  unfold operator?
  split <;> simp_all

theorem kind_of_operator? {token : Token} {operator : Operator}
    (h : token.operator? = some operator) : token.kind = .operator :=
  (operator?_eq_some.mp h).left

theorem role_cases (token : Token) :
    token.isValue = true ∨ token.kind = .function ∨ token.kind = .lparen ∨
      token.kind = .rparen ∨ (exists operator, token.operator? = some operator) ∨
      (token.kind = .operator ∧ token.operator? = none) ∨
      (token.kind = .whitespace ∨ token.kind = .finish ∨ token.kind = .error) := by
  rcases token with ⟨kind, text⟩
  cases kind with
  | number => exact Or.inl rfl
  | constant => exact Or.inl rfl
  | operator =>
      cases hsymbol : Operator.ofSymbol? text with
      | none => simp [operator?, hsymbol]
      | some operator => simp [operator?, hsymbol]
  | function | lparen | rparen | whitespace | finish | error => simp

end Token

namespace Operator

def token (operator : Operator) : Token :=
  .operator (String.singleton operator.symbol)

theorem ofSymbol?_singleton (operator : Operator) :
    ofSymbol? (String.singleton operator.symbol) = some operator := by
  cases operator <;> decide

@[simp] theorem operator?_token (operator : Operator) :
    operator.token.operator? = some operator :=
  Token.operator?_eq_some.mpr ⟨rfl, ofSymbol?_singleton operator⟩

theorem eq_token_of_operator? {token : Token} {operator : Operator}
    (h : token.operator? = some operator) : token = operator.token := by
  rcases Token.operator?_eq_some.mp h with ⟨hkind, hsymbol⟩
  have htext := List.find?_some hsymbol
  cases token with
  | mk kind text =>
      have hsingle : String.singleton operator.symbol = text := by
        simpa using htext
      change kind = .operator at hkind
      rw [hkind, ← hsingle]
      rfl

end Operator

namespace Postfix

/-!
## One token of a conversion
-/

def leaving (held : List Token) (atStart : Bool) (token : Token) : List Token :=
  match token.kind with
  | .number | .constant => [token]
  | .rparen => (closeGroup held).1
  | .operator =>
      match token.operator? with
      | none => [token]
      | some operator => signOperand atStart operator ++ held.takeWhile (leavesBefore operator)
  | _ => []

def heldAfter (held : List Token) (token : Token) : List Token :=
  match token.kind with
  | .function | .lparen => token :: held
  | .rparen => (closeGroup held).2
  | .operator =>
      match token.operator? with
      | none => held
      | some operator => token :: held.dropWhile (leavesBefore operator)
  | _ => held

def startsAfter (atStart : Bool) (token : Token) : Bool :=
  match token.kind with
  | .lparen => true
  | .operator => atStart && token.operator?.isNone
  | .whitespace | .finish | .error => atStart
  | _ => false

theorem convert_cons (held : List Token) (atStart : Bool) (token : Token) (rest : List Token) :
    convert held atStart (token :: rest) =
      leaving held atStart token ++
        convert (heldAfter held token) (startsAfter atStart token) rest := by
  rw [convert]
  cases hkind : token.kind
  case operator =>
      cases hsymbol : Operator.ofSymbol? token.text <;>
        simp [leaving, heldAfter, startsAfter, Token.operator?, hkind, hsymbol]
  all_goals simp [leaving, heldAfter, startsAfter, hkind]

/-- What a conversion makes of the tokens at the front does not depend on the
tokens behind them. -/
theorem convert_append (front : List Token) (held : List Token) (atStart : Bool) :
    exists out held' atStart', forall rest,
      convert held atStart (front ++ rest) = out ++ convert held' atStart' rest := by
  induction front generalizing held atStart with
  | nil => exact ⟨[], held, atStart, fun _ => rfl⟩
  | cons token front ih =>
      rcases ih (heldAfter held token) (startsAfter atStart token) with
        ⟨out, held', atStart', hfront⟩
      refine ⟨leaving held atStart token ++ out, held', atStart', ?_⟩
      intro rest
      rw [List.cons_append, convert_cons, hfront, List.append_assoc]

section Kinds

variable {token : Token} (held : List Token) (atStart : Bool) (rest : List Token)

theorem convert_value (h : token.isValue = true) :
    convert held atStart (token :: rest) = token :: convert held false rest := by
  rw [convert_cons]
  cases hkind : token.kind <;>
    simp_all [Token.isValue, leaving, heldAfter, startsAfter]

theorem convert_function (h : token.kind = .function) :
    convert held atStart (token :: rest) = convert (token :: held) false rest := by
  simp [convert_cons, leaving, heldAfter, startsAfter, h]

theorem convert_opening (h : token.kind = .lparen) :
    convert held atStart (token :: rest) = convert (token :: held) true rest := by
  simp [convert_cons, leaving, heldAfter, startsAfter, h]

theorem convert_closing (h : token.kind = .rparen) :
    convert held atStart (token :: rest) =
      (closeGroup held).1 ++ convert (closeGroup held).2 false rest := by
  simp [convert_cons, leaving, heldAfter, startsAfter, h]

theorem convert_operator {operator : Operator} (h : token.operator? = some operator) :
    convert held atStart (token :: rest) =
      signOperand atStart operator ++ held.takeWhile (leavesBefore operator) ++
        convert (token :: held.dropWhile (leavesBefore operator)) false rest := by
  have hkind := Token.kind_of_operator? h
  simp [convert_cons, leaving, heldAfter, startsAfter, hkind, h]

end Kinds

/-!
## Held tokens that leave
-/

theorem leavesBefore_function (next : Operator) {token : Token}
    (h : token.kind = .function) : leavesBefore next token = true := by
  simp only [leavesBefore, h]

theorem leavesBefore_opening (next : Operator) {token : Token}
    (h : token.kind = .lparen) : leavesBefore next token = false := by
  simp only [leavesBefore, h]

theorem leavesBefore_operator (next : Operator) {token : Token} {operator : Operator}
    (h : token.operator? = some operator) :
    leavesBefore next token =
      (decide (next.precedence < operator.precedence) ||
        (operator.precedence == next.precedence && !next.rightAssociative)) := by
  rcases Token.operator?_eq_some.mp h with ⟨hkind, hsymbol⟩
  simp only [leavesBefore, hkind, hsymbol]

theorem isNotOpening_eq_true {token : Token} :
    isNotOpening token = true ↔ token.kind ≠ .lparen := by
  simp [isNotOpening]

theorem isNotOpening_of_leavesBefore {next : Operator} {token : Token}
    (h : leavesBefore next token = true) : isNotOpening token = true := by
  rw [isNotOpening_eq_true]
  intro hopening
  rw [leavesBefore_opening next hopening] at h
  cases h

/-- Whether a held token leaves before the first of the tokens to come is read,
or at their end. -/
def LeavesFor (token : Token) : List Token -> Prop
  | [] => True
  | next :: _ =>
      next.kind = .rparen ∨
        exists operator, next.operator? = some operator ∧ leavesBefore operator token = true

def FollowsOperand : List Token -> Prop
  | [] => True
  | next :: _ => next.kind = .rparen ∨ exists operator, next.operator? = some operator

theorem leavesFor_of_function {token : Token} {rest : List Token}
    (h : token.kind = .function) (hrest : FollowsOperand rest) : LeavesFor token rest := by
  cases rest with
  | nil => trivial
  | cons next rest =>
      rcases hrest with hclosing | ⟨operator, hoperator⟩
      · exact Or.inl hclosing
      · exact Or.inr ⟨operator, hoperator, leavesBefore_function operator h⟩

theorem closeGroup_cons {token : Token} (h : token.kind ≠ .lparen) (held : List Token) :
    closeGroup (token :: held) = (token :: (closeGroup held).1, (closeGroup held).2) := by
  have hopening : isNotOpening token = true := isNotOpening_eq_true.mpr h
  unfold closeGroup
  rw [List.takeWhile_cons_of_pos hopening, List.dropWhile_cons_of_pos hopening]
  cases (held.dropWhile isNotOpening).drop 1 with
  | nil => rfl
  | cons next below =>
      by_cases hnext : next.kind = .function <;> simp [hnext]

/-- What a closed group does to the tokens held below it: a function on top has
waited for the group and leaves. -/
def releaseFunction : List Token -> List Token × List Token
  | [] => ([], [])
  | top :: below => if top.kind = .function then ([top], below) else ([], top :: below)

theorem closeGroup_opening {opening : Token} (h : opening.kind = .lparen)
    (below : List Token) : closeGroup (opening :: below) = releaseFunction below := by
  have hnot : ¬ isNotOpening opening = true := by
    rw [isNotOpening_eq_true]
    exact fun hother => hother h
  unfold closeGroup
  rw [List.takeWhile_cons_of_neg hnot, List.dropWhile_cons_of_neg hnot]
  cases below <;> rfl

theorem convert_leave {token : Token} {rest : List Token} (held : List Token)
    (hopening : token.kind ≠ .lparen) (h : LeavesFor token rest) :
    convert (token :: held) false rest = token :: convert held false rest := by
  cases rest with
  | nil =>
      simp only [convert]
      rw [List.filter_cons_of_pos (isNotOpening_eq_true.mpr hopening)]
  | cons next rest =>
      rcases h with hclosing | ⟨operator, hoperator, hleaves⟩
      · rw [convert_closing _ _ _ hclosing, convert_closing _ _ _ hclosing,
          closeGroup_cons hopening held]
        rfl
      · rw [convert_operator _ _ _ hoperator, convert_operator _ _ _ hoperator,
          List.takeWhile_cons_of_pos hleaves, List.dropWhile_cons_of_pos hleaves]
        rfl

/-!
## Closing a group
-/

theorem closeGroup_of_notOpening {held : List Token} (opening : Token) (below : List Token)
    (hheld : forall token, token ∈ held -> token.kind ≠ .lparen) :
    closeGroup (held ++ opening :: below) =
      (held ++ (closeGroup (opening :: below)).1, (closeGroup (opening :: below)).2) := by
  induction held with
  | nil => rfl
  | cons token held ih =>
      rw [List.cons_append, closeGroup_cons (hheld token (List.mem_cons_self)),
        ih (fun other hother => hheld other (List.mem_cons_of_mem token hother))]
      rfl

/-- A function that has waited for a group leaves before the tokens to come as well as
at once. -/
theorem convert_release {below rest : List Token} (hrest : FollowsOperand rest) :
    (releaseFunction below).1 ++ convert (releaseFunction below).2 false rest =
      convert below false rest := by
  cases below with
  | nil => rfl
  | cons token below =>
      by_cases hfunction : token.kind = .function
      · have hleave : convert (token :: below) false rest = token :: convert below false rest :=
          convert_leave below (by simp [hfunction]) (leavesFor_of_function hfunction hrest)
        simp [releaseFunction, hfunction, hleave]
      · simp [releaseFunction, hfunction]

/-- When a group is closed, the tokens held in it leave, and then a function that has
waited for it. -/
theorem convert_closeGroup {held : List Token} (below rest : List Token)
    {opening closing : Token} (atStart : Bool)
    (hheld : forall token, token ∈ held -> token.kind ≠ .lparen)
    (hopening : opening.kind = .lparen) (hclosing : closing.kind = .rparen) :
    convert (held ++ opening :: below) atStart (closing :: rest) =
      held ++ ((releaseFunction below).1 ++ convert (releaseFunction below).2 false rest) := by
  rw [convert_closing _ _ _ hclosing, closeGroup_of_notOpening opening below hheld,
    closeGroup_opening hopening, List.append_assoc]

/-- A group that is closed leaves what is held below it to the tokens to come,
although a function that waited for the group leaves at once. -/
theorem convert_close {held below rest : List Token} {opening closing : Token}
    (atStart : Bool) (hheld : forall token, token ∈ held -> token.kind ≠ .lparen)
    (hopening : opening.kind = .lparen) (hclosing : closing.kind = .rparen)
    (hrest : FollowsOperand rest) :
    convert (held ++ opening :: below) atStart (closing :: rest) =
      held ++ convert below false rest := by
  rw [convert_closeGroup below rest atStart hheld hopening hclosing, convert_release hrest]

end Postfix
end AngleCalc
