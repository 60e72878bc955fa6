import AngleCalc.Proofs.Postfix.Conservation
import Mathlib.Data.List.Infix

/-!
# Where zeros are written, and the order of values

Whether an expression starts at a token is decided by the tokens in front of it,
without those that are passed over: there are none, or the last of them opens a
group. A sign at such a place has a zero written in front of it, and this is all
that a conversion adds. Values never wait on the stack of held tokens, so they
keep their order.
-/

namespace AngleCalc

namespace Token

def isSign (token : Token) : Bool :=
  token == .operator "+" || token == .operator "-"

theorem isSign_eq_true {token : Token} :
    token.isSign = true ↔ token = .operator "+" ∨ token = .operator "-" := by
  simp [isSign]

end Token

namespace Operator

theorem isSign_token (operator : Operator) : operator.token.isSign = operator.isSign := by
  cases operator <;> decide

end Operator

namespace Postfix

/-!
## Places at which an expression starts
-/

/-- Whether a conversion passes over a token as if it were not there: white space,
the end of the text, what is no token of the language, and an operator that has
no meaning. -/
def isPassedOver (token : Token) : Bool :=
  match token.kind with
  | .whitespace | .finish | .error => true
  | .operator => (Operator.ofSymbol? token.text).isNone
  | _ => false

/-- Whether an expression starts behind these tokens: without those that are
passed over there are none, or the last one is an opening parenthesis. -/
def startsBehind (before : List Token) : Bool :=
  ((before.filter (fun token => !isPassedOver token)).getLast?).all
    (fun token => token.kind == .lparen)

def places (tokens : List Token) : List (List Token × Token) :=
  tokens.inits.zip tokens

def isLeadingSign (place : List Token × Token) : Bool :=
  place.2.isSign && startsBehind place.1

/-- The signs that have no left operand, each with the tokens in front of it. -/
def leadingSigns (tokens : List Token) : List (List Token × Token) :=
  (places tokens).filter isLeadingSign

/-- A token at its place, behind a zero if it is a sign without a left operand. -/
def written (place : List Token × Token) : List Token :=
  if isLeadingSign place then [.number "0", place.2] else [place.2]

theorem startsBehind_append_of_passed {token : Token} (before : List Token)
    (h : isPassedOver token = true) :
    startsBehind (before ++ [token]) = startsBehind before := by
  simp [startsBehind, h]

theorem startsBehind_append {token : Token} (before : List Token)
    (h : isPassedOver token = false) :
    startsBehind (before ++ [token]) = (token.kind == .lparen) := by
  simp [startsBehind, h]

/-- What a conversion remembers of the tokens it has read is whether an expression
starts behind them. -/
theorem startsAfter_startsBehind (before : List Token) (token : Token) :
    startsAfter (startsBehind before) token = startsBehind (before ++ [token]) := by
  cases hkind : token.kind with
  | number | constant | function | lparen | rparen =>
      rw [startsBehind_append before (by simp [isPassedOver, hkind])]
      simp [startsAfter, hkind]
  | whitespace | finish | error =>
      rw [startsBehind_append_of_passed before (by simp [isPassedOver, hkind])]
      simp [startsAfter, hkind]
  | operator =>
      cases hsymbol : Operator.ofSymbol? token.text with
      | none =>
          rw [startsBehind_append_of_passed before (by simp [isPassedOver, hkind, hsymbol])]
          simp [startsAfter, Token.operator?, hkind, hsymbol]
      | some operator =>
          rw [startsBehind_append before (by simp [isPassedOver, hkind, hsymbol])]
          simp [startsAfter, Token.operator?, hkind, hsymbol]

/-!
## Written zeros
-/

theorem zeroBefore_eq (atStart : Bool) (token : Token) :
    zeroBefore atStart token =
      if token.isSign && atStart then [.number "0"] else [] := by
  cases hoperator : token.operator? with
  | none =>
      have hsign : token.isSign = false := by
        rw [Bool.eq_false_iff]
        intro hsign
        rcases Token.isSign_eq_true.mp hsign with rfl | rfl
        · exact absurd hoperator (by decide)
        · exact absurd hoperator (by decide)
      simp [zeroBefore, hoperator, hsign]
  | some operator =>
      have htoken := Operator.eq_token_of_operator? hoperator
      simp only [zeroBefore, hoperator, signOperand]
      rw [htoken, Operator.isSign_token, Bool.and_comm]

theorem zeroBefore_startsBehind (before : List Token) (token : Token) :
    zeroBefore (startsBehind before) token ++ [token] = written (before, token) := by
  rw [zeroBefore_eq]
  unfold written isLeadingSign
  split <;> rfl

/-- The zeros that a conversion writes are those in front of the leading signs. The
induction is over the tokens still to come, behind any tokens already read. -/
theorem withZeros_startsBehind (rest before : List Token) :
    withZeros (startsBehind before) rest =
      ((rest.inits.map (before ++ ·)).zip rest).flatMap written := by
  induction rest generalizing before with
  | nil => rfl
  | cons token rest ih =>
      have hplaces : (token :: rest).inits.map (before ++ ·) =
          before :: rest.inits.map (before ++ [token] ++ ·) := by
        simp
      rw [withZeros, startsAfter_startsBehind, ih, hplaces, List.zip_cons_cons,
        List.flatMap_cons, List.append_cons, zeroBefore_startsBehind]

theorem withZeros_eq (tokens : List Token) :
    withZeros true tokens = (places tokens).flatMap written := by
  have hstart : startsBehind [] = true := rfl
  rw [← hstart, withZeros_startsBehind tokens []]
  simp [places]

theorem map_snd_places (tokens : List Token) : (places tokens).map Prod.snd = tokens :=
  List.map_snd_zip (by simp)

theorem flatMap_written_perm (places : List (List Token × Token)) :
    (places.flatMap written).Perm
      (places.map Prod.snd ++
        List.replicate (places.filter isLeadingSign).length (.number "0")) := by
  induction places with
  | nil => exact List.Perm.refl _
  | cons place places ih =>
      have hrest := ih.cons place.2
      by_cases hleading : isLeadingSign place = true
      · rw [List.filter_cons_of_pos hleading]
        simp only [List.flatMap_cons, written, hleading, if_true, List.cons_append,
          List.nil_append, List.map_cons, List.length_cons, List.replicate_succ]
        exact (hrest.cons _).trans
          ((List.Perm.swap _ _ _).trans (List.perm_middle.symm.cons place.2))
      · rw [List.filter_cons_of_neg hleading]
        simpa [written, hleading] using hrest

theorem map_snd_sublist_flatMap_written (places : List (List Token × Token)) :
    (places.map Prod.snd).Sublist (places.flatMap written) := by
  induction places with
  | nil => exact List.Sublist.refl _
  | cons place places ih =>
      have hplace : [place.2].Sublist (written place) := by
        unfold written
        split <;> simp
      exact hplace.append ih

/-!
## Values
-/

def HoldsNoValue (held : List Token) : Prop :=
  forall token, token ∈ held -> token.isValue = false

theorem HoldsNoValue.filter_eq_nil {held : List Token} (h : HoldsNoValue held) :
    held.filter Token.isValue = [] :=
  List.filter_eq_nil_iff.mpr (fun token hmem => by simp [h token hmem])

theorem HoldsNoValue.cons {token : Token} {held : List Token} (h : HoldsNoValue held)
    (htoken : token.isValue = false) : HoldsNoValue (token :: held) :=
  List.forall_mem_cons.mpr ⟨htoken, h⟩

theorem HoldsNoValue.sublist {held kept : List Token} (h : HoldsNoValue held)
    (hkept : kept.Sublist held) : HoldsNoValue kept :=
  fun token hmem => h token (hkept.subset hmem)

theorem closeGroup_sublist (held : List Token) :
    ((closeGroup held).1 ++ (closeGroup held).2).Sublist held := by
  induction held with
  | nil => exact List.Sublist.refl _
  | cons top held ih =>
      by_cases hopening : top.kind = .lparen
      · rw [closeGroup_opening hopening]
        refine List.Sublist.cons top ?_
        unfold releaseFunction
        split
        · exact List.Sublist.refl _
        · split <;> exact List.Sublist.refl _
      · rw [closeGroup_cons hopening]
        exact ih.cons_cons top

theorem heldAfter_holdsNoValue {held : List Token} (h : HoldsNoValue held) (token : Token) :
    HoldsNoValue (heldAfter held token) := by
  cases hkind : token.kind with
  | function | lparen =>
      simp only [heldAfter, hkind]
      exact h.cons (by simp [Token.isValue, hkind])
  | rparen =>
      simp only [heldAfter, hkind]
      exact h.sublist ((List.sublist_append_right _ _).trans (closeGroup_sublist held))
  | operator =>
      cases hoperator : token.operator? with
      | none => simpa only [heldAfter, hkind, hoperator] using h
      | some operator =>
          simp only [heldAfter, hkind, hoperator]
          exact (h.sublist (List.dropWhile_sublist _)).cons (by simp [Token.isValue, hkind])
  | number | constant | whitespace | finish | error =>
      simpa only [heldAfter, hkind] using h

theorem leaving_filter_isValue {held : List Token} (h : HoldsNoValue held) (atStart : Bool)
    (token : Token) :
    (leaving held atStart token).filter Token.isValue =
      (zeroBefore atStart token ++ [token]).filter Token.isValue := by
  cases hkind : token.kind with
  | rparen =>
      have hgroup := h.sublist
        ((List.sublist_append_left _ _).trans (closeGroup_sublist held))
      simp [leaving, zeroBefore, Token.operator?, Token.isValue, hkind, hgroup.filter_eq_nil]
  | operator =>
      cases hoperator : token.operator? with
      | none => simp [leaving, zeroBefore, hkind, hoperator]
      | some operator =>
          have hleft := h.sublist (List.takeWhile_sublist (leavesBefore operator))
          have htoken : token.isValue = false := by simp [Token.isValue, hkind]
          simp [leaving, zeroBefore, hkind, hoperator, htoken, hleft.filter_eq_nil]
  | number | constant | function | lparen | whitespace | finish | error =>
      simp [leaving, zeroBefore, Token.operator?, Token.isValue, hkind]

theorem convert_filter_isValue (tokens : List Token) {held : List Token}
    (h : HoldsNoValue held) (atStart : Bool) :
    (convert held atStart tokens).filter Token.isValue =
      (withZeros atStart tokens).filter Token.isValue := by
  induction tokens generalizing held atStart with
  | nil => exact (h.sublist List.filter_sublist).filter_eq_nil
  | cons token rest ih =>
      rw [convert_cons, withZeros, List.append_cons, List.filter_append, List.filter_append,
        leaving_filter_isValue h, ih (heldAfter_holdsNoValue h token)]

/-!
## The whole conversion
-/

/-- A conversion rearranges the numbers, the constants, the functions and the
operators of an expression together with one zero for each sign that has no left
operand, and emits nothing else. The values come out in the order of the
expression, the zero of a sign where the sign stands. -/
theorem ofInfix_conserves (tokens : List Token) :
    (ofInfix tokens).Perm
        (tokens.filter isEmitted ++
          List.replicate (leadingSigns tokens).length (.number "0")) ∧
      (ofInfix tokens).filter Token.isValue =
        ((places tokens).flatMap written).filter Token.isValue ∧
      (tokens.filter Token.isValue).Sublist (ofInfix tokens) := by
  have hvalues : (ofInfix tokens).filter Token.isValue =
      ((places tokens).flatMap written).filter Token.isValue := by
    rw [← withZeros_eq]
    exact convert_filter_isValue tokens (by simp [HoldsNoValue]) true
  refine ⟨?_, hvalues, ?_⟩
  · have hzeros := (flatMap_written_perm (places tokens)).filter isEmitted
    rw [map_snd_places, List.filter_append, List.filter_replicate_of_pos rfl] at hzeros
    have hall := ofInfix_perm tokens
    rw [withZeros_eq] at hall
    exact hall.trans hzeros
  · have hkept := (map_snd_sublist_flatMap_written (places tokens)).filter Token.isValue
    rw [map_snd_places, ← hvalues] at hkept
    exact hkept.trans List.filter_sublist

-- White space, or an operator without a meaning, does not keep a sign from being
-- the first token of a group.
example :
    ofInfix [⟨.lparen, "("⟩, .operator "%", ⟨.whitespace, " "⟩, .operator "-", .number "2"]
      = [.operator "%", .number "0", .number "2", .operator "-"] := by
  decide

end Postfix
end AngleCalc
