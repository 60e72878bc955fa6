import AngleCalc.Proofs.Infix.Parentheses
import AngleCalc.Proofs.Postfix.Conservation

/-!
# Groups

The conversion of a balanced group does not look at the tokens held below its opening
parenthesis. An opening parenthesis below all other held tokens is not looked at either:
a closing parenthesis that has no partner stops there as it stops at the bottom of the
stack. So an expression can be enclosed in any number of opening and closing parentheses,
and its missing ones may be written or left out.
-/

namespace AngleCalc
namespace Postfix

/-!
## Held tokens below an opening parenthesis
-/

section Below

variable {opening : Token} (below : List Token)

theorem takeWhile_leavesBefore_above (operator : Operator) (held : List Token)
    (hopening : opening.kind = .lparen) :
    (held ++ opening :: below).takeWhile (leavesBefore operator) =
        held.takeWhile (leavesBefore operator) ∧
      (held ++ opening :: below).dropWhile (leavesBefore operator) =
        held.dropWhile (leavesBefore operator) ++ opening :: below := by
  induction held with
  | nil => simp [leavesBefore_opening operator hopening]
  | cons top held ih =>
      by_cases hleaves : leavesBefore operator top = true
      · simp [hleaves, ih.left, ih.right]
      · simp [hleaves]

theorem closeGroup_above {held : List Token} (hopening : opening.kind = .lparen)
    (hheld : 0 < held.countP Token.isOpening) :
    closeGroup (held ++ opening :: below) =
      ((closeGroup held).1, (closeGroup held).2 ++ opening :: below) := by
  induction held with
  | nil => simp at hheld
  | cons top held ih =>
      by_cases htop : top.kind = .lparen
      · rw [List.cons_append, closeGroup_opening htop, closeGroup_opening htop]
        cases held with
        | nil => simp [releaseFunction, hopening]
        | cons next held =>
            by_cases hfunction : next.kind = .function <;> simp [releaseFunction, hfunction]
      · have hrest : 0 < held.countP Token.isOpening := by
          simpa [Token.isOpening, htop] using hheld
        rw [List.cons_append, closeGroup_cons htop, closeGroup_cons htop, ih hrest]

/-- A token is read above an opening parenthesis as it is read alone, unless it
closes that parenthesis. -/
theorem step_above {held : List Token} (atStart : Bool) {token : Token}
    (hopening : opening.kind = .lparen)
    (hclosing : token.kind = .rparen -> 0 < held.countP Token.isOpening) :
    leaving (held ++ opening :: below) atStart token = leaving held atStart token ∧
      heldAfter (held ++ opening :: below) token = heldAfter held token ++ opening :: below := by
  cases hkind : token.kind with
  | rparen =>
      have hclose := closeGroup_above below hopening (hclosing hkind)
      simp [leaving, heldAfter, hkind, hclose]
  | operator =>
      cases hoperator : token.operator? with
      | none => simp [leaving, heldAfter, hkind, hoperator]
      | some operator =>
          rcases takeWhile_leavesBefore_above below operator held hopening with ⟨htake, hdrop⟩
          simp [leaving, heldAfter, hkind, hoperator, htake, hdrop]
  | number | constant | function | lparen | whitespace | finish | error =>
      simp [leaving, heldAfter, hkind]

end Below

theorem countP_isOpening_dropWhile (operator : Operator) (held : List Token) :
    (held.dropWhile (leavesBefore operator)).countP Token.isOpening =
      held.countP Token.isOpening := by
  induction held with
  | nil => rfl
  | cons top held ih =>
      by_cases hleaves : leavesBefore operator top = true
      · have hnot : top.isOpening = false := by
          have hkept := isNotOpening_eq_true.mp (isNotOpening_of_leavesBefore hleaves)
          simpa [Token.isOpening] using hkept
        rw [List.dropWhile_cons_of_pos hleaves, ih, List.countP_cons]
        simp [hnot]
      · rw [List.dropWhile_cons_of_neg hleaves]

theorem countP_isOpening_closeGroup {held : List Token}
    (h : 0 < held.countP Token.isOpening) :
    (closeGroup held).2.countP Token.isOpening + 1 = held.countP Token.isOpening := by
  induction held with
  | nil => simp at h
  | cons top held ih =>
      by_cases htop : top.kind = .lparen
      · rw [closeGroup_opening htop]
        cases held with
        | nil => simp [releaseFunction, Token.isOpening, htop]
        | cons next held =>
            by_cases hfunction : next.kind = .function <;>
              simp [releaseFunction, Token.isOpening, htop, hfunction]
      · have hrest : 0 < held.countP Token.isOpening := by
          simpa [Token.isOpening, htop] using h
        rw [closeGroup_cons htop, ih hrest]
        simp [Token.isOpening, htop]

theorem countP_isOpening_heldAfter {held : List Token} {token : Token}
    (hclosing : token.kind = .rparen -> 0 < held.countP Token.isOpening) :
    (heldAfter held token).countP Token.isOpening + [token].countP Token.isClosing =
      held.countP Token.isOpening + [token].countP Token.isOpening := by
  cases hkind : token.kind with
  | rparen =>
      have hcount := countP_isOpening_closeGroup (hclosing hkind)
      simpa [heldAfter, Token.isOpening, Token.isClosing, hkind] using hcount
  | operator =>
      cases hoperator : token.operator? with
      | none => simp [heldAfter, Token.isOpening, Token.isClosing, hkind, hoperator]
      | some operator =>
          simp [heldAfter, Token.isOpening, Token.isClosing, hkind, hoperator,
            countP_isOpening_dropWhile]
  | number | constant | function | lparen | whitespace | finish | error =>
      simp [heldAfter, Token.isOpening, Token.isClosing, hkind]

/-!
## A balanced group
-/

theorem notOpening_of_countP_eq_zero {held : List Token}
    (h : held.countP Token.isOpening = 0) :
    forall token, token ∈ held -> token.kind ≠ .lparen := by
  intro token htoken hkind
  exact List.countP_eq_zero.mp h token htoken (by simp [Token.isOpening, hkind])

/-- A group that closes the parentheses it opens, and those held since the group
was opened, is converted as it is alone. -/
theorem convert_group {opening closing : Token} (below rest : List Token)
    (hopening : opening.kind = .lparen) (hclosing : closing.kind = .rparen)
    (tokens : List Token) :
    forall (held : List Token) (atStart : Bool),
      Infix.unmatchedClosing tokens = held.countP Token.isOpening ->
      Infix.unmatchedOpening tokens = 0 ->
      convert (held ++ opening :: below) atStart (tokens ++ closing :: rest) =
        convert held atStart tokens ++
          ((releaseFunction below).1 ++ convert (releaseFunction below).2 false rest) := by
  induction tokens with
  | nil =>
      intro held atStart hcount _
      have hheld := notOpening_of_countP_eq_zero hcount.symm
      have hkept : held.filter isNotOpening = held := by
        rw [List.filter_eq_self]
        intro token htoken
        exact isNotOpening_eq_true.mpr (hheld token htoken)
      rw [List.nil_append, convert_closeGroup below rest atStart hheld hopening hclosing, convert,
        hkept]
  | cons token tokens ih =>
      -- The rest of the group closes as many parentheses as are held above `opening`.
      intro held atStart hcount hopened
      rcases Infix.unmatchedClosing_cons_of_opening_eq_zero tokens hopened with
        ⟨hopenedRest, htoken⟩
      have hheld : token.kind = .rparen -> 0 < held.countP Token.isOpening := by
        intro hkind
        rw [← hcount, Infix.unmatchedClosing_cons_closing tokens hkind]
        exact Nat.succ_pos _
      have hafter := countP_isOpening_heldAfter hheld
      rcases step_above below atStart hopening hheld with ⟨hleaving, hheldAfter⟩
      rw [List.cons_append, convert_cons, convert_cons, hleaving, hheldAfter,
        ih (heldAfter held token) (startsAfter atStart token) (by omega) hopenedRest,
        List.append_assoc]

/-- A balanced group in front of an operator, a closing parenthesis or the end is
converted as it is alone, and what is held below it is left to the tokens to come. -/
theorem convert_balanced {opening closing : Token} {below rest tokens : List Token}
    (hopening : opening.kind = .lparen) (hclosing : closing.kind = .rparen)
    (hrest : FollowsOperand rest) (atStart : Bool)
    (hunopened : Infix.unmatchedClosing tokens = 0)
    (hunclosed : Infix.unmatchedOpening tokens = 0) :
    convert (opening :: below) atStart (tokens ++ closing :: rest) =
      convert [] atStart tokens ++ convert below false rest := by
  have hgroup := convert_group below rest hopening hclosing tokens [] atStart hunopened hunclosed
  rwa [convert_release hrest] at hgroup

/-!
## Enclosing parentheses
-/

theorem closeGroup_eq_self {held : List Token}
    (hheld : forall token, token ∈ held -> token.kind ≠ .lparen) :
    closeGroup held = (held, []) := by
  induction held with
  | nil => rfl
  | cons top held ih =>
      rw [closeGroup_cons (hheld top List.mem_cons_self),
        ih (fun token htoken => hheld token (List.mem_cons_of_mem top htoken))]

/-- Below all other held tokens an opening parenthesis does for a closing one that has no
partner what the bottom of the stack does. -/
theorem closeGroup_above_openings {held : List Token} (count : Nat)
    (hheld : forall token, token ∈ held -> token.kind ≠ .lparen) :
    closeGroup (held ++ List.replicate (count + 1) .opening) =
      (held, List.replicate count .opening) := by
  rw [List.replicate_succ, closeGroup_of_notOpening .opening _ hheld,
    closeGroup_opening Token.kind_opening]
  cases count with
  | zero => simp [releaseFunction]
  | succ count => simp [releaseFunction, List.replicate_succ]

theorem step_above_openings (held : List Token) (atStart : Bool) (token : Token) (count : Nat) :
    leaving (held ++ List.replicate count .opening) atStart token = leaving held atStart token ∧
      exists fewer, heldAfter (held ++ List.replicate count .opening) token =
        heldAfter held token ++ List.replicate fewer .opening := by
  cases count with
  | zero =>
      rw [List.replicate_zero, List.append_nil]
      exact ⟨rfl, 0, (List.append_nil _).symm⟩
  | succ count =>
      by_cases horphan : token.kind = .rparen ∧ held.countP Token.isOpening = 0
      · rcases horphan with ⟨hclosing, hcount⟩
        have hheld := notOpening_of_countP_eq_zero hcount
        have habove := closeGroup_above_openings count hheld
        have halone := closeGroup_eq_self hheld
        constructor
        · simp only [leaving, hclosing, habove, halone]
        · exact ⟨count, by simp only [heldAfter, hclosing, habove, halone, List.nil_append]⟩
      · have hpartner : token.kind = .rparen -> 0 < held.countP Token.isOpening :=
          fun hclosing => Nat.pos_of_ne_zero (fun hcount => horphan ⟨hclosing, hcount⟩)
        rcases step_above (List.replicate count .opening) atStart Token.kind_opening hpartner with
          ⟨hleaving, hheldAfter⟩
        exact ⟨hleaving, count + 1, hheldAfter⟩

theorem convert_above_openings (tokens held : List Token) (atStart : Bool) (count : Nat) :
    convert (held ++ List.replicate count .opening) atStart tokens =
      convert held atStart tokens := by
  induction tokens generalizing held atStart count with
  | nil =>
      have hopenings : (List.replicate count Token.opening).filter isNotOpening = [] :=
        List.filter_replicate_of_neg (by decide)
      rw [convert, convert, List.filter_append, hopenings, List.append_nil]
  | cons token rest ih =>
      rcases step_above_openings held atStart token count with ⟨hleaving, fewer, hheldAfter⟩
      rw [convert_cons, convert_cons, hleaving, hheldAfter, ih]

theorem convert_openings (count : Nat) (held rest : List Token) :
    convert held true (List.replicate count .opening ++ rest) =
      convert (List.replicate count .opening ++ held) true rest := by
  induction count generalizing held with
  | zero => rfl
  | succ count ih =>
      rw [List.replicate_succ, List.cons_append, convert_opening _ _ _ Token.kind_opening, ih,
        ← List.replicate_succ, List.replicate_succ', List.append_assoc]
      rfl

theorem convert_closings (count : Nat) (held : List Token) (atStart : Bool) :
    convert held atStart (List.replicate count .closing) = held.filter isNotOpening := by
  induction count generalizing held atStart with
  | zero => rfl
  | succ count ih =>
      rw [List.replicate_succ, convert_closing _ _ _ Token.kind_closing, ih, filter_closeGroup]

theorem convert_append_closings (tokens held : List Token) (atStart : Bool) (count : Nat) :
    convert held atStart (tokens ++ List.replicate count .closing) =
      convert held atStart tokens := by
  rcases convert_append tokens held atStart with ⟨out, held', atStart', htokens⟩
  have hend := htokens []
  rw [List.append_nil] at hend
  rw [htokens, hend, convert_closings, convert]

theorem ofInfix_enclosed (openings closings : Nat) (tokens : List Token) :
    ofInfix (Infix.enclosed openings closings tokens) = ofInfix tokens := by
  have habove := convert_above_openings tokens [] true openings
  rw [ofInfix, Infix.enclosed, convert_append_closings, convert_openings, List.append_nil, ofInfix]
  rwa [List.nil_append] at habove

/-!
## Parentheses without a partner
-/

/-- A closing parenthesis that closes nothing makes a group of all tokens before it. -/
theorem ofInfix_unopened {before : List Token} {closing : Token} (after : List Token)
    (hclosing : closing.kind = .rparen) (hbefore : Infix.unmatchedOpening before = 0) :
    ofInfix (before ++ closing :: after) = ofInfix before ++ convert [] false after := by
  have hopened := ofInfix_enclosed (Infix.unmatchedClosing before + 1) 0 (before ++ closing :: after)
  have hgroup := convert_group [] after Token.kind_opening hclosing before
    (List.replicate (Infix.unmatchedClosing before) Token.opening) true
    (Infix.countP_replicate_opening _).left.symm hbefore
  have habove := convert_above_openings before [] true (Infix.unmatchedClosing before)
  rw [Infix.enclosed, List.replicate_zero, List.append_nil, ofInfix, convert_openings,
    List.append_nil, List.replicate_succ', hgroup] at hopened
  rw [List.nil_append] at habove
  rw [← hopened, habove]
  rfl

/-- An opening parenthesis that is not closed makes a group of all tokens behind it. -/
theorem convert_unclosed {opening : Token} {after : List Token} (held : List Token)
    (hopening : opening.kind = .lparen) (hafter : Infix.unmatchedClosing after = 0) :
    convert (opening :: held) true after = ofInfix after ++ held.filter isNotOpening := by
  have hbalanced := Infix.isBalanced_matched after
  rw [Infix.matched, Infix.enclosed, hafter, List.replicate_zero, List.nil_append] at hbalanced
  have hend : FollowsOperand [] := trivial
  have hgroup : convert (opening :: held) true
      (after ++ List.replicate (Infix.unmatchedOpening after) .closing ++ .closing :: []) =
        convert [] true (after ++ List.replicate (Infix.unmatchedOpening after) .closing) ++
          convert held false [] :=
    convert_balanced hopening Token.kind_closing hend true hbalanced.unmatchedClosing_eq_zero
      hbalanced.unmatchedOpening_eq_zero
  rwa [List.append_assoc, ← List.replicate_succ', convert_append_closings,
    convert_append_closings] at hgroup

/-- The conversion of an expression is that of the one in which each parenthesis has a partner,
with the fewest parentheses that balance it. Tokens before a closing parenthesis that closes
nothing, and tokens behind an opening one that is not closed, are together what a single value
is in their place. -/
theorem ofInfix_matched (tokens : List Token) :
    ofInfix tokens = ofInfix (Infix.matched tokens) ∧
      (forall openings closings, Infix.IsBalanced (Infix.enclosed openings closings tokens) ↔
        exists more, openings = Infix.unmatchedClosing tokens + more ∧
          closings = Infix.unmatchedOpening tokens + more) ∧
      (forall before closing after, tokens = before ++ closing :: after ->
        closing.kind = .rparen -> Infix.unmatchedOpening before = 0 ->
        exists rest, (forall value, value.isValue = true ->
            ofInfix (value :: after) = value :: rest) ∧
          ofInfix tokens = ofInfix before ++ rest) ∧
      (forall before opening after, tokens = before ++ opening :: after ->
        opening.kind = .lparen -> Infix.unmatchedClosing after = 0 ->
        exists out rest, (forall value, value.isValue = true ->
            ofInfix (before ++ [value]) = out ++ value :: rest) ∧
          ofInfix tokens = out ++ (ofInfix after ++ rest)) := by
  refine ⟨(ofInfix_enclosed _ _ tokens).symm, fun _ _ => Infix.isBalanced_enclosed_iff, ?_, ?_⟩
  · rintro before closing after rfl hclosing hbefore
    refine ⟨convert [] false after, ?_, ofInfix_unopened after hclosing hbefore⟩
    intro value hvalue
    exact convert_value [] true after hvalue
  · rintro before opening after rfl hopening hafter
    rcases convert_append before [] true with ⟨out, held, atStart, hfront⟩
    refine ⟨out, held.filter isNotOpening, ?_, ?_⟩
    · intro value hvalue
      rw [ofInfix, hfront, convert_value _ _ _ hvalue, convert]
    · rw [ofInfix, hfront, convert_opening _ _ _ hopening, convert_unclosed held hopening hafter]

/-- The form `1 + 2 ) * ( 3 - 4` is converted as `(1 + 2) * (3 - 4)`. -/
theorem ofInfix_matched_both :
    let before : List Token := [.number "1", .operator "+", .number "2"]
    let after : List Token := [.number "3", .operator "-", .number "4"]
    let tokens := before ++ .closing :: .operator "*" :: .opening :: after
    Infix.matched tokens = .opening :: (tokens ++ [.closing]) ∧
      ofInfix tokens = ofInfix (Infix.matched tokens) ∧
      Infix.unmatchedOpening before = 0 ∧ Infix.unmatchedClosing after = 0 ∧
      (exists rest, ofInfix tokens = ofInfix before ++ rest) ∧
      exists out rest, ofInfix tokens = out ++ (ofInfix after ++ rest) := by
  intro before after tokens
  rcases ofInfix_matched tokens with ⟨hmatched, _, hunopened, hunclosed⟩
  rcases hunopened before .closing (.operator "*" :: .opening :: after) rfl rfl (by decide) with
    ⟨rest, _, hbefore⟩
  rcases hunclosed (before ++ [.closing, .operator "*"]) .opening after rfl rfl (by decide) with
    ⟨out, more, _, hafter⟩
  exact ⟨by decide, hmatched, by decide, by decide, ⟨rest, hbefore⟩, out, more, hafter⟩

end Postfix
end AngleCalc
