import AngleCalc.Proofs.Lexeme.Slices
import AngleCalc.Scanner

/-!
# The run of a scanner

A scanner that is asked again and again hands out the tokens of its text in their order,
then the end, and then nothing any more. What it still has to hand out are the tokens that
wait and those of the text that it has not read; each step takes the first of them off.
The scanner has seen an angle if a number with an angle mark is among what it handed out.
-/

namespace AngleCalc
namespace Scanner

open Lexeme

/-- Ask a scanner for its next token `n` times. The result is what it hands out, and the
scanner after that. -/
def ask : Nat -> Scanner -> List Token × Scanner
  | 0, scanner => ([], scanner)
  | n + 1, scanner =>
      match scanner.next? with
      | none => ask n scanner
      | some (token, after) => (token :: (ask n after).1, (ask n after).2)

/-- The scanner still has to hand out the tokens of these lexemes, and then the end. Those that
wait are not marked: their mark, if any, was seen when they were read. -/
structure Awaits (scanner : Scanner) (lexemes : List Lexeme) : Prop where
  not_ended : scanner.ended = false
  lexemes_eq : exists waiting, lexemes = waiting ++ scan scanner.table scanner.rest ∧
    scanner.pending = waiting.map Lexeme.token ∧
      forall lexeme, lexeme ∈ waiting -> lexeme.marked = false

structure IsDone (scanner : Scanner) : Prop where
  ended : scanner.ended = true
  pending_eq : scanner.pending = []

variable {scanner : Scanner} {lexeme : Lexeme} {lexemes : List Lexeme}

/-!
## One step
-/

theorem awaits_start (table : SymbolTable) (text : String) :
    (start table text).Awaits (scan table text.toList) :=
  ⟨rfl, [], rfl, rfl, fun _ h => absurd h List.not_mem_nil⟩

theorem next?_of_isDone (h : scanner.IsDone) : scanner.next? = none := by
  simp [next?, h.pending_eq, h.ended]

theorem Awaits.next?_nil (h : scanner.Awaits []) :
    scanner.next? = some (.finish, { scanner with ended := true }) ∧
      IsDone { scanner with ended := true } := by
  rcases h.lexemes_eq with ⟨waiting, hlexemes, hpending, _⟩
  rcases List.append_eq_nil_iff.mp hlexemes.symm with ⟨rfl, hscan⟩
  have hrest : scanner.rest = [] := by
    have htext := flatMap_slice_scan scanner.table scanner.rest
    rw [hscan] at htext
    exact htext.symm
  constructor
  · simp [next?, hpending, h.not_ended, hrest]
  · exact ⟨rfl, hpending⟩

theorem Awaits.next?_cons (h : scanner.Awaits (lexeme :: lexemes)) :
    exists after, scanner.next? = some (lexeme.token, after) ∧ after.Awaits lexemes ∧
      after.sawAngle = (scanner.sawAngle || lexeme.marked) := by
  rcases h.lexemes_eq with ⟨waiting, hlexemes, hpending, hmarked⟩
  cases waiting with
  | cons first waiting =>
      cases hlexemes
      refine ⟨{ scanner with pending := waiting.map Lexeme.token }, ?_, ⟨h.not_ended, ?_⟩, ?_⟩
      · simp [next?, hpending]
      · exact ⟨waiting, rfl, rfl, fun other hother => hmarked other (List.mem_cons_of_mem _ hother)⟩
      · simp [hmarked lexeme List.mem_cons_self]
  | nil =>
      cases hrest : scanner.rest with
      | nil =>
          rw [hrest, scan] at hlexemes
          cases hlexemes
      | cons c cs =>
          -- Nothing waits, so the lexemes at the next place are read.
          rw [hrest, List.nil_append, scan] at hlexemes
          have hhead := List.cons_head_tail (head_ne_nil scanner.table c cs)
          rw [← hhead, List.cons_append, List.cons.injEq] at hlexemes
          rcases hlexemes with ⟨rfl, rfl⟩
          refine ⟨(scanner.read c cs).2, ?_, ⟨h.not_ended, ?_⟩, rfl⟩
          · simp [next?, hpending, h.not_ended, hrest, read]
          · exact ⟨_, rfl, rfl, fun other hother => marked_of_mem_tail_head hother⟩

/-!
## All steps
-/

theorem ask_succ {token : Token} {after : Scanner} (h : scanner.next? = some (token, after))
    (n : Nat) : ask (n + 1) scanner = (token :: (ask n after).1, (ask n after).2) := by
  rw [ask, h]

theorem ask_of_isDone (h : scanner.IsDone) (n : Nat) : ask n scanner = ([], scanner) := by
  induction n with
  | zero => rfl
  | succ n ih => rw [ask, next?_of_isDone h, ih]

/-- What a scanner hands out when it is asked `n` times, and what it has seen then. -/
theorem Awaits.ask_eq (h : scanner.Awaits lexemes) (n : Nat) :
    (ask n scanner).1 = (lexemes.map Lexeme.token ++ [Token.finish]).take n ∧
      (ask n scanner).2.sawAngle = (scanner.sawAngle || (lexemes.take n).any Lexeme.marked) ∧
      (lexemes.length < n -> (ask n scanner).2.next? = none) := by
  induction n generalizing scanner lexemes with
  | zero => simp [ask]
  | succ n ih =>
      cases lexemes with
      | nil =>
          rcases h.next?_nil with ⟨hnext, hdone⟩
          rw [ask_succ hnext, ask_of_isDone hdone]
          simp [next?_of_isDone hdone]
      | cons lexeme lexemes =>
          rcases h.next?_cons with ⟨after, hnext, hafter, hsaw⟩
          rcases ih hafter with ⟨htokens, hseen, hend⟩
          rw [ask_succ hnext]
          refine ⟨?_, ?_, ?_⟩
          · simp [htokens]
          · simp [hseen, hsaw, Bool.or_assoc]
          · intro hlength
            exact hend (Nat.lt_of_succ_lt_succ hlength)

/-- The slices of a text are the text, none of them is empty, and each is one token. A scanner
hands these tokens out in their order, the end behind them, and then nothing any more. It has
seen an angle if and only if one of the numbers that it handed out has an angle mark. -/
theorem ask_start (table : SymbolTable) (text : String) :
    let lexemes := scan table text.toList
    lexemes.flatMap Lexeme.slice = text.toList ∧
      (forall lexeme, lexeme ∈ lexemes -> lexeme.slice ≠ [] ∧ lexeme.token.kind ≠ .finish ∧
        IsTokenOf lexeme.token lexeme.slice) ∧
      forall n,
        (ask n (start table text)).1 = (lexemes.map Lexeme.token ++ [Token.finish]).take n ∧
        ((ask n (start table text)).2.sawAngle = true ↔
          exists lexeme, lexeme ∈ lexemes.take n ∧ lexeme.IsMarkedNumber) ∧
        (lexemes.length < n -> (ask n (start table text)).2.next? = none) := by
  intro lexemes
  refine ⟨flatMap_slice_scan table text.toList, ?_, ?_⟩
  · intro lexeme hlexeme
    have hfaithful := isFaithful_of_mem_scan hlexeme
    exact ⟨hfaithful.slice_ne_nil, hfaithful.kind_ne_finish, hfaithful.isTokenOf⟩
  · intro n
    rcases (awaits_start table text).ask_eq n with ⟨htokens, hseen, hend⟩
    refine ⟨htokens, ?_, hend⟩
    have hstart : (start table text).sawAngle = false := rfl
    rw [hseen, hstart, Bool.false_or, List.any_eq_true]
    constructor
    · rintro ⟨lexeme, hlexeme, hmarked⟩
      have hfaithful := isFaithful_of_mem_scan (List.mem_of_mem_take hlexeme)
      exact ⟨lexeme, hlexeme, hfaithful.marked_iff.mp hmarked⟩
    · rintro ⟨lexeme, hlexeme, hmarked⟩
      have hfaithful := isFaithful_of_mem_scan (List.mem_of_mem_take hlexeme)
      exact ⟨lexeme, hlexeme, hfaithful.marked_iff.mpr hmarked⟩

/-!
## Reading to the end
-/

/-- Ask a scanner of a text as often as it can have something to hand out: no more than a token
for each character, and the end. -/
def readAll (table : SymbolTable) (text : String) : List Token × Scanner :=
  ask (text.toList.length + 1) (start table text)

theorem length_le_length_flatMap_slice {lexemes : List Lexeme}
    (h : forall lexeme, lexeme ∈ lexemes -> lexeme.slice ≠ []) :
    lexemes.length ≤ (lexemes.flatMap Lexeme.slice).length := by
  induction lexemes with
  | nil => exact Nat.le_refl 0
  | cons lexeme rest ih =>
      have hslice := List.length_pos_iff.mpr (h lexeme List.mem_cons_self)
      have hrest := ih (fun other hother => h other (List.mem_cons_of_mem lexeme hother))
      rw [List.length_cons, List.flatMap_cons, List.length_append]
      omega

theorem length_scan_le (table : SymbolTable) (text : List Char) :
    (scan table text).length ≤ text.length := by
  have hslices := fun lexeme (hlexeme : lexeme ∈ scan table text) =>
    (isFaithful_of_mem_scan hlexeme).slice_ne_nil
  calc (scan table text).length ≤ ((scan table text).flatMap Lexeme.slice).length :=
        length_le_length_flatMap_slice hslices
    _ = text.length := by rw [flatMap_slice_scan]

/-- A scanner that was read to the end has handed out all tokens of its text, has seen an angle
if one is there, and hands out nothing more. -/
theorem readAll_eq (table : SymbolTable) (text : String) :
    (readAll table text).1 = Lexeme.tokens table text ∧
      (readAll table text).2.sawAngle = hasMarks table text ∧
      (readAll table text).2.next? = none := by
  have hlength := length_scan_le table text.toList
  rcases (awaits_start table text).ask_eq (text.toList.length + 1) with ⟨htokens, hseen, hend⟩
  refine ⟨?_, ?_, hend (by omega)⟩
  · rw [readAll, htokens, Lexeme.tokens]
    exact List.take_of_length_le (by simpa using hlength)
  · have hstart : (start table text).sawAngle = false := rfl
    rw [readAll, hseen, hstart, Bool.false_or, hasMarks, List.take_of_length_le (by omega)]

end Scanner
end AngleCalc
