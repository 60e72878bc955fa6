import AngleCalc.Decimal.Text
import AngleCalc.Operator
import AngleCalc.Sexagesimal
import AngleCalc.Symbols.Split
import AngleCalc.Text.Alphabetic
import AngleCalc.Text.Blank

/-!
# Lexemes

A text is cut into slices from left to right, and each slice is a token. A
numeric slice is a run of digits, points and angle marks; its token holds the
canonical text of the angle in degrees. An angle mark in front of a letter does
not belong to the slice, since it starts a word. A run of letters is a name, or
several names written together and then one slice for each. Everything that fits
nothing else is an error token.
-/

namespace AngleCalc

/-- A slice of a text with its token. -/
structure Lexeme where
  slice : List Char
  token : Token
  /-- Whether the token is a number that was written with an angle mark. -/
  marked : Bool
deriving DecidableEq, Repr

/-!
## Numbers
-/

/-- The longest numeric slice at the start of a text, and what follows it. -/
structure NumericRun where
  slice : List Char
  rest : List Char
  /-- Whether a component has a second point. -/
  malformed : Bool
  /-- Whether the slice has an angle mark. -/
  marked : Bool
deriving DecidableEq, Repr

namespace NumericRun

def cons (c : Char) (run : NumericRun) : NumericRun :=
  { run with slice := c :: run.slice }

/-- Read a numeric slice; `point` says whether the current component already has
a point. -/
def read (point : Bool) : List Char -> NumericRun
  | [] => ⟨[], [], false, false⟩
  | c :: rest =>
      if c.isDigit then (read point rest).cons c
      else if c = '.' then
        let run := (read true rest).cons c
        { run with malformed := point || run.malformed }
      else if Sexagesimal.isMark c then
        if (rest.head?.map Text.isAlphabetic).getD false then ⟨[], c :: rest, false, false⟩
        else
          let run := (read false rest).cons c
          { run with marked := true }
      else ⟨[], c :: rest, false, false⟩

theorem slice_append_rest (point : Bool) (cs : List Char) :
    (read point cs).slice ++ (read point cs).rest = cs := by
  induction cs generalizing point with
  | nil => rfl
  | cons c rest ih =>
      unfold read
      split
      · simp [cons, ih]
      · split
        · simp [cons, ih]
        · split
          · split
            · rfl
            · simp [cons, ih]
          · rfl

theorem length_rest_le (point : Bool) (cs : List Char) :
    (read point cs).rest.length ≤ cs.length := by
  have h := congrArg List.length (slice_append_rest point cs)
  rw [List.length_append] at h
  omega

end NumericRun

namespace Lexeme

def startsNumber (c : Char) : Bool :=
  c.isDigit || c == '.'

def ofNumeric (run : NumericRun) : Lexeme :=
  let failed : Lexeme := ⟨run.slice, ⟨.error, String.ofList run.slice⟩, false⟩
  if run.malformed then failed
  else
    match Sexagesimal.readChars run.slice with
    | .ok value => ⟨run.slice, .number (Decimal.toText value), run.marked⟩
    | .error _ => failed

/-!
## Words and other characters
-/

def ofName (token : Token) : Lexeme :=
  ⟨token.text.toList, token, false⟩

def ofWord (table : SymbolTable) (word : List Char) : List Lexeme :=
  let name := String.ofList word
  match table.kind? name with
  | some kind => [⟨word, ⟨kind, name⟩, false⟩]
  | none =>
      match table.splitWord? word with
      | some (piece :: pieces) => (piece :: pieces).map ofName
      | _ => [⟨word, ⟨.error, name⟩, false⟩]

theorem ofWord_ne_nil (table : SymbolTable) (word : List Char) : ofWord table word ≠ [] := by
  simp only [ofWord]
  split
  · simp
  · split <;> simp

def characterToken (c : Char) : Token :=
  if c = '(' then ⟨.lparen, "("⟩
  else if c = ')' then ⟨.rparen, ")"⟩
  else if c = '√' then .function Elementary.sqrt.name
  else if Operator.isSymbol c then .operator (String.singleton c)
  else ⟨.error, String.singleton c⟩

/-!
## The whole text
-/

/-- The lexemes at the start of the text `c :: cs`, and the text after them. -/
def head (table : SymbolTable) (c : Char) (cs : List Char) : List Lexeme × List Char :=
  if startsNumber c then
    let run := (NumericRun.read (c == '.') cs).cons c
    ([ofNumeric run], run.rest)
  else if Text.isAlphabetic c then
    (ofWord table (c :: cs.takeWhile Text.isAlphabetic), cs.dropWhile Text.isAlphabetic)
  else if Text.isBlank c then
    let slice := c :: cs.takeWhile Text.isBlank
    ([⟨slice, ⟨.whitespace, String.ofList slice⟩, false⟩], cs.dropWhile Text.isBlank)
  else ([⟨[c], characterToken c, false⟩], cs)

theorem length_head_le (table : SymbolTable) (c : Char) (cs : List Char) :
    (head table c cs).2.length ≤ cs.length := by
  unfold head
  split
  · exact NumericRun.length_rest_le (c == '.') cs
  · split
    · exact (List.dropWhile_sublist _).length_le
    · split
      · exact (List.dropWhile_sublist _).length_le
      · exact Nat.le_refl _

/-- Every character starts a lexeme. -/
theorem head_ne_nil (table : SymbolTable) (c : Char) (cs : List Char) :
    (head table c cs).1 ≠ [] := by
  unfold head
  split
  · exact List.cons_ne_nil _ _
  · split
    · exact ofWord_ne_nil table _
    · split
      · exact List.cons_ne_nil _ _
      · exact List.cons_ne_nil _ _

def scan (table : SymbolTable) : List Char -> List Lexeme
  | [] => []
  | c :: cs => (head table c cs).1 ++ scan table (head table c cs).2
termination_by cs => cs.length
decreasing_by
  have h := length_head_le table c cs
  simp only [List.length_cons]
  omega

/-- The tokens of a text, up to and including the end. -/
def tokens (table : SymbolTable) (text : String) : List Token :=
  (scan table text.toList).map Lexeme.token ++ [.finish]

def hasMarks (table : SymbolTable) (text : String) : Bool :=
  (scan table text.toList).any Lexeme.marked

end Lexeme
end AngleCalc
