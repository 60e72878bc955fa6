import AngleCalc.Display.Engineering
import AngleCalc.Display.Recurring
import AngleCalc.Sexagesimal
import AngleCalc.Token

/-!
# Outcomes of an evaluation

What one evaluation leaves to show: the expression, its value or its failure,
the way of display, and the tokens that were evaluated.
-/

namespace AngleCalc

/-- What one evaluation leaves to show. -/
structure Outcome where
  /-- The text that was evaluated, after normalisation. -/
  expression : String
  value : Option Rat
  failure : Option Failure
  /-- Whether the value is shown as an angle. -/
  degrees : Bool
  /-- Whether the value is shown in engineering notation. -/
  engineering : Bool
  /-- Whether the previous answer was added to an open expression. -/
  completed : Bool
  /-- The tokens in infix order, as they were evaluated. -/
  tokens : List Token
  /-- The most digits after the point of a plain display. -/
  digits : Nat
deriving DecidableEq, Repr

namespace Outcome

def blank (expression : String) (digits : Nat) : Outcome :=
  ⟨expression, none, none, false, false, false, [], digits⟩

def isOk (outcome : Outcome) : Bool :=
  outcome.failure.isNone && outcome.value.isSome

/-!
## The expression, written again
-/

/-- The text of a token: a plus or a minus sign stands between spaces. -/
def tokenText (token : Token) : String :=
  if token.kind = .operator ∧ (token.text = "+" ∨ token.text = "-") then
    " " ++ token.text ++ " "
  else token.text

/-- The pieces of text of one token; a value right after a function is put in
parentheses. -/
def tokenPieces (afterFunction : Bool) (token : Token) : List (String × Token) :=
  if afterFunction && token.isValue then
    [("(", token), (tokenText token, token), (")", token)]
  else [(tokenText token, token)]

def pieces (afterFunction : Bool) : List Token -> List (String × Token)
  | [] => []
  | token :: rest =>
      tokenPieces afterFunction token ++ pieces (token.kind == .function) rest

def expressionPieces (outcome : Outcome) : List (String × Token) :=
  pieces false outcome.tokens

def expressionText (outcome : Outcome) : String :=
  String.join (outcome.expressionPieces.map Prod.fst)

/-!
## The result
-/

/-- The text of a value: as an angle, or else in engineering notation, or else as
a recurring decimal. -/
def valueText (outcome : Outcome) (value : Rat) : String :=
  if outcome.degrees then Sexagesimal.text value
  else if outcome.engineering then Display.engineering value
  else Display.recurring value outcome.digits

/-- The text of the result: the wording of the failure, or else the value. -/
def display (outcome : Outcome) : String :=
  match outcome.failure, outcome.value with
  | some failure, _ => failure.message
  | none, some value => outcome.valueText value
  | none, none => ""

end Outcome
end AngleCalc
