import AngleCalc.Expression
import AngleCalc.Session.Outcome
import AngleCalc.Text.Lowercase

/-!
# Sessions

A session evaluates texts one after the other. It keeps the constants of the
user, the previous answer and the number of digits displayed. An evaluation that
succeeds also binds its value to the constant `ans`, and one that fails leaves
the session as it was.
-/

namespace AngleCalc

structure Session where
  symbols : SymbolTable
  lastAnswer : Rat
  digits : Nat
deriving DecidableEq, Repr

namespace Session

def answerName : String := "ans"

def defaultDigits : Nat := 20

def maxDigits : Nat := 200

def new : Session :=
  ⟨SymbolTable.empty.add answerName 0, 0, defaultDigits⟩

def setDigits (session : Session) (digits : Nat) : Session :=
  { session with digits := min digits maxDigits }

/-- Bind a constant of the user; names are in lower case. -/
def addConstant (session : Session) (name : String) (value : Rat) : Session :=
  let lower := String.ofList (Text.lowercase name.toList)
  { session with symbols := session.symbols.add lower value }

/-!
## Evaluation
-/

/-- The text that is evaluated in place of an input: without white space at its
ends, in lower case, and with points for commas. -/
def normalise (input : String) : String :=
  String.ofList
    ((Text.lowercase (Text.trim input.toList)).map (fun c => if c = ',' then '.' else c))

/-- Whether an expression in infix order calls for a display as an angle. -/
def callsInverse (tokens : List Token) : Bool :=
  tokens.any (fun token => token.kind == .function && Elementary.givesAngle token.text)

/-- The outcome of an expression, up to its value: the tokens in infix order,
completed with the previous answer, and the way of display. -/
def prepare (session : Session) (expression : String) : Except Failure Outcome :=
  match Expression.read session.symbols expression with
  | .error failure => .error failure
  | .ok tokens =>
      let completion := Infix.complete tokens answerName
      .ok { Outcome.blank expression session.digits with
        degrees := Lexeme.hasMarks session.symbols expression || callsInverse tokens
        completed := completion.2
        tokens := completion.1 }

def keep (session : Session) (value : Rat) : Session :=
  { session with symbols := session.symbols.add answerName value, lastAnswer := value }

/-- Evaluate an input. The result is its outcome and the session after it. -/
def evaluate (session : Session) (input : String) : Outcome × Session :=
  let expression := normalise input
  match session.prepare expression with
  | .error failure =>
      ({ Outcome.blank expression session.digits with failure := some failure }, session)
  | .ok outcome =>
      match Expression.valueOf session.symbols outcome.tokens with
      | .error failure => ({ outcome with failure := some failure }, session)
      | .ok value =>
          ({ outcome with
              value := some value
              engineering := Display.needsEngineering value },
            session.keep value)

end Session
end AngleCalc
