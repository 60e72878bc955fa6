import AngleCalc.Failure
import AngleCalc.Text.Alphabetic
import AngleCalc.Token

/-!
# Expressions in infix order

The tokens of a text become an expression in three steps. White space is dropped
and an error token is refused with the failure it stands for. A multiplication
sign is inserted where two operands stand side by side. And an expression that
starts or ends open is completed with the previous answer.
-/

namespace AngleCalc
namespace Infix

/-!
## Dropping white space
-/

/-- The failure that an error token stands for, read off its first character. -/
def failureOf (text : String) : Failure :=
  match text.toList with
  | [] => .illFormed
  | c :: _ =>
      if Text.isAlphabetic c then .unknownName text
      else if c.isDigit || c == '.' then .badNumber text
      else .strayCharacter c

/-- The tokens up to the end, without white space. The first error token among
them is a failure. -/
def significant : List Token -> Except Failure (List Token)
  | [] => .ok []
  | token :: rest =>
      match token.kind with
      | .whitespace => significant rest
      | .finish => .ok []
      | .error => .error (failureOf token.text)
      | _ => (significant rest).map (fun tokens => token :: tokens)

/-!
## Implicit products
-/

def endsOperand : TokenKind -> Bool
  | .number | .rparen | .constant => true
  | _ => false

def startsOperand : TokenKind -> Bool
  | .number | .lparen | .constant | .function => true
  | _ => false

/-- Insert the products of tokens that follow a token which does or does not end
an operand. -/
def insertProductsAfter (afterOperand : Bool) : List Token -> List Token
  | [] => []
  | token :: rest =>
      (if afterOperand && startsOperand token.kind then [.operator "*", token] else [token]) ++
        insertProductsAfter (endsOperand token.kind) rest

/-- Insert a multiplication sign between two operands that stand side by side. -/
def insertProducts (tokens : List Token) : List Token :=
  insertProductsAfter false tokens

def ofTokens (tokens : List Token) : Except Failure (List Token) :=
  (significant tokens).map insertProducts

/-!
## The previous answer
-/

/-- Whether an expression starts with an operator, whose left operand is missing. -/
def startsOpen (tokens : List Token) : Bool :=
  match tokens.head? with
  | some token => token.kind == .operator
  | none => false

/-- Whether an expression ends with a function or an operator, whose argument is
missing. -/
def endsOpen (tokens : List Token) : Bool :=
  match tokens.getLast? with
  | some token => token.kind == .function || token.kind == .operator
  | none => false

/-- Complete an open expression with the constant `name`: in front of a leading
operator or, where there is none, after a final function or operator. The result
says whether the constant was added. -/
def complete (tokens : List Token) (name : String) : List Token × Bool :=
  if startsOpen tokens then (.constant name :: tokens, true)
  else if endsOpen tokens then (tokens ++ [.constant name], true)
  else (tokens, false)

end Infix
end AngleCalc
