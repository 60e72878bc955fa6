import AngleCalc.Decimal.Numeral
import AngleCalc.Operator
import AngleCalc.Symbols.Table

/-!
# Expressions in postfix order

An expression in infix order is put into postfix order, in which a function or an
operator follows its operands, with the help of a stack of held tokens:
functions and operators whose operands are not complete, and opening
parentheses. The conversion accepts every list of tokens; what has no meaning is
found when the postfix order is evaluated, on a stack of values.
-/

namespace AngleCalc
namespace Postfix

/-!
## Conversion
-/

/-- Whether a held token has to leave before the operator `next` is held: a
function does, and so does an operator that binds tighter, or as tight from the
left. -/
def leavesBefore (next : Operator) (held : Token) : Bool :=
  match held.kind with
  | .function => true
  | .operator =>
      match Operator.ofSymbol? held.text with
      | some operator =>
          decide (next.precedence < operator.precedence) ||
            (operator.precedence == next.precedence && !next.rightAssociative)
      | none => false
  | _ => false

def isNotOpening (token : Token) : Bool :=
  token.kind != .lparen

/-- Close a parenthesis: the tokens held since the last opening one leave, then
the opening one is dropped, and then a function that waited for the group leaves
too. The result is what leaves and what is still held. -/
def closeGroup (held : List Token) : List Token × List Token :=
  let leaving := held.takeWhile isNotOpening
  match (held.dropWhile isNotOpening).drop 1 with
  | [] => (leaving, [])
  | token :: rest =>
      if token.kind = .function then (leaving ++ [token], rest)
      else (leaving, token :: rest)

/-- The left operand that a sign at the start of an expression takes. -/
def signOperand (atStart : Bool) (operator : Operator) : List Token :=
  if atStart && operator.isSign then [.number "0"] else []

/-- The postfix order of the tokens still to come, given the held tokens and
whether an expression starts here. At the end all held tokens leave. -/
def convert (held : List Token) (atStart : Bool) : List Token -> List Token
  | [] => held.filter isNotOpening
  | token :: rest =>
      match token.kind with
      | .number | .constant => token :: convert held false rest
      | .function => convert (token :: held) false rest
      | .lparen => convert (token :: held) true rest
      | .rparen => (closeGroup held).1 ++ convert (closeGroup held).2 false rest
      | .operator =>
          match Operator.ofSymbol? token.text with
          | none => token :: convert held atStart rest
          | some operator =>
              signOperand atStart operator ++ held.takeWhile (leavesBefore operator) ++
                convert (token :: held.dropWhile (leavesBefore operator)) false rest
      | .whitespace | .finish | .error => convert held atStart rest

def ofInfix (tokens : List Token) : List Token :=
  convert [] true tokens

/-!
## Evaluation
-/

def applyFunction (function : Elementary) : List Rat -> Except Failure (List Rat)
  | x :: stack => (function.apply x).map (fun value => value :: stack)
  | [] => .error .illFormed

/-- Apply an operator to the two values on top of a stack, the right operand
first. -/
def applyOperator (operator : Operator) : List Rat -> Except Failure (List Rat)
  | y :: x :: stack => (operator.apply x y).map (fun value => value :: stack)
  | _ => .error .illFormed

def step (table : SymbolTable) (stack : List Rat) (token : Token) :
    Except Failure (List Rat) :=
  match token.kind with
  | .number => (Decimal.parse token.text).map (fun value => value :: stack)
  | .constant =>
      match table.constant? token.text with
      | some value => .ok (value :: stack)
      | none => .error (.unknownName token.text)
  | .function =>
      match table.function? token.text with
      | some function => applyFunction function stack
      | none => .error (.unknownName token.text)
  | .operator =>
      match Operator.ofSymbol? token.text with
      | some operator => applyOperator operator stack
      | none => .error (.unknownName token.text)
  | .whitespace | .finish => .ok stack
  | .lparen | .rparen | .error => .error .illFormed

def run (table : SymbolTable) (stack : List Rat) : List Token -> Except Failure (List Rat)
  | [] => .ok stack
  | token :: rest =>
      match step table stack token with
      | .ok stack' => run table stack' rest
      | .error failure => .error failure

theorem run_append (table : SymbolTable) (stack : List Rat) (first second : List Token) :
    run table stack (first ++ second) =
      match run table stack first with
      | .ok stack' => run table stack' second
      | .error failure => .error failure := by
  induction first generalizing stack with
  | nil => rfl
  | cons token rest ih =>
      simp only [List.cons_append, run]
      cases step table stack token with
      | error failure => rfl
      | ok stack' => exact ih stack'

/-- The value of an expression in postfix order: the one value that is left. -/
def evaluate (table : SymbolTable) (tokens : List Token) : Except Failure Rat :=
  match run table [] tokens with
  | .ok [value] => .ok value
  | .ok _ => .error .illFormed
  | .error failure => .error failure

end Postfix
end AngleCalc
