import AngleCalc.Power

/-!
# Operators

The five operators of two arguments, with the precedence and the associativity
that decide how an expression without parentheses is grouped.
-/

namespace AngleCalc

inductive Operator where
  | power
  | times
  | divide
  | plus
  | minus
deriving DecidableEq, Repr

namespace Operator

def symbol : Operator -> Char
  | power => '^'
  | times => '*'
  | divide => '/'
  | plus => '+'
  | minus => '-'

def all : List Operator :=
  [power, times, divide, plus, minus]

def ofSymbol? (text : String) : Option Operator :=
  all.find? (fun operator => String.singleton operator.symbol == text)

def isSymbol (c : Char) : Bool :=
  all.any (fun operator => operator.symbol == c)

/-- An operator of higher precedence takes its operands first. -/
def precedence : Operator -> Nat
  | power => 4
  | times => 3
  | divide => 3
  | plus => 2
  | minus => 2

/-- Whether a chain of the operator is grouped from the right. -/
def rightAssociative : Operator -> Bool
  | power => true
  | _ => false

/-- Whether the operator may stand without a left operand, which then is zero. -/
def isSign : Operator -> Bool
  | plus => true
  | minus => true
  | _ => false

def quotient (x y : Rat) : Except Failure Rat :=
  if y = 0 then .error .divisionByZero else .ok (x / y)

def apply : Operator -> Rat -> Rat -> Except Failure Rat
  | power, x, y => Power.power x y
  | times, x, y => .ok (x * y)
  | divide, x, y => quotient x y
  | plus, x, y => .ok (x + y)
  | minus, x, y => .ok (x - y)

end Operator
end AngleCalc
