import AngleCalc.Infix
import AngleCalc.Lexeme
import AngleCalc.Postfix

/-!
# The value of an expression

From a text to its value under a symbol table: scan it, put its tokens in infix
order and then in postfix order, and evaluate.
-/

namespace AngleCalc
namespace Expression

def read (table : SymbolTable) (text : String) : Except Failure (List Token) :=
  Infix.ofTokens (Lexeme.tokens table text)

def valueOf (table : SymbolTable) (tokens : List Token) : Except Failure Rat :=
  Postfix.evaluate table (Postfix.ofInfix tokens)

def evaluate (table : SymbolTable) (text : String) : Except Failure Rat :=
  match read table text with
  | .ok tokens => valueOf table tokens
  | .error failure => .error failure

end Expression
end AngleCalc
