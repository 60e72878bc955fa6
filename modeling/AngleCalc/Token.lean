/-!
# Tokens

An expression is a list of tokens, in the order of the text or, once converted,
in postfix order. A token is its kind together with its text.
-/

namespace AngleCalc

inductive TokenKind where
  | number
  | function
  | constant
  | operator
  | lparen
  | rparen
  | whitespace
  /-- The end of the text. -/
  | finish
  /-- A piece of text that is no token of the language. -/
  | error
deriving DecidableEq, Repr

structure Token where
  kind : TokenKind
  text : String
deriving DecidableEq, Repr

namespace Token

def number (text : String) : Token := ⟨.number, text⟩

def function (name : String) : Token := ⟨.function, name⟩

def constant (name : String) : Token := ⟨.constant, name⟩

def operator (symbol : String) : Token := ⟨.operator, symbol⟩

def finish : Token := ⟨.finish, ""⟩

def isValue (token : Token) : Bool :=
  token.kind == .number || token.kind == .constant

/-- The texts of the tokens, with a space between two of them; the end of the
text is left out. -/
def spaced (tokens : List Token) : String :=
  " ".intercalate
    ((tokens.filter (fun token => token.kind != .finish)).map Token.text)

end Token
end AngleCalc
