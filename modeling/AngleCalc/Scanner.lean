import AngleCalc.Lexeme

/-!
# Scanners

A scanner reads a text from left to right and hands out its tokens one at a time, the
end of the text last and once. It reads no further than it is asked to. Where a word is
several names, the tokens behind the first one wait until they are asked for. The
scanner remembers whether it has read a number with an angle mark.
-/

namespace AngleCalc

structure Scanner where
  table : SymbolTable
  /-- What has not been read yet. -/
  rest : List Char
  /-- The tokens that were read and not handed out. -/
  pending : List Token
  /-- Whether the end was handed out. -/
  ended : Bool
  /-- Whether a number with an angle mark was read. -/
  sawAngle : Bool
deriving DecidableEq, Repr

namespace Scanner

def start (table : SymbolTable) (text : String) : Scanner :=
  ⟨table, text.toList, [], false, false⟩

/-- Read the lexemes at the start of the text `c :: cs`: the token of the first one, and
the scanner after them. -/
def read (scanner : Scanner) (c : Char) (cs : List Char) : Token × Scanner :=
  let found := Lexeme.head scanner.table c cs
  let first := found.1.head (Lexeme.head_ne_nil scanner.table c cs)
  (first.token,
    { scanner with
      rest := found.2
      pending := found.1.tail.map Lexeme.token
      sawAngle := scanner.sawAngle || first.marked })

def next? (scanner : Scanner) : Option (Token × Scanner) :=
  match scanner.pending with
  | token :: pending => some (token, { scanner with pending := pending })
  | [] =>
      if scanner.ended then none
      else
        match scanner.rest with
        | [] => some (.finish, { scanner with ended := true })
        | c :: cs => some (scanner.read c cs)

end Scanner
end AngleCalc
