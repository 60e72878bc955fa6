/-!
# Failures

The causes for which a text, a list of tokens or a call has no value, and the
wording that is shown for each of them.
-/

namespace AngleCalc

inductive Failure where
  /-- The operands and operators do not combine into exactly one value. -/
  | illFormed
  /-- A name stands for no function, constant or operator. -/
  | unknownName (name : String)
  /-- A text that starts as a number is not one. -/
  | badNumber (text : String)
  /-- A character can start no token. -/
  | strayCharacter (c : Char)
  /-- A divisor is zero, or the base of an exact negative power. -/
  | divisionByZero
  /-- A call is outside its domain, or its result is too large to hold. -/
  | undefinedCall (call : String)
deriving DecidableEq, Repr

instance decidableEqExcept {α : Type} [DecidableEq α] : DecidableEq (Except Failure α)
  | .ok x, .ok y =>
      if h : x = y then isTrue (congrArg _ h) else isFalse (fun heq => h (Except.ok.inj heq))
  | .error x, .error y =>
      if h : x = y then isTrue (congrArg _ h) else isFalse (fun heq => h (Except.error.inj heq))
  | .ok _, .error _ => isFalse (fun heq => by cases heq)
  | .error _, .ok _ => isFalse (fun heq => by cases heq)

def Failure.message : Failure -> String
  | illFormed => "expression invalide"
  | unknownName name => "symbole inconnu: '" ++ name ++ "'"
  | badNumber text => "nombre invalide: '" ++ text ++ "'"
  | strayCharacter c => "caractère inattendu: '" ++ String.singleton c ++ "'"
  | divisionByZero => "division par zéro"
  | undefinedCall call => "résultat indéfini: " ++ call

end AngleCalc
