import AngleCalc.Symbols.Table

/-!
# Words made of several names

A word that is no name may be several names written together. It is split from
the left into known names, each as long as possible among those after which the
rest of the word can still be split. Where each suffix is cut is found from the
shortest suffix on, so that each of them is looked at once, and then the cuts are
followed from the front of the word.
-/

namespace AngleCalc
namespace SymbolTable

/-- The name at the front of a word: how many characters it has behind its first
one, and its kind. -/
structure Cut where
  more : Nat
  kind : TokenKind
deriving DecidableEq, Repr

/-- What is found of a suffix: whether it is made of names, and the first of them.
The empty suffix is made of none. -/
structure Suffix where
  isSplit : Bool
  cut : Option Cut
deriving DecidableEq, Repr

/-- The suffix after `k` characters, one that is not split if there are not so many. -/
def suffixAt (suffixes : List Suffix) (k : Nat) : Suffix :=
  suffixes.getD k ⟨false, none⟩

/-- The name of `k + 1` characters at the front of a word, if the rest is split;
`suffixes` holds the word without its first character, then without its first two,
and so on. -/
def cutAt? (table : SymbolTable) (word : List Char) (suffixes : List Suffix) (k : Nat) :
    Option Cut :=
  if (suffixAt suffixes k).isSplit then
    (table.kind? (String.ofList (word.take (k + 1)))).map fun kind => ⟨k, kind⟩
  else none

/-- The first of the names, tried from the longest to the shortest, after which the
rest of the word is split. -/
def longestCut? (table : SymbolTable) (word : List Char) (suffixes : List Suffix) :
    Option Cut :=
  (List.range (min table.longestName word.length)).reverse.findSome?
    (table.cutAt? word suffixes)

def suffixes (table : SymbolTable) : List Char -> List Suffix
  | [] => [⟨true, none⟩]
  | c :: rest =>
      let shorter := suffixes table rest
      let cut := table.longestCut? (c :: rest) shorter
      ⟨cut.isSome, cut⟩ :: shorter

/-- The names of a word, found by following the cuts. -/
def pieces? : List Char -> List Suffix -> Option (List Token)
  | [], _ => some []
  | c :: rest, suffixes =>
      match (suffixAt suffixes 0).cut with
      | none => none
      | some cut =>
          (pieces? (rest.drop cut.more) (suffixes.drop (cut.more + 1))).map fun pieces =>
            ⟨cut.kind, String.ofList ((c :: rest).take (cut.more + 1))⟩ :: pieces
termination_by word => word.length
decreasing_by
  rw [List.length_drop, List.length_cons]
  omega

/-- Split a word into known names. The empty word is no names at all. -/
def splitWord? (table : SymbolTable) (word : List Char) : Option (List Token) :=
  let suffixes := table.suffixes word
  if (suffixAt suffixes 0).isSplit then pieces? word suffixes else none

end SymbolTable
end AngleCalc
