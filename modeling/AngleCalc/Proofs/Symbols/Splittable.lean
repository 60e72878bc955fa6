import AngleCalc.Lexeme
import AngleCalc.Proofs.Symbols.Splitting

/-!
# Words that can be split

A word can be split if it is made of known names. The split that is found is the only one
in which each piece is the longest name after which the rest can still be split. A name that
is known as a whole is its own first piece, so to look a word up before it is split changes
nothing.
-/

namespace AngleCalc
namespace SymbolTable

def IsSplittable (table : SymbolTable) (word : List Char) : Prop :=
  exists names : List (List Char),
    (forall name, name ∈ names -> name ≠ [] ∧ table.Knows name) ∧ names.flatten = word

variable {table : SymbolTable}

theorem isSplittable_nil : table.IsSplittable [] :=
  ⟨[], fun _ h => absurd h List.not_mem_nil, rfl⟩

theorem IsSplittable.append {name rest : List Char} (hname : name ≠ []) (hknown : table.Knows name)
    (hrest : table.IsSplittable rest) : table.IsSplittable (name ++ rest) := by
  rcases hrest with ⟨names, hnames, rfl⟩
  refine ⟨name :: names, ?_, rfl⟩
  intro other hother
  rcases List.mem_cons.mp hother with rfl | hmem
  · exact ⟨hname, hknown⟩
  · exact hnames other hmem

theorem isSplittable_of_splitWord? {word : List Char} {pieces : List Token}
    (h : table.splitWord? word = some pieces) : table.IsSplittable word := by
  refine splitWord?_induction (motive := fun word _ => table.IsSplittable word) isSplittable_nil
    ?_ word h
  intro name rest kind pieces hfirst hrest
  exact hrest.append hfirst.ne_nil ⟨kind, hfirst.kind_eq⟩

/-!
## The longest first piece
-/

theorem exists_splitWord?_append {name rest : List Char} {pieces : List Token} (hname : name ≠ [])
    (hknown : table.Knows name) (hrest : table.splitWord? rest = some pieces) :
    exists others, table.splitWord? (name ++ rest) = some others := by
  -- Among the names that would do, the one with the shortest rest is the first piece.
  induction hlength : rest.length using Nat.strongRecOn generalizing name rest pieces with
  | ind n ih =>
      by_cases hlonger : exists longer back, name ++ rest = longer ++ back ∧
          name.length < longer.length ∧ table.Knows longer ∧ table.splitWord? back ≠ none
      · rcases hlonger with ⟨longer, back, hword, hlt, hother, hback⟩
        rcases Option.ne_none_iff_exists'.mp hback with ⟨others, hothers⟩
        have htotal := congrArg List.length hword
        rw [List.length_append, List.length_append] at htotal
        rw [hword]
        exact ih back.length (by omega) (List.length_pos_iff.mp (by omega)) hother hothers rfl
      · rcases hknown with ⟨kind, hkind⟩
        refine ⟨_, IsFirstPiece.splitWord?_eq ⟨hname, hkind, hrest, ?_⟩⟩
        intro longer back hword hlt hother
        by_contra hback
        exact hlonger ⟨longer, back, hword, hlt, hother, hback⟩

theorem exists_splitWord?_of_isSplittable {word : List Char} (h : table.IsSplittable word) :
    exists pieces, table.splitWord? word = some pieces := by
  rcases h with ⟨names, hnames, rfl⟩
  induction names with
  | nil => exact ⟨[], splitWord?_nil⟩
  | cons name names ih =>
      rcases ih (fun other hother => hnames other (List.mem_cons_of_mem name hother)) with
        ⟨pieces, hpieces⟩
      rcases hnames name List.mem_cons_self with ⟨hname, hknown⟩
      exact exists_splitWord?_append hname hknown hpieces

theorem splitWord?_eq_none_iff {word : List Char} :
    table.splitWord? word = none ↔ ¬ table.IsSplittable word := by
  constructor
  · intro hsplit hsplittable
    rcases exists_splitWord?_of_isSplittable hsplittable with ⟨pieces, hpieces⟩
    rw [hsplit] at hpieces
    cases hpieces
  · intro hunsplittable
    cases hsplit : table.splitWord? word with
    | none => rfl
    | some pieces => exact absurd (isSplittable_of_splitWord? hsplit) hunsplittable

/-- A piece is a known name, and no longer one is there after which the rest of the word can
be split. -/
structure IsLongestPiece (table : SymbolTable) (piece : Token) (rest : List Char) : Prop where
  ne_nil : piece.text.toList ≠ []
  kind_eq : table.kind? piece.text = some piece.kind
  splittable : table.IsSplittable rest
  longest : forall name back, piece.text.toList ++ rest = name ++ back -> table.Knows name ->
    table.IsSplittable back -> name.length ≤ piece.text.length

theorem IsFirstPiece.isLongestPiece {name rest : List Char} {kind : TokenKind}
    {pieces : List Token} (h : table.IsFirstPiece name rest kind pieces) :
    table.IsLongestPiece ⟨kind, String.ofList name⟩ rest where
  ne_nil := by
    rw [String.toList_ofList]
    exact h.ne_nil
  kind_eq := h.kind_eq
  splittable := isSplittable_of_splitWord? h.rest_eq
  longest := by
    intro longer back hword hknown hback
    rw [String.toList_ofList] at hword
    rw [String.length_ofList]
    by_contra hlt
    rcases exists_splitWord?_of_isSplittable hback with ⟨pieces, hpieces⟩
    rw [h.longest longer back hword (Nat.lt_of_not_le hlt) hknown] at hpieces
    cases hpieces

theorem isLongestPiece_of_splitWord? {word : List Char} {pieces : List Token}
    (h : table.splitWord? word = some pieces) :
    forall front piece back, pieces = front ++ piece :: back ->
      table.IsLongestPiece piece (spelled back) := by
  refine splitWord?_induction (motive := fun _ pieces => forall front piece back,
    pieces = front ++ piece :: back -> table.IsLongestPiece piece (spelled back)) ?_ ?_ word h
  · intro front piece back hpieces
    simp at hpieces
  · intro name rest kind pieces hfirst hrest front piece back hpieces
    cases front with
    | nil =>
        cases hpieces
        rw [spelled_splitWord? rest hfirst.rest_eq]
        exact hfirst.isLongestPiece
    | cons other front =>
        cases hpieces
        exact hrest front piece back rfl

/-!
## Names that are known as a whole
-/

theorem splitWord?_of_kind? {word : List Char} {kind : TokenKind} (hword : word ≠ [])
    (hkind : table.kind? (String.ofList word) = some kind) :
    table.splitWord? word = some [⟨kind, String.ofList word⟩] := by
  have hsplit : table.splitWord? (word ++ []) = some [⟨kind, String.ofList word⟩] := by
    refine splitWord?_append hword hkind splitWord?_nil ?_
    intro front back hnil hfront
    exact absurd (List.append_eq_nil_iff.mp hnil.symm).left hfront
  rwa [List.append_nil] at hsplit

/-- The lexemes of a word are the pieces of its split, also if it is known as a whole. -/
theorem ofWord_eq_of_splitWord? {word : List Char} (hword : word ≠ []) :
    Lexeme.ofWord table word =
      match table.splitWord? word with
      | some pieces => pieces.map Lexeme.ofName
      | none => [⟨word, ⟨.error, String.ofList word⟩, false⟩] := by
  simp only [Lexeme.ofWord]
  cases hkind : table.kind? (String.ofList word) with
  | some kind =>
      rw [splitWord?_of_kind? hword hkind]
      simp [Lexeme.ofName]
  | none =>
      cases hsplit : table.splitWord? word with
      | none => rfl
      | some pieces =>
          cases pieces with
          | nil => exact absurd (spelled_splitWord? word hsplit).symm hword
          | cons piece pieces => rfl

/-- A word is split if and only if it is made of known names. Its pieces are the word again,
each with its kind, and each is the longest name after which the rest can be split. A word that
is known is its own only piece, and its lexemes are those of its split. -/
theorem splitWord?_canonical (table : SymbolTable) (word : List Char) :
    ((exists pieces, table.splitWord? word = some pieces) ↔ table.IsSplittable word) ∧
      (forall pieces, table.splitWord? word = some pieces ->
        spelled pieces = word ∧
          forall front piece back, pieces = front ++ piece :: back ->
            table.IsLongestPiece piece (spelled back)) ∧
      (word ≠ [] -> forall kind, table.kind? (String.ofList word) = some kind ->
        table.splitWord? word = some [⟨kind, String.ofList word⟩]) ∧
      (word ≠ [] -> Lexeme.ofWord table word =
        match table.splitWord? word with
        | some pieces => pieces.map Lexeme.ofName
        | none => [⟨word, ⟨.error, String.ofList word⟩, false⟩]) := by
  refine ⟨⟨?_, exists_splitWord?_of_isSplittable⟩, ?_, ?_, ofWord_eq_of_splitWord?⟩
  · rintro ⟨pieces, hpieces⟩
    exact isSplittable_of_splitWord? hpieces
  · intro pieces hpieces
    exact ⟨spelled_splitWord? word hpieces, isLongestPiece_of_splitWord? hpieces⟩
  · intro hword kind hkind
    exact splitWord?_of_kind? hword hkind

/-- The longest name in front leaves a rest that is no name. -/
example : SymbolTable.splitWord? ⟨[("ab", 1), ("abc", 2), ("cd", 3)]⟩ ['a', 'b', 'c', 'd'] =
    some [.constant "ab", .constant "cd"] := by
  decide +kernel

end SymbolTable
end AngleCalc
