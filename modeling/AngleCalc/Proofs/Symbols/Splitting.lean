import Mathlib.Data.List.Fold
import Mathlib.Data.List.MinMax
import AngleCalc.Symbols.Split

/-!
# The pieces of a word

The pieces of a split word are the word when they are written together. A known name
at the front of a word is the first piece if the rest of the word can be split and no
longer name is there.
-/

namespace AngleCalc
namespace SymbolTable

variable {table : SymbolTable}

/-!
## Names
-/

theorem name_mem_of_lookup {β : Type} {entries : List (String × β)} {name : String} {value : β}
    (h : entries.lookup name = some value) : (name, value) ∈ entries := by
  rcases List.lookup_eq_some_iff.mp h with ⟨front, back, hentries, _⟩
  rw [hentries]
  exact List.mem_append_right front List.mem_cons_self

theorem length_le_foldl_max {n : Nat} {lengths : List Nat} (h : n ∈ lengths) :
    n ≤ lengths.foldl max 0 := by
  rw [List.foldl_eq_foldr]
  exact List.le_max_of_le' 0 h (le_refl n)

theorem length_le_longestName {name : String} {kind : TokenKind}
    (h : table.kind? name = some kind) : name.length ≤ table.longestName := by
  apply length_le_foldl_max
  unfold kind? at h
  cases huser : table.userConstant? name with
  | some value =>
      apply List.mem_append_right
      exact List.mem_map.mpr ⟨(name, value), name_mem_of_lookup huser, rfl⟩
  | none =>
      cases hbuiltin : Builtin.find? name with
      | none =>
          rw [huser, hbuiltin] at h
          cases h
      | some builtin =>
          apply List.mem_append_left
          exact List.mem_map.mpr ⟨(name, builtin), name_mem_of_lookup hbuiltin, rfl⟩

/-!
## The first piece
-/

theorem suffixes_drop (word : List Char) {k : Nat} (h : k ≤ word.length) :
    (table.suffixes word).drop k = table.suffixes (word.drop k) := by
  induction word generalizing k with
  | nil =>
      have hk : k = 0 := Nat.le_zero.mp h
      subst hk
      rfl
  | cons c rest ih =>
      cases k with
      | zero => rfl
      | succ k =>
          rw [suffixes, List.drop_succ_cons]
          exact ih (Nat.le_of_succ_le_succ h)

/-- The word itself is found to be made of names. -/
def IsSplit (table : SymbolTable) (word : List Char) : Prop :=
  (suffixAt (table.suffixes word) 0).isSplit = true

theorem isSplit_suffixAt_iff (word : List Char) {k : Nat} (h : k ≤ word.length) :
    (suffixAt (table.suffixes word) k).isSplit = true ↔ table.IsSplit (word.drop k) := by
  have hsuffix : suffixAt (table.suffixes word) k = suffixAt (table.suffixes (word.drop k)) 0 := by
    rw [← suffixes_drop word h]
    simp [suffixAt]
  rw [hsuffix, IsSplit]

theorem cutAt?_eq_some {word : List Char} {suffixes : List Suffix} {k : Nat} {cut : Cut}
    (h : table.cutAt? word suffixes k = some cut) :
    cut.more = k ∧ (suffixAt suffixes k).isSplit = true := by
  unfold cutAt? at h
  split at h
  · rename_i hsplit
    rcases Option.map_eq_some_iff.mp h with ⟨kind, _, rfl⟩
    exact ⟨rfl, hsplit⟩
  · cases h

theorem isSplit_of_longestCut? {c : Char} {rest : List Char} {cut : Cut}
    (h : table.longestCut? (c :: rest) (table.suffixes rest) = some cut) :
    cut.more ≤ rest.length ∧ table.IsSplit (rest.drop cut.more) := by
  rcases List.exists_of_findSome?_eq_some h with ⟨k, hk, hcut⟩
  have hrange := List.mem_range.mp (List.mem_reverse.mp hk)
  rw [List.length_cons] at hrange
  have hlength : k ≤ rest.length := by omega
  rcases cutAt?_eq_some hcut with ⟨hmore, hsplit⟩
  rw [hmore]
  exact ⟨hlength, (isSplit_suffixAt_iff rest hlength).mp hsplit⟩

theorem isSplit_cons_iff {c : Char} {rest : List Char} :
    table.IsSplit (c :: rest) ↔
      exists cut, table.longestCut? (c :: rest) (table.suffixes rest) = some cut := by
  rw [IsSplit, suffixes]
  exact Option.isSome_iff_exists

theorem pieces?_cons {c : Char} {rest : List Char} {cut : Cut}
    (h : table.longestCut? (c :: rest) (table.suffixes rest) = some cut) :
    pieces? (c :: rest) (table.suffixes (c :: rest)) =
      (pieces? (rest.drop cut.more) (table.suffixes (rest.drop cut.more))).map fun pieces =>
        ⟨cut.kind, String.ofList ((c :: rest).take (cut.more + 1))⟩ :: pieces := by
  have hdrop : (table.suffixes (c :: rest)).drop (cut.more + 1) =
      table.suffixes (rest.drop cut.more) :=
    suffixes_drop (c :: rest) (Nat.succ_le_succ (isSplit_of_longestCut? h).left)
  have hcut : (suffixAt (table.suffixes (c :: rest)) 0).cut = some cut := h
  rw [pieces?, hcut]
  simp only [hdrop]

theorem exists_pieces? (word : List Char) (h : table.IsSplit word) :
    exists pieces, pieces? word (table.suffixes word) = some pieces := by
  induction hlength : word.length using Nat.strongRecOn generalizing word with
  | ind n ih =>
      cases word with
      | nil => exact ⟨[], by rw [pieces?]⟩
      | cons c rest =>
          rcases isSplit_cons_iff.mp h with ⟨cut, hcut⟩
          rw [List.length_cons] at hlength
          rcases ih (rest.drop cut.more).length (by rw [List.length_drop]; omega) _
            (isSplit_of_longestCut? hcut).right rfl with ⟨pieces, hpieces⟩
          rw [pieces?_cons hcut, hpieces]
          exact ⟨_, rfl⟩

theorem splitWord?_of_isSplit {word : List Char} (h : table.IsSplit word) :
    table.splitWord? word = pieces? word (table.suffixes word) :=
  if_pos h

theorem splitWord?_of_not_isSplit {word : List Char} (h : ¬ table.IsSplit word) :
    table.splitWord? word = none :=
  if_neg h

theorem splitWord?_nil : table.splitWord? [] = some [] := by
  have hsplit : table.IsSplit [] := by
    unfold IsSplit
    rfl
  rw [splitWord?_of_isSplit hsplit, pieces?]

def splitBehind? (table : SymbolTable) (word : List Char) (cut : Cut) : Option (List Token) :=
  (table.splitWord? (word.drop (cut.more + 1))).map fun pieces =>
    ⟨cut.kind, String.ofList (word.take (cut.more + 1))⟩ :: pieces

theorem splitWord?_cons_eq_bind (c : Char) (rest : List Char) :
    table.splitWord? (c :: rest) =
      (table.longestCut? (c :: rest) (table.suffixes rest)).bind
        (table.splitBehind? (c :: rest)) := by
  cases hcut : table.longestCut? (c :: rest) (table.suffixes rest) with
  | none =>
      refine splitWord?_of_not_isSplit ?_
      rw [isSplit_cons_iff, hcut]
      rintro ⟨cut, hsome⟩
      cases hsome
  | some cut =>
      rw [splitWord?_of_isSplit (isSplit_cons_iff.mpr ⟨cut, hcut⟩), pieces?_cons hcut,
        ← splitWord?_of_isSplit (isSplit_of_longestCut? hcut).right]
      rfl

def splitAt? (table : SymbolTable) (word : List Char) (k : Nat) : Option (List Token) :=
  match table.splitWord? (word.drop (k + 1)) with
  | none => none
  | some rest =>
      let name := String.ofList (word.take (k + 1))
      (table.kind? name).map fun kind => ⟨kind, name⟩ :: rest

theorem splitAt?_eq_some {word : List Char} {k : Nat} {pieces : List Token} :
    table.splitAt? word k = some pieces ↔
      exists kind rest, table.kind? (String.ofList (word.take (k + 1))) = some kind ∧
        table.splitWord? (word.drop (k + 1)) = some rest ∧
        pieces = ⟨kind, String.ofList (word.take (k + 1))⟩ :: rest := by
  unfold splitAt?
  cases table.splitWord? (word.drop (k + 1)) with
  | none => simp
  | some rest => simp [eq_comm]

theorem splitAt?_eq_bind {c : Char} {rest : List Char} {k : Nat} (h : k ≤ rest.length) :
    table.splitAt? (c :: rest) k =
      (table.cutAt? (c :: rest) (table.suffixes rest) k).bind
        (table.splitBehind? (c :: rest)) := by
  have hiff : (suffixAt (table.suffixes rest) k).isSplit = true ↔ table.IsSplit (rest.drop k) :=
    isSplit_suffixAt_iff rest h
  rw [splitAt?, List.drop_succ_cons, cutAt?]
  by_cases hsplit : table.IsSplit (rest.drop k)
  · rcases exists_pieces? _ hsplit with ⟨pieces, hpieces⟩
    have hrest : table.splitWord? (rest.drop k) = some pieces := by
      rw [splitWord?_of_isSplit hsplit, hpieces]
    rw [if_pos (hiff.mpr hsplit), hrest]
    cases hkind : table.kind? (String.ofList ((c :: rest).take (k + 1))) with
    | none => simp only [hkind, Option.map_none, Option.bind_none]
    | some kind =>
        simp only [hkind, Option.map_some, Option.bind_some, splitBehind?, List.drop_succ_cons,
          hrest]
  · rw [if_neg (fun htrue => hsplit (hiff.mp htrue)), splitWord?_of_not_isSplit hsplit]
    rfl

/-- Going on from the first value that is found, where that never fails, is the same as going on
from each value. -/
theorem findSome?_bind {β γ : Type} {f : Nat -> Option β} {g : β -> Option γ} {places : List Nat}
    (h : forall k, k ∈ places ->
      forall found, f k = some found -> exists next, g found = some next) :
    places.findSome? (fun k => (f k).bind g) = (places.findSome? f).bind g := by
  induction places with
  | nil => rfl
  | cons k places ih =>
      rw [List.findSome?_cons, List.findSome?_cons]
      cases hfound : f k with
      | none => exact ih (fun j hj => h j (List.mem_cons_of_mem k hj))
      | some found =>
          rcases h k List.mem_cons_self found hfound with ⟨next, hnext⟩
          rw [Option.bind_some, hnext]

theorem findSome?_congr {β : Type} {f g : Nat -> Option β} {places : List Nat}
    (h : forall k, k ∈ places -> f k = g k) : places.findSome? f = places.findSome? g := by
  induction places with
  | nil => rfl
  | cons k places ih =>
      rw [List.findSome?_cons, List.findSome?_cons, h k List.mem_cons_self,
        ih (fun j hj => h j (List.mem_cons_of_mem k hj))]

theorem splitWord?_cons (c : Char) (cs : List Char) :
    table.splitWord? (c :: cs) =
      (List.range (min table.longestName (c :: cs).length)).reverse.findSome?
        (table.splitAt? (c :: cs)) := by
  have hlength : forall k, k ∈ (List.range (min table.longestName (c :: cs).length)).reverse ->
      k ≤ cs.length := by
    intro k hk
    have hrange := List.mem_range.mp (List.mem_reverse.mp hk)
    rw [List.length_cons] at hrange
    omega
  rw [findSome?_congr fun k hk => splitAt?_eq_bind (hlength k hk), findSome?_bind,
    splitWord?_cons_eq_bind, longestCut?]
  intro k hk cut hcut
  rcases cutAt?_eq_some hcut with ⟨hmore, hsplit⟩
  rw [isSplit_suffixAt_iff cs (hlength k hk), ← hmore] at hsplit
  rcases exists_pieces? _ hsplit with ⟨pieces, hpieces⟩
  rw [splitBehind?, List.drop_succ_cons, splitWord?_of_isSplit hsplit, hpieces]
  exact ⟨_, rfl⟩

theorem findSome?_reverse_range_eq_some_iff {β : Type} {f : Nat -> Option β} {n : Nat} {found : β} :
    (List.range n).reverse.findSome? f = some found ↔
      exists k, k < n ∧ f k = some found ∧ forall j, k < j -> j < n -> f j = none := by
  induction n with
  | zero => simp
  | succ n ih =>
      rw [List.range_succ, List.reverse_append, List.reverse_singleton, List.singleton_append,
        List.findSome?_cons]
      cases hlast : f n with
      | some last =>
          constructor
          · rintro ⟨⟩
            exact ⟨n, Nat.lt_succ_self n, hlast, fun j hnj hjn => absurd hjn (by omega)⟩
          · rintro ⟨k, hk, hfound, hlarger⟩
            rcases Nat.eq_or_lt_of_le (Nat.le_of_lt_succ hk) with rfl | hlt
            · exact hlast.symm.trans hfound
            · rw [hlarger n hlt (Nat.lt_succ_self n)] at hlast
              cases hlast
      | none =>
          rw [ih]
          constructor
          · rintro ⟨k, hk, hfound, hlarger⟩
            refine ⟨k, Nat.lt_succ_of_lt hk, hfound, ?_⟩
            intro j hkj hjn
            rcases Nat.eq_or_lt_of_le (Nat.le_of_lt_succ hjn) with rfl | hlt
            · exact hlast
            · exact hlarger j hkj hlt
          · rintro ⟨k, hk, hfound, hlarger⟩
            rcases Nat.eq_or_lt_of_le (Nat.le_of_lt_succ hk) with rfl | hlt
            · rw [hlast] at hfound
              cases hfound
            · exact ⟨k, hlt, hfound, fun j hkj hjn => hlarger j hkj (Nat.lt_succ_of_lt hjn)⟩

def Knows (table : SymbolTable) (name : List Char) : Prop :=
  exists kind, table.kind? (String.ofList name) = some kind

theorem splitAt?_length {word name rest : List Char} (h : word = name ++ rest) (hname : name ≠ []) :
    table.splitAt? word (name.length - 1) =
      match table.splitWord? rest with
      | none => none
      | some pieces => (table.kind? (String.ofList name)).map
          fun kind => ⟨kind, String.ofList name⟩ :: pieces := by
  have hlength : name.length - 1 + 1 = name.length :=
    Nat.sub_add_cancel (List.length_pos_iff.mpr hname)
  rw [splitAt?, hlength, h, List.drop_left, List.take_left]

/-- A known name in front of a rest that is split, and no longer name is there after which
the rest of the word can be split. -/
structure IsFirstPiece (table : SymbolTable) (name rest : List Char) (kind : TokenKind)
    (pieces : List Token) : Prop where
  ne_nil : name ≠ []
  kind_eq : table.kind? (String.ofList name) = some kind
  rest_eq : table.splitWord? rest = some pieces
  longest : forall longer back, name ++ rest = longer ++ back -> name.length < longer.length ->
    table.Knows longer -> table.splitWord? back = none

/-- A word is split behind its first piece. That the names tried are bounded in length leaves
none of them out. -/
theorem splitWord?_cons_eq_some_iff {c : Char} {cs : List Char} {pieces : List Token} :
    table.splitWord? (c :: cs) = some pieces ↔
      exists name rest kind more, c :: cs = name ++ rest ∧
        pieces = ⟨kind, String.ofList name⟩ :: more ∧ table.IsFirstPiece name rest kind more := by
  rw [splitWord?_cons, findSome?_reverse_range_eq_some_iff]
  constructor
  · rintro ⟨k, hk, hpieces, hlarger⟩
    rcases splitAt?_eq_some.mp hpieces with ⟨kind, more, hkind, hmore, rfl⟩
    have hlength : ((c :: cs).take (k + 1)).length = k + 1 := by
      rw [List.length_take]
      omega
    refine ⟨(c :: cs).take (k + 1), (c :: cs).drop (k + 1), kind, more,
      (List.take_append_drop _ _).symm, rfl, List.cons_ne_nil _ _, hkind, hmore, ?_⟩
    intro longer back hword hlonger hknown
    rcases hknown with ⟨other, hother⟩
    have hbound := length_le_longestName hother
    rw [List.take_append_drop] at hword
    rw [hlength] at hlonger
    rw [String.length_ofList] at hbound
    have htotal := congrArg List.length hword
    rw [List.length_append] at htotal
    have hnone := hlarger (longer.length - 1) (by omega) (by omega)
    rw [splitAt?_length hword (List.length_pos_iff.mp (by omega)), hother] at hnone
    cases hback : table.splitWord? back with
    | none => rfl
    | some pieces =>
        rw [hback] at hnone
        cases hnone
  · rintro ⟨name, rest, kind, more, hword, rfl, hfirst⟩
    have hpos := List.length_pos_iff.mpr hfirst.ne_nil
    have hbound := length_le_longestName hfirst.kind_eq
    have htotal := congrArg List.length hword
    rw [String.length_ofList] at hbound
    rw [List.length_append] at htotal
    refine ⟨name.length - 1, by omega, ?_, ?_⟩
    · rw [splitAt?_length hword hfirst.ne_nil, hfirst.rest_eq, hfirst.kind_eq]
      rfl
    · intro j hj hlt
      cases hfound : table.splitAt? (c :: cs) j with
      | none => rfl
      | some found =>
          rcases splitAt?_eq_some.mp hfound with ⟨other, back, hother, hback, _⟩
          have hlength : ((c :: cs).take (j + 1)).length = j + 1 := by
            rw [List.length_take]
            omega
          have hsplit := hword.symm.trans (List.take_append_drop (j + 1) (c :: cs)).symm
          have hnone := hfirst.longest _ _ hsplit (by omega) ⟨other, hother⟩
          rw [hback] at hnone
          cases hnone

theorem IsFirstPiece.splitWord?_eq {name rest : List Char} {kind : TokenKind}
    {pieces : List Token} (h : table.IsFirstPiece name rest kind pieces) :
    table.splitWord? (name ++ rest) = some (⟨kind, String.ofList name⟩ :: pieces) := by
  rcases List.exists_cons_of_ne_nil h.ne_nil with ⟨c, cs, rfl⟩
  exact splitWord?_cons_eq_some_iff.mpr ⟨c :: cs, rest, kind, pieces, rfl, rfl, h⟩

/-- A name in front is the first piece unless there is a longer one. -/
theorem splitWord?_append {name rest : List Char} {kind : TokenKind} {pieces : List Token}
    (hname : name ≠ []) (hkind : table.kind? (String.ofList name) = some kind)
    (hrest : table.splitWord? rest = some pieces)
    (hlonger : forall front back, rest = front ++ back -> front ≠ [] ->
      table.kind? (String.ofList (name ++ front)) = none) :
    table.splitWord? (name ++ rest) = some (⟨kind, String.ofList name⟩ :: pieces) := by
  refine IsFirstPiece.splitWord?_eq ⟨hname, hkind, hrest, ?_⟩
  intro longer back hword hlength hknown
  -- A longer first piece would be a name of which the known one is the front.
  rcases List.append_eq_append_iff.mp hword with ⟨front, hfront, hback⟩ | ⟨front, hfront, _⟩
  · have hne : front ≠ [] := by
      rintro rfl
      rw [hfront, List.append_nil] at hlength
      exact Nat.lt_irrefl _ hlength
    rcases hknown with ⟨other, hother⟩
    rw [hfront, hlonger front back hback hne] at hother
    cases hother
  · rw [hfront, List.length_append] at hlength
    omega

/-!
## All pieces
-/

/-- What holds of the empty word and is carried on by each first piece holds of every split. -/
theorem splitWord?_induction {motive : List Char -> List Token -> Prop} (nil : motive [] [])
    (cons : forall name rest kind pieces, table.IsFirstPiece name rest kind pieces ->
      motive rest pieces -> motive (name ++ rest) (⟨kind, String.ofList name⟩ :: pieces))
    (word : List Char) {pieces : List Token} (h : table.splitWord? word = some pieces) :
    motive word pieces := by
  induction hlength : word.length using Nat.strongRecOn generalizing word pieces with
  | ind n ih =>
      cases word with
      | nil =>
          rw [splitWord?_nil] at h
          cases h
          exact nil
      | cons c cs =>
          rcases splitWord?_cons_eq_some_iff.mp h with
            ⟨name, rest, kind, more, hword, rfl, hfirst⟩
          have hpos := List.length_pos_iff.mpr hfirst.ne_nil
          rw [hword, List.length_append] at hlength
          rw [hword]
          exact cons name rest kind more hfirst (ih rest.length (by omega) rest hfirst.rest_eq rfl)

def spelled (pieces : List Token) : List Char :=
  pieces.flatMap (fun piece => piece.text.toList)

theorem spelled_cons (piece : Token) (pieces : List Token) :
    spelled (piece :: pieces) = piece.text.toList ++ spelled pieces := rfl

theorem spelled_splitWord? (word : List Char) {pieces : List Token}
    (h : table.splitWord? word = some pieces) : spelled pieces = word := by
  refine splitWord?_induction (motive := fun word pieces => spelled pieces = word) rfl ?_ word h
  intro name rest kind pieces _ hrest
  rw [spelled_cons, hrest, String.toList_ofList]

end SymbolTable
end AngleCalc
