/-!
# Character classes as ranges

A character class is kept as an increasing list of closed ranges of code points.
Membership walks the list and stops at the first range that lies above the code
point, so the common characters, which come first, are decided in a few steps.
-/

namespace AngleCalc
namespace Text

/-- Closed ranges of code points, in increasing order. -/
abbrev Ranges : Type := List (Nat × Nat)

def Ranges.covers (n : Nat) : Ranges -> Bool
  | [] => false
  | (low, high) :: rest =>
      decide (low ≤ n) && (decide (n ≤ high) || Ranges.covers n rest)

def Ranges.contains (ranges : Ranges) (c : Char) : Bool :=
  Ranges.covers c.toNat ranges

end Text
end AngleCalc
