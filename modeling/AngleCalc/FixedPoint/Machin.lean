import AngleCalc.FixedPoint.Basic

/-!
# The number pi

Machin's formula, pi = 16 arctan(1/5) - 4 arctan(1/239), with each arctangent
summed from its alternating series in integers. Every term is rounded down, and
the sum stops at the first term that vanishes. Ten guard digits absorb the error.
-/

namespace AngleCalc
namespace FixedPoint

/-- Digits carried beyond those asked for while a series is summed. -/
def guardDigits : Nat := 10

/-- The series of `scale * arctan (1 / q)` from the term of index `k` on, where
`power` is `q` to the power `2 * k + 1`. Only a `q` above one has a series whose
terms vanish. -/
def arctanTail (q scale k power : Nat) : Int :=
  let term := scale / (power * (2 * k + 1))
  if _ : term = 0 ∨ q ≤ 1 then 0
  else
    (if k % 2 = 0 then (term : Int) else -(term : Int)) +
      arctanTail q scale (k + 1) (power * q * q)
termination_by scale + 1 - power
decreasing_by
  rename_i h
  rcases not_or.mp h with ⟨hterm, _⟩
  have hle : 0 < power * (2 * k + 1) ∧ power * (2 * k + 1) ≤ scale :=
    Nat.div_pos_iff.mp (Nat.pos_of_ne_zero hterm)
  have hpower : 0 < power := Nat.pos_of_mul_pos_right hle.1
  have hself : power ≤ power * (2 * k + 1) := Nat.le_mul_of_pos_right power (by omega)
  have hgrow : power * 1 < power * q := Nat.mul_lt_mul_of_pos_left (by omega) hpower
  have hgrow' : power * q ≤ power * q * q := Nat.le_mul_of_pos_right _ (by omega)
  omega

/-- The arctangent of `1 / q` in units of `1 / scale`, each term rounded down. -/
def arctanInverse (q scale : Nat) : Int :=
  arctanTail q scale 0 q

def pi (digits : Nat) : Int :=
  let scale := unit (digits + guardDigits)
  (16 * arctanInverse 5 scale - 4 * arctanInverse 239 scale).tdiv (unit guardDigits)

end FixedPoint
end AngleCalc
