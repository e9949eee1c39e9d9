/-!
# Rounding a quotient

Numbers are read and written by rounding one exact quotient of natural numbers.
-/

namespace Sketch

/-- The natural number nearest to `n / d`; of two equally near ones, the even one. -/
def roundDiv (n d : Nat) : Nat :=
  let q := n / d
  let r := n % d
  if 2 * r < d ∨ (2 * r = d ∧ q % 2 = 0) then q else q + 1

/-- Rounding a whole number leaves it alone. -/
@[simp]
theorem roundDiv_one (n : Nat) :
  roundDiv n 1 = n
  := by
  simp [roundDiv, Nat.mod_one]

/-- Rounding moves a quotient by at most one half. -/
theorem two_mul_roundDiv_le (n d : Nat) (hd : 0 < d) :
  2 * (d * roundDiv n d) ≤ 2 * n + d ∧ 2 * n ≤ 2 * (d * roundDiv n d) + d
  := by
  have hn := Nat.div_add_mod n d
  have hr := Nat.mod_lt n hd
  unfold roundDiv
  dsimp only
  split
  · omega
  · rw [Nat.mul_add]
    omega

end Sketch
