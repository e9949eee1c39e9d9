import Sketch.Number.Basic
import Sketch.Number.Rounding

/-!
# Numbers in binary

A finite number is exactly `± m · 2 ^ e` for a natural number `m` and an integer `e`, which
`Binary.ofNumber` reads off its bits.  The sign is that of the number.  Conversely
`nearestBits n d` gives the bits of the number nearest to the positive fraction `n / d`: the bits of
positive numbers, read as natural numbers, are in the order of the numbers, and a significand that
rounds up to the next power of two carries into the exponent.
-/

namespace Sketch

/-- The value `significand · 2 ^ exponent`. -/
structure Binary where
  /-- The significand. -/
  significand : Nat
  /-- The power of two that the significand is multiplied with. -/
  exponent : Int

namespace Binary

/-- The exponent of the smallest positive number. -/
def leastExponent : Int := -1074

/-- The bits of positive infinity, which are above those of every positive number. -/
def infinityBits : Nat := 0x7ff0000000000000

/-- The magnitude of a finite number, exactly. -/
def ofNumber (x : Number) : Binary :=
  if x.field = 0 then
    ⟨x.fraction, leastExponent⟩
  else
    ⟨Nat.pow 2 Number.fractionBits + x.fraction, leastExponent + (x.field - 1)⟩

/-- The greatest `k` with `2 ^ k ≤ n / d`, for positive `n` and `d`. -/
def floorLog (n d : Nat) : Int :=
  let k : Int := (n.log2 : Int) - d.log2
  if d * Nat.pow 2 k.toNat ≤ n * Nat.pow 2 (-k).toNat then k else k - 1

/-- The bits of the number nearest to `n / d`, for positive `n` and `d`; of two equally near
ones, the one with the even significand.  A result of `infinityBits` or more stands for a
fraction that is too large. -/
def nearestBits (n d : Nat) : Nat :=
  let e := max (floorLog n d - Number.fractionBits) leastExponent
  let significand := roundDiv (n * Nat.pow 2 (-e).toNat) (d * Nat.pow 2 e.toNat)
  (e - leastExponent).toNat * Nat.pow 2 Number.fractionBits + significand

end Binary

end Sketch
