import Sketch.Number.Basic

/-!
# Arithmetic

An operation on two numbers gives the number nearest to the exact result.  If an operand is a NaN,
the result is that NaN, and the first one if both are.  An operation that has no value, such as the
difference of an infinity and itself, gives a NaN with the sign bit set.
-/

namespace Sketch

namespace Number

/-- A number as a floating-point value, which does not tell NaNs apart. -/
def toFloat (x : Number) : Float := Float.ofBits x.bits

/-- The result of operations that have no value. -/
def undefined : Number := ⟨0xfff8000000000000⟩

/-- An operation on floating-point values as an operation on numbers. -/
def operate (operation : Float → Float → Float) (x y : Number) : Number :=
  if x.isNaN then x
  else if y.isNaN then y
  else
    let result := operation x.toFloat y.toFloat
    if result.isNaN then undefined else ofFloat result

instance : Add Number := ⟨operate (· + ·)⟩

instance : Sub Number := ⟨operate (· - ·)⟩

instance : Mul Number := ⟨operate (· * ·)⟩

instance : Div Number := ⟨operate (· / ·)⟩

/-- Whether a number counts as zero when dividing: its magnitude is below `10⁻¹⁰`. -/
def isNegligible (x : Number) : Bool := x.toFloat.abs < 1e-10

end Number

end Sketch
