import Sketch.Text.Blank
import Sketch.Text.Numeral
import Sketch.Number.Binary

/-!
# Numbers as decimals

Since `2 ^ -k = 5 ^ k · 10 ^ -k`, every finite number is a decimal fraction
`n · 10 ^ e` exactly.  A number is written by rounding that fraction to twelve significant
digits, dropping trailing zeros, and laying the digits out: positionally if the leading digit
stands between the fourth place after the point and the twelfth before it, and with a power of
ten otherwise.  A decimal fraction is read by taking the nearest number.
-/

namespace Sketch

/-- The decimal fraction `digits · 10 ^ exponent`. -/
structure Decimal where
  /-- The digits, as a natural number. -/
  digits : Nat
  /-- The power of ten that the digits are multiplied with. -/
  exponent : Int

namespace Decimal

/-- A binary number as a decimal fraction, exactly. -/
def ofBinary (x : Binary) : Decimal :=
  match x.exponent with
  | .ofNat k => ⟨x.significand * Nat.pow 2 k, 0⟩
  | .negSucc k => ⟨x.significand * Nat.pow 5 (k + 1), .negSucc k⟩

/-- The fraction rounded to the given number of significant digits. -/
def round (places : Nat) (x : Decimal) : Decimal :=
  let excess := (numeral x.digits).length - places
  ⟨roundDiv x.digits (Nat.pow 10 excess), x.exponent + excess⟩

/-- The place of the leading digit: `0` for the units, `1` for the tens, `-1` for the tenths. -/
def leadingPlace (x : Decimal) : Int :=
  (numeral x.digits).length - 1 + x.exponent

/-- The digits without trailing zeros. -/
def significantDigits (x : Decimal) : Text :=
  trimEndBy (· == Byte.zero) (numeral x.digits)

/-- The digits `ds`, the first of which stands at place `k`, written positionally. -/
def positional (ds : Text) : Int → Text
  | .negSucc k => utf8 "0." ++ List.replicate k Byte.zero ++ ds
  | .ofNat k =>
    let whole := ds.take (k + 1) ++ List.replicate (k + 1 - ds.length) Byte.zero
    match ds.drop (k + 1) with
    | [] => whole
    | fraction => whole ++ [Byte.point] ++ fraction

/-- A numeral of at least two digits. -/
def paddedNumeral (n : Nat) : Text :=
  if n < 10 then Byte.zero :: numeral n else numeral n

/-- The digits `ds`, the first of which stands at place `k`, written with a power of ten. -/
def scientific (ds : Text) (k : Int) : Text :=
  let sign := if k < 0 then Byte.minus else Byte.plus
  let power := utf8 "e" ++ [sign] ++ paddedNumeral k.natAbs
  match ds with
  | d :: fraction@(_ :: _) => [d, Byte.point] ++ fraction ++ power
  | _ => ds ++ power

/-- The number of significant digits that are written. -/
def writtenDigits : Nat := 12

/-- The lowest place of a leading digit for which numbers are written positionally. -/
def lowestPlace : Int := -4

/-- The text of a positive decimal fraction. -/
def text (x : Decimal) : Text :=
  let rounded := x.round writtenDigits
  let place := rounded.leadingPlace
  if lowestPlace ≤ place ∧ place < writtenDigits then
    positional rounded.significantDigits place
  else
    scientific rounded.significantDigits place

/-- The bits of the number nearest to a decimal fraction.  There are none if the
fraction is too large, or if it is not zero and nearest to zero.  The first test decides this
for fractions that are far out of range without computing their power of ten. -/
def bits? (x : Decimal) : Option Nat :=
  let magnitude := x.leadingPlace + 1
  if x.digits = 0 then
    some 0
  else if magnitude < -325 ∨ 310 < magnitude then
    none
  else
    let bits := Binary.nearestBits (x.digits * Nat.pow 10 x.exponent.toNat)
      (Nat.pow 10 (-x.exponent).toNat)
    if 0 < bits ∧ bits < Binary.infinityBits then some bits else none

end Decimal

/-- The text of a number. -/
def numberText (x : Number) : Text :=
  let binary := Binary.ofNumber x
  let sign := if x.isNegative then [Byte.minus] else []
  if x.isNaN then sign ++ utf8 "nan"
  else if x.isInfinite then sign ++ utf8 "inf"
  else if binary.significand = 0 then utf8 "0"
  else sign ++ (Decimal.ofBinary binary).text

/-- The text of a tuple of numbers. -/
def numbersText (xs : List Number) : Text :=
  Text.bracketed (Text.commaSeparated (xs.map numberText))

end Sketch
