import Sketch.Number.Decimal

/-!
# Number literals

Commands write numbers as an optional minus sign, digits, and an optional point with further
digits (`isPlainNumber`).  `readNumber?` reads these and more: digits may stand only after the
point, and a power of ten may follow.
-/

namespace Sketch

/-- The text after an optional leading minus sign, and whether there was one. -/
def splitMinus : Text → Bool × Text
  | [] => (false, [])
  | b :: rest => if b == Byte.minus then (true, rest) else (false, b :: rest)

/-- The digits after an optional point, and the rest of the text. -/
def splitFraction : Text → Text × Text
  | [] => ([], [])
  | b :: rest =>
    if b == Byte.point then (rest.takeWhile Byte.isDigit, rest.dropWhile Byte.isDigit)
    else ([], b :: rest)

/-- Literals as commands write them: an optional minus sign, one or more digits, and optionally
a point followed by any number of digits. -/
def isPlainNumber (t : Text) : Bool :=
  let unsigned := (splitMinus t).2
  let whole := unsigned.takeWhile Byte.isDigit
  let rest := (splitFraction (unsigned.dropWhile Byte.isDigit)).2
  !whole.isEmpty && rest.isEmpty

/-- One or more digits, as a number. -/
def digitsValue? (t : Text) : Option Nat :=
  if !t.isEmpty && t.all Byte.isDigit then some (numeralValue t) else none

/-- The exponent of a literal's power of ten: `e` or `E`, an optional sign, and digits.  Without
a power of ten it is zero. -/
def exponentValue? : Text → Option Int
  | [] => some 0
  | mark :: rest =>
    if mark == 101 || mark == 69 then
      match rest with
      | [] => none
      | sign :: digits =>
        if sign == Byte.minus then (digitsValue? digits).map fun n => -(n : Int)
        else if sign == Byte.plus then (digitsValue? digits).map fun n => (n : Int)
        else (digitsValue? rest).map fun n => (n : Int)
    else none

/-- The magnitude of a literal without its minus sign. -/
def decimalValue? (t : Text) : Option Decimal :=
  let whole := t.takeWhile Byte.isDigit
  let (fraction, rest) := splitFraction (t.dropWhile Byte.isDigit)
  if whole.isEmpty && fraction.isEmpty then none
  else (exponentValue? rest).map fun e =>
    ⟨numeralValue (whole ++ fraction), e - fraction.length⟩

/-- The number that a literal denotes.  There is none if the text is no literal, or if its value
is too large, or not zero and nearest to zero. -/
def readNumber? (t : Text) : Option Number := do
  let (negative, magnitude) := splitMinus t
  let bits ← (← decimalValue? magnitude).bits?
  return ⟨.ofNat (if negative then Number.signBits + bits else bits)⟩

end Sketch
