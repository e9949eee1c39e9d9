/-!
# Numbers

The numbers of commands are the 64-bit binary floating-point numbers.  They are given by their
bits: the sign, eleven bits of exponent, which are called the field here, and 52 bits of fraction.

The greatest field belongs to the two infinities and to the NaNs, the results of operations that
have no value.  A NaN has a sign, too, and shows it when it is written.

Numbers are compared as numbers, by `==`: the two zeros are equal, and a NaN differs from every
number and from itself.
-/

namespace Sketch

/-- A 64-bit binary floating-point number, given by its bits. -/
structure Number where
  /-- The bits. -/
  bits : UInt64

namespace Number

/-- The number of bits of the fraction. -/
def fractionBits : Nat := 52

/-- The bits of the negative zero: the sign bit alone. -/
def signBits : Nat := Nat.pow 2 63

/-- The field of the infinities and the NaNs, which is the greatest one. -/
def greatestField : Nat := 2047

/-- Whether the sign bit is set. -/
def isNegative (x : Number) : Bool := signBits ≤ x.bits.toNat

/-- The bits of the exponent. -/
def field (x : Number) : Nat := x.bits.toNat / Nat.pow 2 fractionBits % Nat.pow 2 11

/-- The bits of the fraction. -/
def fraction (x : Number) : Nat := x.bits.toNat % Nat.pow 2 fractionBits

/-- Whether a number is neither an infinity nor a NaN. -/
def isFinite (x : Number) : Bool := x.field != greatestField

/-- Whether a number is one of the two infinities. -/
def isInfinite (x : Number) : Bool := x.field == greatestField && x.fraction == 0

/-- Whether a number is a NaN. -/
def isNaN (x : Number) : Bool := x.field == greatestField && x.fraction != 0

/-- Whether a number is one of the two zeros. -/
def isZero (x : Number) : Bool := x.field == 0 && x.fraction == 0

/-- The number that a floating-point value is. -/
def ofFloat (x : Float) : Number := ⟨x.toBits⟩

instance (n : Nat) : OfNat Number n := ⟨ofFloat (.ofNat n)⟩

instance : OfScientific Number := ⟨fun m s e => ofFloat (.ofScientific m s e)⟩

/-- The negative of a number has the other sign, also if it is a NaN. -/
instance : Neg Number := ⟨fun x => ⟨x.bits ^^^ .ofNat signBits⟩⟩

/-! ### Equality -/

instance : BEq Number :=
  ⟨fun x y => !x.isNaN && !y.isNaN && (x.bits == y.bits || x.isZero && y.isZero)⟩

/-- Numbers are equal if they are no NaNs, and are the same or both zero. -/
theorem beq_iff {x y : Number} :
  (x == y) = true
    ↔ x.isNaN = false ∧ y.isNaN = false ∧ (x = y ∨ x.isZero = true ∧ y.isZero = true)
  := by
  have hbits : x.bits = y.bits ↔ x = y := ⟨fun h => congrArg mk h, congrArg bits⟩
  change (!x.isNaN && !y.isNaN && (x.bits == y.bits || x.isZero && y.isZero)) = true ↔ _
  simp only [Bool.and_eq_true, Bool.or_eq_true, Bool.not_eq_true', beq_iff_eq, hbits, and_assoc]

/-- A number is equal to itself exactly if it is no NaN. -/
theorem beq_self_iff {x : Number} :
  (x == x) = true ↔ x.isNaN = false
  := by
  rw [beq_iff]
  constructor
  · intro h
    exact h.1
  · intro h
    exact ⟨h, h, Or.inl rfl⟩

instance : PartialEquivBEq Number where
  symm {x y} h := by
    obtain ⟨hx, hy, hxy⟩ := beq_iff.mp h
    apply beq_iff.mpr
    exact ⟨hy, hx, hxy.imp Eq.symm And.symm⟩
  trans {x y z} hxy hyz := by
    obtain ⟨hx, -, hxy⟩ := beq_iff.mp hxy
    obtain ⟨-, hz, hyz⟩ := beq_iff.mp hyz
    apply beq_iff.mpr
    refine ⟨hx, hz, ?_⟩
    rcases hxy with rfl | ⟨hx, hy⟩
    · exact hyz
    · rcases hyz with rfl | ⟨-, hz⟩
      · exact Or.inr ⟨hx, hy⟩
      · exact Or.inr ⟨hx, hz⟩

end Number

end Sketch
