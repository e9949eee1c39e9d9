import Sketch.Text.Basic

/-!
# Decimal numerals

`numeral n` is the usual numeral of `n`, and `numeralValue` reads a list of digits.  Reading a
numeral gives the number back (`numeralValue_numeral`).
-/

namespace Sketch

/-- The decimal numeral of a natural number. -/
def numeral (n : Nat) : Text := (Nat.toDigits 10 n).map Char.toUInt8

/-- The number that a list of decimal digits denotes; leading zeros are allowed. -/
def numeralValue (digits : Text) : Nat :=
  digits.foldl (fun n b => 10 * n + (b.toNat - Byte.zero.toNat)) 0

/-- The bytes of a digit and the digit itself have the same code. -/
theorem toNat_toUInt8_of_isDigit {c : Char} (h : c.isDigit) :
  c.toUInt8.toNat = c.toNat
  := by
  simp only [Char.isDigit, ge_iff_le, Bool.and_eq_true, decide_eq_true_eq] at h
  have hc : c.toNat ≤ 57 := h.2
  simp only [Char.toUInt8, UInt32.toNat_toUInt8]
  apply Nat.mod_eq_of_lt
  change c.toNat < 256
  omega

/-- The numeral of a number denotes it. -/
theorem numeralValue_numeral (n : Nat) :
  numeralValue (numeral n) = n
  := by
  have digits : ∀ (cs : List Char) (k : Nat), (∀ c ∈ cs, c.isDigit) →
      (cs.map Char.toUInt8).foldl (fun n b => 10 * n + (b.toNat - Byte.zero.toNat)) k
        = Nat.ofDigitChars 10 cs k := by
    intro cs
    induction cs with
    | nil =>
      intro k _
      rfl
    | cons c cs ih =>
      intro k h
      rw [List.map_cons, List.foldl_cons, Nat.ofDigitChars_cons,
        toNat_toUInt8_of_isDigit (h c List.mem_cons_self)]
      apply ih
      intro d hd
      apply h d (List.mem_cons_of_mem c hd)
  rw [numeralValue, numeral, digits, Nat.ofDigitChars_ten_toDigits]
  intro c hc
  apply Nat.isDigit_of_mem_toDigits (by decide) (by decide) hc

theorem numeral_ne_nil (n : Nat) :
  numeral n ≠ []
  := by
  simp [numeral, Nat.toDigits_ne_nil]

end Sketch
