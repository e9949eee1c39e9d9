import Sketch.Proofs.NearestNumbers

/-!
# Texts of numbers that can be read

The text of a number may lose digits of it, so that another number is read.  But that number has
the same text: what is written positionally has twelve digits at most, the number nearest to it
is very close to it, and so is rounded to it again.
-/

namespace Sketch

open Text Grammar

/-! ### Texts that are literals -/

theorem Grammar.Literal.bytes {t : Text} (h : Literal t) :
  ∀ b ∈ t, b = Byte.minus ∨ Byte.isDigit b = true ∨ b = Byte.point
  := by
  have hminus : ∀ {sign : Text}, sign = [] ∨ sign = [Byte.minus] →
      ∀ b ∈ sign, b = Byte.minus := by
    rintro sign (rfl | rfl) b hb
    · cases hb
    · apply List.mem_singleton.mp hb
  cases h with
  | @whole sign digits hsign _ hdigits =>
    intro b hb
    rcases List.mem_append.mp hb with hb | hb
    · exact Or.inl (hminus hsign b hb)
    · exact Or.inr (Or.inl (hdigits b hb))
  | @fraction sign digits places hsign _ hdigits hplaces =>
    intro b hb
    rcases List.mem_append.mp hb with hb | hb
    · rcases List.mem_append.mp hb with hb | hb
      · exact Or.inl (hminus hsign b hb)
      · exact Or.inr (Or.inl (hdigits b hb))
    · rcases List.mem_cons.mp hb with hb | hb
      · exact Or.inr (Or.inr hb)
      · exact Or.inr (Or.inl (hplaces b hb))

/-- A text with a lower-case letter is not a literal. -/
theorem isPlainNumber_of_letter {t : Text} {b : UInt8} (hb : b ∈ t) (hletter : 97 ≤ b) :
  isPlainNumber t = false
  := by
  rw [Bool.eq_false_iff]
  intro h
  rcases ((isPlainNumber_iff t).mp h).bytes b hb with rfl | hdigit | rfl
  · exact absurd hletter (by decide)
  · grind [Byte.isDigit]
  · exact absurd hletter (by decide)

theorem Decimal.mem_scientific (ds : Text) (k : ℤ) :
  101 ∈ scientific ds k
  := by
  have hmark : (101 : UInt8) ∈ utf8 "e" := List.mem_singleton.mpr rfl
  unfold scientific
  dsimp only
  split
  · simp [hmark]
  · simp [hmark]

/-- The sign of a number, as it is written. -/
def signText (negative : Bool) : Text := if negative then [Byte.minus] else []

theorem numberText_eq (x : Number) :
  numberText x
    = if x.isNaN then signText x.isNegative ++ utf8 "nan"
      else if x.isInfinite then signText x.isNegative ++ utf8 "inf"
      else if (Binary.ofNumber x).significand = 0 then utf8 "0"
      else signText x.isNegative ++ (Decimal.ofBinary (Binary.ofNumber x)).text
  := rfl

/-- The text of a fraction that is a literal is written positionally. -/
theorem Decimal.text_of_isPlainNumber {x : Decimal} {sign : Text}
    (h : isPlainNumber (sign ++ x.text) = true) :
  -4 ≤ (x.round writtenDigits).leadingPlace ∧ (x.round writtenDigits).leadingPlace < 12
    ∧ x.text = positional (x.round writtenDigits).significantDigits
      (x.round writtenDigits).leadingPlace
  := by
  rw [text] at h ⊢
  split at h
  · next hplace =>
    rw [if_pos hplace]
    exact ⟨hplace.1, hplace.2, rfl⟩
  · have hletter := List.mem_append_right sign (mem_scientific
      (x.round writtenDigits).significantDigits (x.round writtenDigits).leadingPlace)
    rw [isPlainNumber_of_letter hletter (by decide)] at h
    cases h

/-- Numbers whose text is a literal are written as zero, or as a sign and a fraction. -/
theorem numberText_of_isPlainNumber {x : Number} (h : isPlainNumber (numberText x) = true) :
  numberText x = utf8 "0"
    ∨ 0 < (Binary.ofNumber x).significand
      ∧ numberText x = signText x.isNegative ++ (Decimal.ofBinary (Binary.ofNumber x)).text
  := by
  have hletter : ∀ {t : Text}, (110 : UInt8) ∈ t →
      isPlainNumber (signText x.isNegative ++ t) = false := by
    intro t ht
    apply isPlainNumber_of_letter (List.mem_append_right _ ht) (by decide)
  revert h
  rw [numberText_eq]
  split
  · intro h
    rw [hletter (by decide)] at h
    cases h
  · split
    · intro h
      rw [hletter (by decide)] at h
      cases h
    · split
      · intro _
        exact Or.inl rfl
      · next hsignificand =>
        intro _
        exact Or.inr ⟨Nat.pos_of_ne_zero hsignificand, rfl⟩

/-! ### Reading texts of numbers -/

theorem splitMinus_signText (negative : Bool) {t : Text} (h : t.head? ≠ some Byte.minus) :
  splitMinus (signText negative ++ t) = (negative, t)
  := by
  cases negative with
  | true => rfl
  | false =>
    cases t with
    | nil => rfl
    | cons b t =>
      have hb : (b == Byte.minus) = false := by
        rw [beq_eq_false_iff_ne]
        rintro rfl
        exact h rfl
      change splitMinus (b :: t) = _
      rw [splitMinus, hb]
      rfl

/-- A magnitude has no sign of its own. -/
theorem head?_of_decimalValue? {t : Text} {y : Decimal} (h : decimalValue? t = some y) :
  t.head? ≠ some Byte.minus
  := by
  intro hhead
  cases t with
  | nil => cases hhead
  | cons b t =>
    obtain rfl := Option.some.inj hhead
    have hnone : decimalValue? (Byte.minus :: t) = none := rfl
    rw [hnone] at h
    cases h

/-- What is read is finite. -/
theorem isFinite_of_readNumber? {t : Text} {w : Number} (h : readNumber? t = some w) :
  w.isFinite = true
  := by
  rw [readNumber?] at h
  obtain ⟨y, -, h⟩ := Option.bind_eq_some_iff.mp h
  obtain ⟨bits, hbits, h⟩ := Option.bind_eq_some_iff.mp h
  have hw := (Option.some.inj h).symm
  exact (Binary.finite_of_lt (Decimal.lt_infinityBits_of_bits? hbits) hw).2

/-- The number nearest to a fraction of moderate size, with either sign. -/
theorem Decimal.exists_number {y : Decimal} (hlower : (10 : ℚ) ^ (-4 : ℤ) ≤ y.value)
    (hupper : y.value < 10 ^ (12 : ℤ)) (negative : Bool) :
  ∃ bits w, y.bits? = some bits
    ∧ w = ⟨.ofNat (if negative then Number.signBits + bits else bits)⟩
    ∧ w.isNaN = false ∧ w.isInfinite = false
    ∧ w.isNegative = negative ∧ 0 < (Binary.ofNumber w).significand
    ∧ |(Binary.ofNumber w).value - y.value| ≤ y.value / 2 ^ 53
  := by
  obtain ⟨field, m, hbits, hfield, hm, hm', hnear⟩ := exists_bits? hlower hupper
  obtain ⟨w, hw⟩ : ∃ w : Number, w = ⟨.ofNat (if negative then
      Number.signBits + (field * 2 ^ 52 + m) else field * 2 ^ 52 + m)⟩ := ⟨_, rfl⟩
  obtain ⟨htoNat, hfinite⟩ := Binary.finite_of_lt (lt_infinityBits_of_bits? hbits) hw
  obtain ⟨hnan, hinf⟩ := Number.isNaN_and_isInfinite_of_isFinite hfinite
  obtain ⟨hnegative, hpos, hvalue⟩ := Binary.ofNumber_of_bits htoNat hfield hm hm'
  refine ⟨_, w, hbits, hw, hnan, hinf, hnegative, hpos, ?_⟩
  rw [hvalue]
  exact hnear

theorem Decimal.digits_ofBinary_pos {x : Binary} (h : 0 < x.significand) :
  0 < (ofBinary x).digits
  := by
  rw [ofBinary]
  split
  · exact Nat.mul_pos h (Nat.pow_pos (by decide))
  · exact Nat.mul_pos h (Nat.pow_pos (by decide))

/-- Fractions that are rounded to the same value have the same text. -/
theorem Decimal.text_of_value_round_eq {x y : Decimal} (hx : 0 < x.digits) (hy : 0 < y.digits)
    (h : (x.round writtenDigits).value = (y.round writtenDigits).value) :
  x.text = y.text
  := by
  obtain ⟨hdigits, hplace⟩ := layout_of_value_eq (short_round hx).1 (short_round hy).1 h
  rw [text, text, hdigits, hplace]

/-- If the text of a number is a literal, then it is the text of the number that is read. -/
theorem exists_readNumber?_numberText {x : Number} (h : isPlainNumber (numberText x) = true) :
  ∃ w, readNumber? (numberText x) = some w ∧ numberText w = numberText x
  := by
  rcases numberText_of_isPlainNumber h with hzero | ⟨hsignificand, htext⟩
  · rw [hzero]
    exact ⟨0, rfl, rfl⟩
  · have hx := Decimal.digits_ofBinary_pos hsignificand
    rw [htext] at h ⊢
    generalize Decimal.ofBinary (Binary.ofNumber x) = d at hx h ⊢
    obtain ⟨hlow, hhigh, hpositional⟩ := Decimal.text_of_isPlainNumber h
    obtain ⟨hpos, p, hshort⟩ := Decimal.short_round hx
    obtain ⟨hlower, hupper⟩ := Decimal.value_bounds hpos
    obtain ⟨y, hy, hvalue⟩ := Decimal.exists_decimalValue?_positional
      (fun b hb => Decimal.isDigit_of_mem_significantDigits hb)
      (d.round Decimal.writtenDigits).leadingPlace
    rw [← Decimal.value_eq_significantDigits] at hvalue
    rw [← hpositional] at hy
    have hylower : (10 : ℚ) ^ (-4 : ℤ) ≤ y.value := by
      rw [hvalue]
      apply le_trans _ hlower
      apply zpow_le_zpow_right₀ (by norm_num) hlow
    have hyupper : y.value < 10 ^ (12 : ℤ) := by
      rw [hvalue]
      apply lt_of_lt_of_le hupper
      apply zpow_le_zpow_right₀ (by norm_num) hhigh
    obtain ⟨bits, w, hbits, hw, hnan, hinf, hnegative, hwpos, hnear⟩ :=
      Decimal.exists_number hylower hyupper x.isNegative
    use w
    constructor
    · rw [readNumber?, splitMinus_signText _ (head?_of_decimalValue? hy)]
      simp [hy, hbits, hw]
    · -- The number that is read is rounded to the fraction that was written.
      have hw' := Decimal.digits_ofBinary_pos hwpos
      rw [hvalue, ← Decimal.value_ofBinary] at hnear
      have hround := Decimal.value_round_of_near hw' hshort hnear
      rw [numberText_eq, hnan, hinf, hnegative, if_neg (by simp), if_neg (by simp),
        if_neg hwpos.ne', Decimal.text_of_value_round_eq hw' hx hround]

end Sketch
