import Sketch.Proofs.Decimals

/-!
# The number nearest to a fraction

The bits of the number nearest to a fraction are the bits of a number whose value differs from the
fraction by at most half a unit in its last place, which is at most `2⁻⁵³` of the fraction
itself.  This is shown for fractions that are neither very small nor very large.
-/

namespace Sketch

/-- A power with an integer exponent, as it is computed with natural numbers. -/
theorem zpow_eq_div {b : ℚ} (hb : b ≠ 0) (k : ℤ) :
  b ^ k = b ^ k.toNat / b ^ (-k).toNat
  := by
  rw [← zpow_natCast, ← zpow_natCast, ← zpow_sub₀ hb]
  congr 1
  omega

namespace Binary

/-- The value of a binary number. -/
def value (x : Binary) : ℚ := x.significand * (2 : ℚ) ^ x.exponent

end Binary

/-- The value of a binary number is a decimal fraction. -/
theorem Decimal.value_ofBinary (x : Binary) :
  (ofBinary x).value = x.value
  := by
  obtain ⟨m, e⟩ := x
  cases e with
  | ofNat k =>
    have hdecimal : ofBinary ⟨m, .ofNat k⟩ = ⟨m * 2 ^ k, 0⟩ := rfl
    rw [hdecimal, value, Binary.value, zpow_zero, Int.ofNat_eq_natCast, zpow_natCast]
    push_cast
    ring
  | negSucc k =>
    have hdecimal : ofBinary ⟨m, .negSucc k⟩ = ⟨m * 5 ^ (k + 1), .negSucc k⟩ := rfl
    have hten : (10 : ℚ) ^ (k + 1) = 2 ^ (k + 1) * 5 ^ (k + 1) := by
      rw [← mul_pow]
      norm_num
    rw [hdecimal, value, Binary.value, zpow_negSucc, zpow_negSucc, hten]
    push_cast
    field_simp

namespace Binary

/-! ### The bits of the nearest number -/

/-- `floorLog` says between which powers of two a fraction is. -/
theorem floorLog_bounds {n d : ℕ} (hn : 0 < n) (hd : 0 < d) :
  (2 : ℚ) ^ floorLog n d ≤ n / d ∧ (n / d : ℚ) < 2 ^ (floorLog n d + 1)
  := by
  have hn' : (0 : ℚ) < n := Nat.cast_pos.mpr hn
  have hd' : (0 : ℚ) < d := Nat.cast_pos.mpr hd
  have hnlow : (2 : ℚ) ^ n.log2 ≤ n := by exact_mod_cast Nat.log2_self_le hn.ne'
  have hnhigh : (n : ℚ) < 2 ^ (n.log2 + 1) := by exact_mod_cast Nat.lt_log2_self
  have hdlow : (2 : ℚ) ^ d.log2 ≤ d := by exact_mod_cast Nat.log2_self_le hd.ne'
  have hdhigh : (d : ℚ) < 2 ^ (d.log2 + 1) := by exact_mod_cast Nat.lt_log2_self
  have htest : d * Nat.pow 2 ((n.log2 : ℤ) - d.log2).toNat
        ≤ n * Nat.pow 2 (-((n.log2 : ℤ) - d.log2)).toNat
      ↔ (2 : ℚ) ^ ((n.log2 : ℤ) - d.log2) ≤ n / d := by
    rw [zpow_eq_div (by norm_num), div_le_div_iff₀ (by positivity) hd', mul_comm d]
    exact_mod_cast Iff.rfl
  have hlog : (2 : ℚ) ^ ((n.log2 : ℤ) - d.log2) = 2 ^ n.log2 / 2 ^ d.log2 := by
    rw [zpow_sub₀ (by norm_num), zpow_natCast, zpow_natCast]
  rw [floorLog]
  split
  · next h =>
    use htest.mp h
    rw [zpow_add_one₀ (by norm_num), hlog, div_mul_eq_mul_div, div_lt_div_iff₀ hd' (by positivity),
      ← pow_succ]
    exact mul_lt_mul hnhigh hdlow (by positivity) (by positivity)
  · next h =>
    rw [htest, not_le] at h
    rw [sub_add_cancel]
    refine ⟨?_, h⟩
    rw [zpow_sub_one₀ (by norm_num), hlog, ← div_eq_mul_inv, div_div, ← pow_succ,
      div_le_div_iff₀ (by positivity) hd']
    exact mul_le_mul hnlow hdhigh.le hd'.le hn'.le

/-- A fraction as a multiple of a power of two, with the numerator or the denominator scaled. -/
theorem div_eq_scaled (n d : ℕ) (e : ℤ) :
  (n / d : ℚ) = ((n * 2 ^ (-e).toNat : ℕ) : ℚ) / ((d * 2 ^ e.toNat : ℕ) : ℚ) * 2 ^ e
  := by
  rw [zpow_eq_div (by norm_num) e]
  push_cast
  field_simp

/-- The nearest number is given by a significand of 53 bits, or by the next power of two, and
differs from the fraction by at most half a unit of the significand. -/
theorem exists_nearestBits {n d : ℕ} (hn : 0 < n) (hd : 0 < d) (hlow : -1022 ≤ floorLog n d) :
  ∃ m : ℕ, nearestBits n d = (floorLog n d + 1022).toNat * 2 ^ 52 + m ∧ 2 ^ 52 ≤ m ∧ m ≤ 2 ^ 53
    ∧ |m * (2 : ℚ) ^ (floorLog n d - 52) - n / d| ≤ 2 ^ (floorLog n d - 52) / 2
  := by
  obtain ⟨hlower, hupper⟩ := floorLog_bounds hn hd
  have hd' : (0 : ℚ) < d := Nat.cast_pos.mpr hd
  have hexponent : max (floorLog n d - Number.fractionBits) leastExponent = floorLog n d - 52 := by
    apply max_eq_left
    change -1074 ≤ floorLog n d - 52
    omega
  have hbits : nearestBits n d = (floorLog n d - 52 - leastExponent).toNat * 2 ^ 52
      + roundDiv (n * 2 ^ (-(floorLog n d - 52)).toNat) (d * 2 ^ (floorLog n d - 52).toNat) := by
    rw [nearestBits, hexponent]
    rfl
  have hfield : floorLog n d - 52 - leastExponent = floorLog n d + 1022 := by
    rw [leastExponent]
    ring
  rw [hbits, hfield]
  generalize floorLog n d = f at *
  -- Scaled by a power of two, the fraction is between `2 ^ 52` and `2 ^ 53`.
  have hunit : (0 : ℚ) < 2 ^ (f - 52) := by positivity
  have hscaled := div_eq_scaled n d (f - 52)
  have hpower : (2 : ℚ) ^ f = 2 ^ 52 * 2 ^ (f - 52) := zpow_eq_pow_mul (by norm_num) f 52
  have hpower' : (2 : ℚ) ^ (f + 1) = 2 ^ 53 * 2 ^ (f - 52) := by
    rw [zpow_add_one₀ (by norm_num), hpower]
    ring
  have hD : 0 < d * 2 ^ (f - 52).toNat := by positivity
  generalize n * 2 ^ (-(f - 52)).toNat = N at *
  generalize d * 2 ^ (f - 52).toNat = D at *
  rw [hscaled, hpower] at hlower
  rw [hscaled, hpower'] at hupper
  obtain ⟨hm, hm'⟩ : 2 ^ 52 ≤ roundDiv N D ∧ roundDiv N D ≤ 2 ^ 53 := by
    apply roundDiv_mem hD
    · have := le_of_mul_le_mul_right hlower hunit
      exact_mod_cast this
    · have := lt_of_mul_lt_mul_right hupper hunit.le
      exact_mod_cast this
  refine ⟨roundDiv N D, rfl, hm, hm', ?_⟩
  have hnear := mul_le_mul_of_nonneg_right (abs_roundDiv_sub_le N hD) hunit.le
  rw [hscaled, ← sub_mul, abs_mul, abs_of_pos hunit]
  linarith

end Binary

/-! ### The number with given bits -/

theorem Number.isNaN_and_isInfinite_of_isFinite {x : Number} (h : x.isFinite = true) :
  x.isNaN = false ∧ x.isInfinite = false
  := by
  have hfield : (x.field == greatestField) = false := by
    rw [isFinite, bne, Bool.not_eq_true'] at h
    exact h
  rw [isNaN, isInfinite, hfield]
  exact ⟨rfl, rfl⟩

/-- Bits below those of infinity are, with either sign, the bits of a finite number. -/
theorem Binary.finite_of_lt {bits : ℕ} (h : bits < infinityBits) {negative : Bool} {x : Number}
    (hx : x = ⟨.ofNat (if negative then Number.signBits + bits else bits)⟩) :
  x.bits.toNat = (if negative then Number.signBits else 0) + bits ∧ x.isFinite = true
  := by
  have hinfinity : infinityBits = 9218868437227405312 := rfl
  have hsign : Number.signBits = 9223372036854775808 := rfl
  have htoNat : x.bits.toNat = (if negative then Number.signBits else 0) + bits := by
    rw [hx, UInt64.toNat_ofNat_of_lt']
    · cases negative with
      | true => rfl
      | false => exact (Nat.zero_add _).symm
    · have : UInt64.size = 18446744073709551616 := rfl
      cases negative <;> simp only [Bool.false_eq_true, if_false, if_true] <;> omega
  use htoNat
  have hfield : x.bits.toNat / 4503599627370496 % 2048 ≠ 2047 := by
    rw [htoNat]
    cases negative <;> simp only [Bool.false_eq_true, if_false, if_true] <;> omega
  exact bne_iff_ne.mpr hfield

/-- The sign and the magnitude of a number with the given sign, exponent field and significand.  A
significand of `2 ^ 53` carries into the exponent field. -/
theorem Binary.ofNumber_of_bits {x : Number} {negative : Bool} {field m : ℕ}
    (hbits : x.bits.toNat = (if negative then Number.signBits else 0) + (field * 2 ^ 52 + m))
    (hfield : field < 2045) (hm : 2 ^ 52 ≤ m) (hm' : m ≤ 2 ^ 53) :
  x.isNegative = negative ∧ 0 < (ofNumber x).significand
    ∧ (ofNumber x).value = m * (2 : ℚ) ^ (field - 1074 : ℤ)
  := by
  have hsign : Number.signBits = 9223372036854775808 := rfl
  have hfraction : Nat.pow 2 Number.fractionBits = 4503599627370496 := rfl
  have hfieldOf : x.field = x.bits.toNat / 4503599627370496 % 2048 := rfl
  have hfractionOf : x.fraction = x.bits.toNat % 4503599627370496 := rfl
  -- The sign bit is above the exponent field, whatever it is.
  obtain ⟨sign, hsignbit⟩ : ∃ sign, x.bits.toNat
      = sign * 9223372036854775808 + (field * 4503599627370496 + m) := by
    cases negative with
    | true => exact ⟨1, hbits⟩
    | false =>
      use 0
      rw [hbits]
      rfl
  constructor
  · rw [Number.isNegative, hbits, hsign]
    cases negative with
    | true => exact decide_eq_true (Nat.le_add_right _ _)
    | false =>
      apply decide_eq_false
      simp only [Bool.false_eq_true, if_false]
      omega
  rcases Nat.lt_or_ge m (2 ^ 53) with hlt | hge
  · have hquotient : x.field = field + 1 := by omega
    have hsignificand : 4503599627370496 + x.fraction = m := by omega
    rw [ofNumber, hfraction, hquotient, if_neg (Nat.succ_ne_zero field), hsignificand]
    refine ⟨lt_of_lt_of_le (by norm_num) hm, ?_⟩
    have hexponent : leastExponent + ((field + 1 : ℕ) - 1 : ℤ) = (field - 1074 : ℤ) := by
      rw [leastExponent]
      push_cast
      ring
    rw [value, hexponent]
  · obtain rfl : m = 2 ^ 53 := Nat.le_antisymm hm' hge
    have hquotient : x.field = field + 2 := by omega
    have hremainder : x.fraction = 0 := by omega
    rw [ofNumber, hfraction, hquotient, hremainder, if_neg (Nat.succ_ne_zero _)]
    refine ⟨by norm_num, ?_⟩
    have hexponent : leastExponent + ((field + 2 : ℕ) - 1 : ℤ) = (field - 1074 : ℤ) + 1 := by
      rw [leastExponent]
      push_cast
      ring
    rw [value, hexponent, zpow_add_one₀ (by norm_num)]
    push_cast
    ring

/-! ### Reading a fraction -/

/-- The bits that a fraction is read as are those of a finite number. -/
theorem Decimal.lt_infinityBits_of_bits? {y : Decimal} {bits : ℕ} (h : y.bits? = some bits) :
  bits < Binary.infinityBits
  := by
  rw [bits?] at h
  dsimp only at h
  split at h
  · obtain rfl := Option.some.inj h
    decide
  · split at h
    · cases h
    · split at h
      · next hrange =>
        obtain rfl := Option.some.inj h
        exact hrange.2
      · cases h

/-- A fraction that is written positionally has a nearest number, which is close to it. -/
theorem Decimal.exists_bits? {y : Decimal} (hlower : (10 : ℚ) ^ (-4 : ℤ) ≤ y.value)
    (hupper : y.value < 10 ^ (12 : ℤ)) :
  ∃ field m : ℕ, y.bits? = some (field * 2 ^ 52 + m) ∧ field < 2045 ∧ 2 ^ 52 ≤ m ∧ m ≤ 2 ^ 53
    ∧ |m * (2 : ℚ) ^ (field - 1074 : ℤ) - y.value| ≤ y.value / 2 ^ 53
  := by
  have hdigits : 0 < y.digits := by
    by_contra hzero
    have : y.value = 0 := by
      rw [value, Nat.eq_zero_of_not_pos hzero, Nat.cast_zero, zero_mul]
    rw [this] at hlower
    norm_num at hlower
  obtain ⟨hplace, hplace'⟩ := value_bounds hdigits
  have hplace_lt : y.leadingPlace < 12 :=
    (zpow_lt_zpow_iff_right₀ (by norm_num)).mp (hplace.trans_lt hupper)
  have hplace_gt : -4 < y.leadingPlace + 1 :=
    (zpow_lt_zpow_iff_right₀ (by norm_num)).mp (hlower.trans_lt hplace')
  have hfraction : y.value = (y.digits * Nat.pow 10 y.exponent.toNat : ℕ)
      / ((Nat.pow 10 (-y.exponent).toNat : ℕ) : ℚ) := by
    rw [value, zpow_eq_div (by norm_num)]
    simp only [Nat.pow_eq]
    push_cast
    ring
  have hn : 0 < y.digits * Nat.pow 10 y.exponent.toNat := by
    simp only [Nat.pow_eq]
    positivity
  have hd : 0 < Nat.pow 10 (-y.exponent).toNat := by
    simp only [Nat.pow_eq]
    positivity
  obtain ⟨hlog, hlog'⟩ := Binary.floorLog_bounds hn hd
  have hnearest := Binary.exists_nearestBits hn hd
  rw [← hfraction] at hlog hlog' hnearest
  rw [bits?]
  dsimp only
  rw [if_neg hdigits.ne', if_neg (by omega)]
  generalize Binary.floorLog _ _ = f at hlog hlog' hnearest
  have hf : f < 40 := by
    have : (2 : ℚ) ^ f < 2 ^ (40 : ℤ) := hlog.trans_lt (hupper.trans (by norm_num))
    apply (zpow_lt_zpow_iff_right₀ (by norm_num)).mp this
  have hf' : -14 < f + 1 := by
    have : (2 : ℚ) ^ (-14 : ℤ) < 2 ^ (f + 1) := lt_of_le_of_lt (by norm_num) (hlower.trans_lt hlog')
    apply (zpow_lt_zpow_iff_right₀ (by norm_num)).mp this
  obtain ⟨m, hbits, hm, hm', hnear⟩ := hnearest (by omega)
  have hrange : 0 < (f + 1022).toNat * 2 ^ 52 + m
      ∧ (f + 1022).toNat * 2 ^ 52 + m < Binary.infinityBits := by
    have : Binary.infinityBits = 9218868437227405312 := rfl
    omega
  rw [hbits, if_pos hrange]
  refine ⟨(f + 1022).toNat, m, rfl, by omega, hm, hm', ?_⟩
  have hexponent : ((f + 1022).toNat - 1074 : ℤ) = f - 52 := by omega
  have hpower : (2 : ℚ) ^ f = 2 ^ 52 * 2 ^ (f - 52) := zpow_eq_pow_mul (by norm_num) f 52
  rw [hexponent]
  apply hnear.trans
  rw [hpower] at hlog
  linarith

end Sketch
