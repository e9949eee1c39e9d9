import Mathlib.Algebra.Order.Field.Power
import Mathlib.Algebra.Order.Field.Rat
import Mathlib.Tactic.FieldSimp
import Mathlib.Tactic.Linarith
import Mathlib.Tactic.NormNum
import Mathlib.Tactic.Positivity
import Mathlib.Tactic.Ring
import Sketch.Number.Literal
import Sketch.Proofs.NumberText

/-!
# Decimal fractions and their values

The text of a decimal fraction depends on its value only, and is read as the fraction that it is
rounded to (`Decimal.exists_decimalValue?_text`).

Rounding to twelve digits gives a value that has twelve digits at most (`Decimal.Short`).  Such a
value is what every fraction close to it is rounded to (`Decimal.value_round_of_near`): two
values of twelve digits are further apart than that.
-/

namespace Sketch

open Text

/-! ### Numerals -/

/-- A number is less than the power of ten with as many zeros as the number has digits. -/
theorem lt_pow_length_numeral (n : ℕ) :
  n < 10 ^ (numeral n).length
  := by
  rw [numeral, List.length_map]
  apply (Nat.length_toDigits_le_iff (by decide) Nat.length_toDigits_pos).mp (Nat.le_refl _)

theorem pow_le_of_lt_length_numeral {n k : ℕ} (hn : 0 < n) (hk : k < (numeral n).length) :
  10 ^ k ≤ n
  := by
  rw [numeral, List.length_map] at hk
  by_contra hlt
  rcases Nat.eq_zero_or_pos k with rfl | hpos
  · omega
  · have hlength :=
      (Nat.length_toDigits_le_iff (b := 10) (by decide) hpos).mpr (Nat.lt_of_not_le hlt)
    omega

/-- Multiplying with a power of ten adds zeros to a numeral. -/
theorem numeral_mul_pow {n : ℕ} (hn : 0 < n) (j : ℕ) :
  numeral (n * 10 ^ j) = numeral n ++ List.replicate j Byte.zero
  := by
  induction j with
  | zero => rw [pow_zero, Nat.mul_one, List.replicate_zero, List.append_nil]
  | succ j ih =>
    have hpos : 0 < n * 10 ^ j := by positivity
    have hzero : (Nat.toDigits 10 0).map Char.toUInt8 = [Byte.zero] := rfl
    have hmul : n * 10 ^ (j + 1) = 10 * (n * 10 ^ j) + 0 := by ring
    rw [hmul, numeral, ← Nat.toDigits_append_toDigits (by decide) hpos (by decide), List.map_append,
      hzero, ← numeral, ih, List.append_assoc, List.replicate_succ']

/-- Further digits after a numeral shift its value. -/
theorem numeralValue_append (s t : Text) :
  numeralValue (s ++ t) = numeralValue s * 10 ^ t.length + numeralValue t
  := by
  have from_any : ∀ (t : Text) (n : ℕ),
      t.foldl (fun n b => 10 * n + (b.toNat - Byte.zero.toNat)) n
        = n * 10 ^ t.length + numeralValue t := by
    intro t
    induction t with
    | nil =>
      intro n
      simp [numeralValue]
    | cons b t ih =>
      intro n
      have hcons : numeralValue (b :: t)
          = (b.toNat - Byte.zero.toNat) * 10 ^ t.length + numeralValue t := by
        rw [numeralValue, List.foldl_cons, ih, Nat.mul_zero, Nat.zero_add]
      rw [List.foldl_cons, ih, hcons, List.length_cons]
      ring
  rw [numeralValue, List.foldl_append, from_any, ← numeralValue]

theorem numeralValue_replicate_zero (k : ℕ) :
  numeralValue (List.replicate k Byte.zero) = 0
  := by
  induction k with
  | zero => rfl
  | succ k ih =>
    have hzero : numeralValue [Byte.zero] = 0 := rfl
    rw [List.replicate_succ, ← List.singleton_append, numeralValue_append, ih, hzero, Nat.zero_mul]

namespace Decimal

/-! ### Values -/

/-- The value of a decimal fraction. -/
def value (x : Decimal) : ℚ := x.digits * (10 : ℚ) ^ x.exponent

/-- The length of a numeral, as it determines the leading place. -/
theorem exists_length_numeral (x : Decimal) :
  ∃ ℓ : ℕ, (numeral x.digits).length = ℓ + 1 ∧ x.leadingPlace = ℓ + x.exponent
  := by
  obtain ⟨ℓ, hℓ⟩ := Nat.exists_eq_add_one_of_ne_zero
    (Nat.ne_of_gt (List.length_pos_iff.mpr (numeral_ne_nil x.digits)))
  use ℓ, hℓ
  rw [leadingPlace, hℓ]
  push_cast
  ring

/-- The leading place says between which powers of ten a value is. -/
theorem value_bounds {x : Decimal} (hx : 0 < x.digits) :
  (10 : ℚ) ^ x.leadingPlace ≤ x.value ∧ x.value < 10 ^ (x.leadingPlace + 1)
  := by
  obtain ⟨ℓ, hlength, hplace⟩ := x.exists_length_numeral
  have hlower : (10 : ℚ) ^ ℓ ≤ x.digits := by
    have hlt : ℓ < (numeral x.digits).length := by omega
    exact_mod_cast pow_le_of_lt_length_numeral hx hlt
  have hupper : (x.digits : ℚ) < 10 ^ (ℓ + 1) := by
    have := lt_pow_length_numeral x.digits
    rw [hlength] at this
    exact_mod_cast this
  have hpower : (0 : ℚ) < 10 ^ x.exponent := by positivity
  rw [hplace, value, add_right_comm, zpow_add₀ (by norm_num), zpow_add₀ (by norm_num)]
  constructor
  · apply mul_le_mul_of_nonneg_right _ hpower.le
    exact_mod_cast hlower
  · apply mul_lt_mul_of_pos_right _ hpower
    exact_mod_cast hupper

/-! ### The text depends on the value -/

/-- Decimals of the same value differ by zeros at the end of their digits. -/
theorem digits_of_value_eq {x y : Decimal} (h : x.value = y.value)
    (hle : x.exponent ≤ y.exponent) :
  x.digits = y.digits * 10 ^ (y.exponent - x.exponent).toNat
  := by
  have hshift : (10 : ℚ) ^ y.exponent
      = 10 ^ (y.exponent - x.exponent).toNat * 10 ^ x.exponent := by
    rw [← zpow_natCast, Int.toNat_of_nonneg (by omega), ← zpow_add₀ (by norm_num)]
    congr 1
    omega
  rw [value, value, hshift, ← mul_assoc] at h
  have hcancel := mul_right_cancel₀ (by positivity) h
  exact_mod_cast hcancel

theorem layout_of_digits {x y : Decimal} {j : ℕ} (hy : 0 < y.digits)
    (hdigits : x.digits = y.digits * 10 ^ j) (hexponent : y.exponent = x.exponent + j) :
  x.significantDigits = y.significantDigits ∧ x.leadingPlace = y.leadingPlace
  := by
  have hzeros : ∀ b ∈ (List.replicate j Byte.zero).reverse, (b == Byte.zero) = true := by
    intro b hb
    rw [List.reverse_replicate] at hb
    rw [List.eq_of_mem_replicate hb]
    apply beq_self_eq_true
  constructor
  · rw [significantDigits, significantDigits, hdigits, numeral_mul_pow hy, trimEndBy, trimEndBy,
      List.reverse_append, List.dropWhile_append_of_pos hzeros]
  · rw [leadingPlace, leadingPlace, hdigits, numeral_mul_pow hy, hexponent, List.length_append,
      List.length_replicate]
    push_cast
    ring

/-- Fractions of the same value have the same digits at the same places. -/
theorem layout_of_value_eq {x y : Decimal} (hx : 0 < x.digits) (hy : 0 < y.digits)
    (h : x.value = y.value) :
  x.significantDigits = y.significantDigits ∧ x.leadingPlace = y.leadingPlace
  := by
  rcases le_total x.exponent y.exponent with hle | hle
  · apply layout_of_digits hy (digits_of_value_eq h hle)
    omega
  · have hlayout := layout_of_digits hx (digits_of_value_eq h.symm hle) (by omega)
    exact ⟨hlayout.1.symm, hlayout.2.symm⟩

/-! ### Reading what is written positionally -/

/-- The value in terms of the digits that are written, and of the place of the first one. -/
theorem value_eq_significantDigits (x : Decimal) :
  x.value = numeralValue x.significantDigits
    * (10 : ℚ) ^ (x.leadingPlace + 1 - x.significantDigits.length)
  := by
  obtain ⟨e, he, hzeros⟩ := exists_eq_trimEndBy_append (· == Byte.zero) (numeral x.digits)
  have hreplicate : e = List.replicate e.length Byte.zero := by
    apply List.eq_replicate_of_mem
    intro b hb
    apply eq_of_beq (hzeros b hb)
  rw [← significantDigits] at he
  have hdigits : x.digits = numeralValue x.significantDigits * 10 ^ e.length := by
    conv_lhs => rw [← numeralValue_numeral x.digits, he, numeralValue_append]
    rw [hreplicate, numeralValue_replicate_zero, List.length_replicate, Nat.add_zero]
  have hplace : x.leadingPlace + 1 - x.significantDigits.length = e.length + x.exponent := by
    rw [leadingPlace, he, List.length_append]
    push_cast
    ring
  rw [value, hplace, hdigits, zpow_add₀ (by norm_num), zpow_natCast]
  push_cast
  ring

theorem isDigit_of_mem_significantDigits {x : Decimal} {b : UInt8}
    (hb : b ∈ x.significantDigits) :
  Byte.isDigit b = true
  := by
  obtain ⟨e, he, -⟩ := exists_eq_trimEndBy_append (· == Byte.zero) (numeral x.digits)
  apply isDigit_of_mem_numeral (n := x.digits)
  rw [he]
  apply List.mem_append_left e hb

end Decimal

theorem mark_of_exponentValue? {b : UInt8} {rest : Text} {e : ℤ}
    (h : exponentValue? (b :: rest) = some e) :
  b = 101 ∨ b = 69
  := by
  by_contra hmark
  rw [not_or] at hmark
  cases rest with
  | nil => simp [exponentValue?] at h
  | cons _ _ => simp [exponentValue?, hmark] at h

/-- Digits end before a power of ten. -/
theorem span_digits {digits rest : Text} {e : ℤ} (hdigits : ∀ b ∈ digits, Byte.isDigit b = true)
    (he : exponentValue? rest = some e) :
  (digits ++ rest).takeWhile Byte.isDigit = digits ∧ (digits ++ rest).dropWhile Byte.isDigit = rest
  := by
  rw [List.takeWhile_append_of_pos hdigits, List.dropWhile_append_of_pos hdigits]
  cases rest with
  | nil => exact ⟨List.append_nil digits, rfl⟩
  | cons b rest =>
    have hb : ¬ Byte.isDigit b = true := by
      rcases mark_of_exponentValue? he with rfl | rfl
      · decide
      · decide
    rw [List.takeWhile_cons_of_neg hb, List.dropWhile_cons_of_neg hb]
    exact ⟨List.append_nil digits, rfl⟩

theorem decimalValue?_whole {whole rest : Text} {e : ℤ} (hne : whole ≠ [])
    (hwhole : ∀ b ∈ whole, Byte.isDigit b = true) (he : exponentValue? rest = some e) :
  decimalValue? (whole ++ rest) = some ⟨numeralValue whole, e⟩
  := by
  obtain ⟨htake, hdrop⟩ := span_digits hwhole he
  have hsplit : splitFraction rest = ([], rest) := by
    cases rest with
    | nil => rfl
    | cons b rest => rcases mark_of_exponentValue? he with rfl | rfl <;> rfl
  rw [decimalValue?, htake, hdrop, hsplit]
  simp [he, hne]

theorem decimalValue?_fraction {whole fraction rest : Text} {e : ℤ} (hne : whole ≠ [])
    (hwhole : ∀ b ∈ whole, Byte.isDigit b = true)
    (hfraction : ∀ b ∈ fraction, Byte.isDigit b = true) (he : exponentValue? rest = some e) :
  decimalValue? (whole ++ Byte.point :: (fraction ++ rest))
    = some ⟨numeralValue (whole ++ fraction), e - fraction.length⟩
  := by
  have hpoint : ¬ Byte.isDigit Byte.point = true := by decide
  obtain ⟨htake, hdrop⟩ := span_digits hfraction he
  have hsplit : splitFraction (Byte.point :: (fraction ++ rest)) = (fraction, rest) := by
    rw [splitFraction, htake, hdrop]
    rfl
  rw [decimalValue?, List.takeWhile_append_of_pos hwhole, List.takeWhile_cons_of_neg hpoint,
    List.append_nil, List.dropWhile_append_of_pos hwhole, List.dropWhile_cons_of_neg hpoint, hsplit]
  simp [he, hne]

namespace Decimal

theorem isDigit_of_mem_append {s t : Text} (hs : ∀ b ∈ s, Byte.isDigit b = true)
    (ht : ∀ b ∈ t, Byte.isDigit b = true) :
  ∀ b ∈ s ++ t, Byte.isDigit b = true
  := by
  intro b hb
  rcases List.mem_append.mp hb with hb | hb
  · apply hs b hb
  · apply ht b hb

theorem isDigit_of_mem_zeros (j : ℕ) :
  ∀ b ∈ List.replicate j Byte.zero, Byte.isDigit b = true
  := by
  intro b hb
  rw [List.eq_of_mem_replicate hb]
  decide

/-- Digits behind the point are read as a fraction of the value they stand for. -/
theorem exists_decimalValue?_negSucc {ds : Text} (hds : ∀ b ∈ ds, Byte.isDigit b = true)
    (j : ℕ) :
  ∃ y, decimalValue? (positional ds (.negSucc j)) = some y
    ∧ y.value = numeralValue ds * (10 : ℚ) ^ (.negSucc j + 1 - ds.length : ℤ)
  := by
  have htext : positional ds (.negSucc j)
      = List.replicate 1 Byte.zero ++ Byte.point :: (List.replicate j Byte.zero ++ ds) := rfl
  have hfraction := isDigit_of_mem_append (isDigit_of_mem_zeros j) hds
  rw [htext, ← List.append_nil (List.replicate j Byte.zero ++ ds),
    decimalValue?_fraction (by simp) (isDigit_of_mem_zeros 1) hfraction rfl]
  refine ⟨_, rfl, ?_⟩
  have hvalue : numeralValue (List.replicate 1 Byte.zero ++ (List.replicate j Byte.zero ++ ds))
      = numeralValue ds := by
    rw [← List.append_assoc, List.replicate_append_replicate, numeralValue_append,
      numeralValue_replicate_zero, Nat.zero_mul, Nat.zero_add]
  rw [value, hvalue, List.length_append, List.length_replicate, Int.negSucc_eq]
  congr 2
  push_cast
  ring

/-- Digits from a place before the point on are read as a fraction of the value they stand for. -/
theorem exists_decimalValue?_ofNat {ds : Text} (hds : ∀ b ∈ ds, Byte.isDigit b = true)
    (j : ℕ) :
  ∃ y, decimalValue? (positional ds (.ofNat j)) = some y
    ∧ y.value = numeralValue ds * (10 : ℚ) ^ (.ofNat j + 1 - ds.length : ℤ)
  := by
  have htake : ∀ b ∈ ds.take (j + 1), Byte.isDigit b = true := by
    intro b hb
    apply hds b (List.mem_of_mem_take hb)
  have hwhole := isDigit_of_mem_append htake (isDigit_of_mem_zeros (j + 1 - ds.length))
  have hne : ds.take (j + 1) ++ List.replicate (j + 1 - ds.length) Byte.zero ≠ [] := by
    intro h
    have hlength := congrArg List.length h
    simp only [List.length_append, List.length_take, List.length_replicate,
      List.length_nil] at hlength
    omega
  rw [positional]
  split
  · next hdrop =>
    have hle : ds.length ≤ j + 1 := List.drop_eq_nil_iff.mp hdrop
    rw [← List.append_nil (_ ++ List.replicate _ _), decimalValue?_whole hne hwhole rfl]
    refine ⟨_, rfl, ?_⟩
    have hplaces : (Int.ofNat j + 1 - ds.length) = ((j + 1 - ds.length : ℕ) : ℤ) := by
      simp only [Int.ofNat_eq_natCast]
      omega
    rw [value, List.take_of_length_le hle, numeralValue_append, numeralValue_replicate_zero,
      List.length_replicate, hplaces, zpow_natCast]
    push_cast
    ring
  · next hdrop =>
    have hlt : j + 1 < ds.length := by
      by_contra hle
      exact hdrop (List.drop_eq_nil_iff.mpr (Nat.le_of_not_lt hle))
    have hfraction : ∀ b ∈ ds.drop (j + 1), Byte.isDigit b = true := by
      intro b hb
      apply hds b (List.mem_of_mem_drop hb)
    rw [List.append_assoc, List.singleton_append, ← List.append_nil (ds.drop (j + 1)),
      decimalValue?_fraction hne hwhole hfraction rfl]
    refine ⟨_, rfl, ?_⟩
    have hplaces : 0 - ((ds.drop (j + 1)).length : ℤ) = Int.ofNat j + 1 - ds.length := by
      rw [List.length_drop]
      simp only [Int.ofNat_eq_natCast]
      omega
    rw [value, Nat.sub_eq_zero_of_le hlt.le, List.replicate_zero, List.append_nil,
      List.take_append_drop, hplaces]

/-- Digits that are written positionally are read as a fraction of the value they stand for. -/
theorem exists_decimalValue?_positional {ds : Text} (hds : ∀ b ∈ ds, Byte.isDigit b = true)
    (k : ℤ) :
  ∃ y, decimalValue? (positional ds k) = some y
    ∧ y.value = numeralValue ds * (10 : ℚ) ^ (k + 1 - ds.length)
  := by
  cases k with
  | negSucc j => exact exists_decimalValue?_negSucc hds j
  | ofNat j => exact exists_decimalValue?_ofNat hds j

/-! ### Reading what is written with a power of ten -/

theorem digitsValue?_paddedNumeral (n : ℕ) :
  digitsValue? (paddedNumeral n) = some n
  := by
  have hdigits : (numeral n).all Byte.isDigit = true := by
    rw [List.all_eq_true]
    intro b hb
    apply isDigit_of_mem_numeral hb
  rw [paddedNumeral]
  split
  · have hzero : Byte.isDigit Byte.zero = true := by decide
    have hvalue : numeralValue (Byte.zero :: numeral n) = n := by
      have happend := numeralValue_append (List.replicate 1 Byte.zero) (numeral n)
      rw [numeralValue_replicate_zero, Nat.zero_mul, Nat.zero_add, numeralValue_numeral] at happend
      exact happend
    simp [digitsValue?, hzero, hdigits, hvalue]
  · simp [digitsValue?, numeral_ne_nil, hdigits, numeralValue_numeral]

/-- The power of ten with the exponent `k`, as it is written. -/
def powerText (k : ℤ) : Text :=
  101 :: (if k < 0 then Byte.minus else Byte.plus) :: paddedNumeral k.natAbs

/-- A power of ten is read as the exponent that it was written for. -/
theorem exponentValue?_powerText (k : ℤ) :
  exponentValue? (powerText k) = some k
  := by
  have hvalue := digitsValue?_paddedNumeral k.natAbs
  rw [powerText]
  generalize paddedNumeral k.natAbs = digits at hvalue ⊢
  split
  · next hk =>
    have hread : exponentValue? (101 :: Byte.minus :: digits) = some (-(k.natAbs : ℤ)) := by
      simp only [exponentValue?, hvalue]
      rfl
    rw [hread, Option.some_inj]
    omega
  · next hk =>
    have hread : exponentValue? (101 :: Byte.plus :: digits) = some (k.natAbs : ℤ) := by
      simp only [exponentValue?, hvalue]
      rfl
    rw [hread, Option.some_inj]
    omega

theorem scientific_cons (d : UInt8) (ds : Text) (k : ℤ) :
  scientific (d :: ds) k
    = if ds = [] then [d] ++ powerText k else [d] ++ Byte.point :: (ds ++ powerText k)
  := by
  cases ds with
  | nil => rfl
  | cons _ _ =>
    rw [if_neg (List.cons_ne_nil _ _), scientific, List.append_assoc]
    rfl

/-- Digits that are written with a power of ten are read as a fraction of the value they stand
for. -/
theorem exists_decimalValue?_scientific {ds : Text} (hne : ds ≠ [])
    (hds : ∀ b ∈ ds, Byte.isDigit b = true) (k : ℤ) :
  ∃ y, decimalValue? (scientific ds k) = some y
    ∧ y.value = numeralValue ds * (10 : ℚ) ^ (k + 1 - ds.length)
  := by
  obtain ⟨d, ds, rfl⟩ := List.exists_cons_of_ne_nil hne
  have hd : ∀ b ∈ [d], Byte.isDigit b = true := by
    intro b hb
    apply hds b (List.mem_singleton.mp hb ▸ List.mem_cons_self)
  have he := exponentValue?_powerText k
  rw [scientific_cons]
  split
  · next hnil =>
    subst hnil
    rw [decimalValue?_whole (by simp) hd he]
    refine ⟨_, rfl, ?_⟩
    rw [value, List.length_singleton, Nat.cast_one, add_sub_cancel_right]
  · rw [decimalValue?_fraction (by simp) hd (fun b hb => hds b (List.mem_cons_of_mem d hb)) he]
    refine ⟨_, rfl, ?_⟩
    rw [value, List.length_cons, List.singleton_append]
    congr 2
    push_cast
    ring

end Decimal

/-! ### Rounding to twelve digits -/

/-- A power in terms of the power that is `j` places down. -/
theorem zpow_eq_pow_mul {b : ℚ} (hb : b ≠ 0) (p : ℤ) (j : ℕ) :
  b ^ p = b ^ j * b ^ (p - j)
  := by
  rw [← zpow_natCast, ← zpow_add₀ hb, add_sub_cancel]

/-- A quotient is rounded to the natural number that is less than one half away from it. -/
theorem roundDiv_eq_of_near {n d c : ℕ} (hd : 0 < d) (hlower : 2 * (d * c) < 2 * n + d)
    (hupper : 2 * n < 2 * (d * c) + d) :
  roundDiv n d = c
  := by
  obtain ⟨hle, hge⟩ := two_mul_roundDiv_le n d hd
  have hlt : d * roundDiv n d < d * (c + 1) := by
    rw [Nat.mul_add, Nat.mul_one]
    omega
  have hgt : d * c < d * (roundDiv n d + 1) := by
    rw [Nat.mul_add, Nat.mul_one]
    omega
  have hlt' := Nat.lt_of_mul_lt_mul_left hlt
  have hgt' := Nat.lt_of_mul_lt_mul_left hgt
  omega

/-- Rounding a quotient moves it by at most one half. -/
theorem abs_roundDiv_sub_le (n : ℕ) {d : ℕ} (hd : 0 < d) :
  |(roundDiv n d : ℚ) - n / d| ≤ 1 / 2
  := by
  obtain ⟨hle, hge⟩ := two_mul_roundDiv_le n d hd
  have hd' : (0 : ℚ) < d := Nat.cast_pos.mpr hd
  have hle' : 2 * (d * roundDiv n d : ℚ) ≤ 2 * n + d := by exact_mod_cast hle
  have hge' : 2 * (n : ℚ) ≤ 2 * (d * roundDiv n d) + d := by exact_mod_cast hge
  have hquotient : (n : ℚ) / d * d = n := div_mul_cancel₀ _ hd'.ne'
  rw [abs_le]
  constructor
  · apply le_of_mul_le_mul_right _ hd'
    linarith
  · apply le_of_mul_le_mul_right _ hd'
    linarith

/-- A quotient between two natural numbers is rounded to a number between them. -/
theorem roundDiv_mem {n d a b : ℕ} (hd : 0 < d) (hlower : (a : ℚ) ≤ n / d)
    (hupper : (n / d : ℚ) < b) :
  a ≤ roundDiv n d ∧ roundDiv n d ≤ b
  := by
  obtain ⟨hnear, hnear'⟩ := abs_le.mp (abs_roundDiv_sub_le n hd)
  have hlower' : a < roundDiv n d + 1 := by
    have : (a : ℚ) < roundDiv n d + 1 := by linarith
    exact_mod_cast this
  have hupper' : roundDiv n d < b + 1 := by
    have : (roundDiv n d : ℚ) < b + 1 := by linarith
    exact_mod_cast this
  omega

namespace Decimal

/-- The value has at most twelve digits, the first of which stands at place `p`. -/
structure Short (p : ℤ) (v : ℚ) : Prop where
  lower : (10 : ℚ) ^ p ≤ v
  upper : v < 10 ^ (p + 1)
  multiple : ∃ c : ℕ, v = c * (10 : ℚ) ^ (p - 11)

/-- The unit that the last of twelve digits counts. -/
theorem pow_place (p : ℤ) :
  (10 : ℚ) ^ p = 10 ^ 11 * 10 ^ (p - 11) ∧ (10 : ℚ) ^ (p + 1) = 10 ^ 12 * 10 ^ (p - 11)
  := by
  have hpow : (10 : ℚ) ^ p = 10 ^ 11 * 10 ^ (p - 11) := zpow_eq_pow_mul (by norm_num) p 11
  use hpow
  rw [zpow_add_one₀ (by norm_num), hpow]
  ring

theorem round_of_length_le {x : Decimal} (h : (numeral x.digits).length ≤ writtenDigits) :
  x.round writtenDigits = x
  := by
  have hexcess : (numeral x.digits).length - writtenDigits = 0 := Nat.sub_eq_zero_of_le h
  have hone : Nat.pow 10 0 = 1 := rfl
  rw [round, hexcess, hone, roundDiv_one, Nat.cast_zero, Int.add_zero]

/-- A fraction with more digits is divided by a power of ten and rounded. -/
theorem round_of_lt_length {x : Decimal} (h : writtenDigits < (numeral x.digits).length) :
  ∃ excess : ℕ, x.round writtenDigits = ⟨roundDiv x.digits (10 ^ excess), x.leadingPlace - 11⟩
    ∧ x.value = x.digits / (10 : ℚ) ^ excess * 10 ^ (x.leadingPlace - 11)
  := by
  obtain ⟨ℓ, hlength, hplace⟩ := x.exists_length_numeral
  have hwritten : writtenDigits = 12 := rfl
  obtain ⟨excess, hexcess⟩ : ∃ excess, ℓ = 11 + excess := Nat.exists_eq_add_of_le (by omega)
  have hunit : x.exponent + excess = x.leadingPlace - 11 := by
    rw [hplace, hexcess]
    push_cast
    ring
  use excess
  constructor
  · have hsub : (numeral x.digits).length - writtenDigits = excess := by omega
    rw [round, hsub, hunit]
    rfl
  · rw [value, ← hunit, zpow_add₀ (by norm_num), zpow_natCast]
    field_simp

/-- A fraction with at most twelve digits is a multiple of the unit of its last one. -/
theorem exists_multiple_of_length_le {x : Decimal}
    (h : (numeral x.digits).length ≤ writtenDigits) :
  ∃ c : ℕ, x.value = c * (10 : ℚ) ^ (x.leadingPlace - 11)
  := by
  obtain ⟨ℓ, hlength, hplace⟩ := x.exists_length_numeral
  have hwritten : writtenDigits = 12 := rfl
  obtain ⟨j, hj⟩ : ∃ j, 11 = ℓ + j := Nat.exists_eq_add_of_le (by omega)
  have hunit : x.exponent = j + (x.leadingPlace - 11) := by
    rw [hplace]
    have : (11 : ℤ) = ℓ + j := by exact_mod_cast hj
    rw [this]
    ring
  use x.digits * 10 ^ j
  rw [value, hunit, zpow_add₀ (by norm_num), zpow_natCast]
  push_cast
  ring_nf

/-- A count of units with twelve digits, or the power of ten that comes next, is short. -/
theorem exists_short_of_bounds {m : ℕ} (hlower : 10 ^ 11 ≤ m) (hupper : m ≤ 10 ^ 12) (p : ℤ) :
  ∃ q, Short q (value ⟨m, p - 11⟩)
  := by
  obtain ⟨hpow, hpow'⟩ := pow_place p
  have hunit : (0 : ℚ) < 10 ^ (p - 11) := by positivity
  rcases Nat.lt_or_ge m (10 ^ 12) with hlt | hge
  · use p
    refine ⟨?_, ?_, m, rfl⟩
    · rw [hpow, value]
      apply mul_le_mul_of_nonneg_right _ hunit.le
      exact_mod_cast hlower
    · rw [hpow', value]
      apply mul_lt_mul_of_pos_right _ hunit
      exact_mod_cast hlt
  · -- The power of ten has its first digit one place up.
    obtain rfl : m = 10 ^ 12 := Nat.le_antisymm hupper hge
    have hvalue : value ⟨10 ^ 12, p - 11⟩ = 10 ^ (p + 1) := by
      rw [hpow', value]
      push_cast
      ring
    use p + 1
    rw [hvalue]
    refine ⟨le_refl _, ?_, 10 ^ 11, ?_⟩
    · apply zpow_lt_zpow_right₀ (by norm_num)
      omega
    · rw [(pow_place (p + 1)).1]
      push_cast
      ring

/-- Rounding leaves twelve digits at most. -/
theorem short_round {x : Decimal} (hx : 0 < x.digits) :
  0 < (x.round writtenDigits).digits ∧ ∃ p, Short p (x.round writtenDigits).value
  := by
  obtain ⟨hlower, hupper⟩ := value_bounds hx
  rcases Nat.lt_or_ge writtenDigits (numeral x.digits).length with hlt | hle
  · obtain ⟨excess, hround, hvalue⟩ := round_of_lt_length hlt
    obtain ⟨hpow, hpow'⟩ := pow_place x.leadingPlace
    have hunit : (0 : ℚ) < 10 ^ (x.leadingPlace - 11) := by positivity
    -- The digits are divided so that eleven places are left before the last one.
    rw [hpow, hvalue] at hlower
    rw [hpow', hvalue] at hupper
    obtain ⟨hm, hm'⟩ : 10 ^ 11 ≤ roundDiv x.digits (10 ^ excess)
        ∧ roundDiv x.digits (10 ^ excess) ≤ 10 ^ 12 := by
      apply roundDiv_mem (by positivity)
      · have := le_of_mul_le_mul_right hlower hunit
        exact_mod_cast this
      · have := lt_of_mul_lt_mul_right hupper hunit.le
        exact_mod_cast this
    rw [hround]
    exact ⟨lt_of_lt_of_le (by norm_num) hm, exists_short_of_bounds hm hm' x.leadingPlace⟩
  · rw [round_of_length_le hle]
    exact ⟨hx, x.leadingPlace, hlower, hupper, exists_multiple_of_length_le hle⟩

theorem value_round_pos {x : Decimal} (hx : 0 < x.digits) :
  0 < (x.round writtenDigits).value
  := mul_pos (Nat.cast_pos.mpr (short_round hx).1) (by positivity)

/-- The text of a fraction is read as the fraction that it is rounded to. -/
theorem exists_decimalValue?_text {x : Decimal} (hx : 0 < x.digits) :
  ∃ y, decimalValue? x.text = some y ∧ y.value = (x.round writtenDigits).value
  := by
  have hpos := value_round_pos hx
  have hdigits := @isDigit_of_mem_significantDigits (x.round writtenDigits)
  rw [text]
  rw [value_eq_significantDigits (x.round writtenDigits)] at hpos ⊢
  split
  · exact exists_decimalValue?_positional (fun b hb => hdigits hb) _
  · apply exists_decimalValue?_scientific _ (fun b hb => hdigits hb)
    intro hnil
    -- Without digits the value would be zero.
    rw [hnil, numeralValue, List.foldl_nil, Nat.cast_zero, zero_mul] at hpos
    exact lt_irrefl 0 hpos

theorem abs_sub_lt_half {a c u : ℚ} (hu : 0 < u) (h : |a * u - c * u| < u / 2) :
  |a - c| < 1 / 2
  := by
  rw [← sub_mul, abs_mul, abs_of_pos hu] at h
  apply lt_of_mul_lt_mul_right _ hu.le
  linarith

/-- A decimal that is nearer to a multiple of the last place than half of it is rounded to this
multiple. -/
theorem value_round_of_near_multiple {x : Decimal} {c : ℕ}
    (h : |x.value - c * (10 : ℚ) ^ (x.leadingPlace - 11)| < 10 ^ (x.leadingPlace - 11) / 2) :
  (x.round writtenDigits).value = c * (10 : ℚ) ^ (x.leadingPlace - 11)
  := by
  have hunit : (0 : ℚ) < 10 ^ (x.leadingPlace - 11) := by positivity
  rcases Nat.lt_or_ge writtenDigits (numeral x.digits).length with hlt | hle
  · obtain ⟨excess, hround, hvalue⟩ := round_of_lt_length hlt
    have hpower : (0 : ℚ) < 10 ^ excess := by positivity
    rw [hvalue] at h
    obtain ⟨hnear, hnear'⟩ := abs_lt.mp (abs_sub_lt_half hunit h)
    have hlower : 2 * (10 ^ excess * c) < 2 * x.digits + 10 ^ excess := by
      have hcast : (2 * (10 ^ excess * c) : ℚ) < 2 * x.digits + 10 ^ excess := by
        field_simp at hnear
        linarith
      exact_mod_cast hcast
    have hupper : 2 * x.digits < 2 * (10 ^ excess * c) + 10 ^ excess := by
      have hcast : (2 * x.digits : ℚ) < 2 * (10 ^ excess * c) + 10 ^ excess := by
        field_simp at hnear'
        linarith
      exact_mod_cast hcast
    rw [hround, value, roundDiv_eq_of_near (by positivity) hlower hupper]
  · obtain ⟨m, hm⟩ := exists_multiple_of_length_le hle
    rw [round_of_length_le hle]
    rw [hm] at h
    obtain ⟨hnear, hnear'⟩ := abs_lt.mp (abs_sub_lt_half hunit h)
    have hlower : c < m + 1 := by
      have : (c : ℚ) < m + 1 := by linarith
      exact_mod_cast this
    have hupper : m < c + 1 := by
      have : (m : ℚ) < c + 1 := by linarith
      exact_mod_cast this
    obtain rfl : c = m := by omega
    exact hm

/-- A value with twelve digits at most is what every fraction very close to it is rounded to. -/
theorem value_round_of_near {x : Decimal} (hx : 0 < x.digits) {p : ℤ} {v : ℚ} (hv : Short p v)
    (hnear : |x.value - v| ≤ v / 2 ^ 53) :
  (x.round writtenDigits).value = v
  := by
  obtain ⟨hlower, hupper⟩ := value_bounds hx
  obtain ⟨c, hc⟩ := hv.multiple
  obtain ⟨hnear, hnear'⟩ := abs_le.mp hnear
  -- The first digit of the fraction does not stand at a higher place: the next power of ten is at
  -- least one unit of the last digit away from `v`.
  have hplace : x.leadingPlace ≤ p := by
    by_contra hgt
    have hunit : (0 : ℚ) < 10 ^ (p - 11) := by positivity
    have hpower : (10 : ℚ) ^ (p + 1) ≤ 10 ^ x.leadingPlace := by
      apply zpow_le_zpow_right₀ (by norm_num)
      omega
    have hvupper := hv.upper
    rw [(pow_place p).2] at hpower hvupper
    have hcount : c < 10 ^ 12 := by
      rw [hc] at hvupper
      exact_mod_cast lt_of_mul_lt_mul_right hvupper hunit.le
    have hcount' : (c : ℚ) + 1 ≤ 10 ^ 12 := by exact_mod_cast hcount
    have hgap : v + 10 ^ (p - 11) ≤ 10 ^ 12 * 10 ^ (p - 11) := by
      rw [hc, ← add_one_mul]
      apply mul_le_mul_of_nonneg_right hcount' hunit.le
    linarith
  -- So `v` is a multiple of the unit that the fraction is rounded to.
  have hmultiple : v = (c * 10 ^ (p - x.leadingPlace).toNat : ℕ)
      * (10 : ℚ) ^ (x.leadingPlace - 11) := by
    have hsplit : p - 11 = (p - x.leadingPlace).toNat + (x.leadingPlace - 11) := by omega
    rw [hc, hsplit, zpow_add₀ (by norm_num), zpow_natCast]
    push_cast
    ring
  rw [hmultiple]
  apply value_round_of_near_multiple
  rw [← hmultiple, abs_lt]
  rw [(pow_place x.leadingPlace).2] at hupper
  have hunit : (0 : ℚ) < 10 ^ (x.leadingPlace - 11) := by positivity
  constructor
  · linarith
  · linarith

end Decimal

end Sketch
