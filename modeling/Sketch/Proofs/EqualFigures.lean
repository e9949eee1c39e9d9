import Mathlib.Algebra.Group.Int.Even
import Sketch.Proofs.DistinctTexts
import Sketch.Proofs.StableTexts

/-!
# Equal figures

Figures are equal if their texts are.  Coordinates are written with twelve significant digits, so
this does not mean that the figures have equal coordinates: numbers may differ in later digits
(`Figure.equal_with_other_coordinates`).  It means that they are of the same kind, with as many
vertices and coordinates, and that the coordinates are equal when they are rounded to twelve
significant digits (`Figure.equal_iff_rounded`).
-/

namespace Sketch

open Text

/-! ### Rounding to twelve significant digits -/

/-- The value `w` is `v` rounded to twelve significant digits.  It is the multiple of the unit of
the twelfth digit that is nearest to `v`, and of two equally near ones the even one. -/
inductive Rounds (v w : ℚ) : Prop
  | zero : v = 0 → w = 0 → Rounds v w
  | digits (p c : ℤ) : (10 : ℚ) ^ p ≤ |v| → |v| < 10 ^ (p + 1) → w = c * (10 : ℚ) ^ (p - 11) →
    |w - v| ≤ 10 ^ (p - 11) / 2 → (|w - v| = 10 ^ (p - 11) / 2 → Even c) → Rounds v w

/-- Of two multiples of a unit that are nearest to a value, with those halfway between being even,
the second one is not greater. -/
theorem le_of_near_multiples {u v : ℚ} {b c : ℤ} (hu : 0 < u) (hb : |b * u - v| ≤ u / 2)
    (hc : |c * u - v| ≤ u / 2) (hbeven : |b * u - v| = u / 2 → Even b)
    (hceven : |c * u - v| = u / 2 → Even c) :
  c ≤ b
  := by
  by_contra hlt
  have hstep : ((b + 1 : ℤ) : ℚ) * u ≤ c * u := by
    apply mul_le_mul_of_nonneg_right _ hu.le
    exact_mod_cast Int.not_le.mp hlt
  rw [Int.cast_add, Int.cast_one, add_one_mul] at hstep
  have hlower := (abs_le.mp hb).1
  have hupper := (abs_le.mp hc).2
  -- Both are half a unit away, so they are one unit apart and cannot both be even.
  have hbv : b * u - v = -(u / 2) := by linarith
  have hcv : c * u - v = u / 2 := by linarith
  have hnext : (c : ℚ) = (b + 1 : ℤ) := by
    apply mul_right_cancel₀ hu.ne'
    push_cast
    linarith
  rw [hbv, abs_neg, abs_of_pos (half_pos hu)] at hbeven
  rw [hcv, abs_of_pos (half_pos hu), Int.cast_inj.mp hnext, Int.even_add_one] at hceven
  exact hceven rfl (hbeven rfl)

/-- A value is rounded in only one way. -/
theorem Rounds.unique {v w w' : ℚ} (h : Rounds v w) (h' : Rounds v w') :
  w = w'
  := by
  have hne : ∀ {p : ℤ}, (10 : ℚ) ^ p ≤ |v| → v ≠ 0 := by
    rintro p hp rfl
    rw [abs_zero] at hp
    exact absurd hp (not_le.mpr (by positivity))
  cases h with
  | zero hv hw =>
    cases h' with
    | zero _ hw' => rw [hw, hw']
    | digits p c hlower => exact absurd hv (hne hlower)
  | digits p c hlower hupper hw hnear heven =>
    cases h' with
    | zero hv => exact absurd hv (hne hlower)
    | digits q b hlower' hupper' hw' hnear' heven' =>
      have hle := (zpow_lt_zpow_iff_right₀ (by norm_num)).mp (lt_of_le_of_lt hlower hupper')
      have hge := (zpow_lt_zpow_iff_right₀ (by norm_num)).mp (lt_of_le_of_lt hlower' hupper)
      obtain rfl : p = q := by omega
      have hunit : (0 : ℚ) < 10 ^ (p - 11) := by positivity
      rw [hw] at hnear heven ⊢
      rw [hw'] at hnear' heven' ⊢
      rw [le_antisymm (le_of_near_multiples hunit hnear' hnear heven' heven)
        (le_of_near_multiples hunit hnear hnear' heven heven')]

/-- The value with a sign. -/
def signed (negative : Bool) (v : ℚ) : ℚ := if negative then -v else v

/-- Negative values are rounded as positive ones. -/
theorem Rounds.signed {v w : ℚ} (h : Rounds v w) (negative : Bool) :
  Rounds (signed negative v) (signed negative w)
  := by
  cases negative with
  | false => exact h
  | true =>
    change Rounds (-v) (-w)
    cases h with
    | zero hv hw => exact .zero (neg_eq_zero.mpr hv) (neg_eq_zero.mpr hw)
    | digits p c hlower hupper hw hnear heven =>
      have hdistance : |-w - -v| = |w - v| := by
        rw [neg_sub_neg, abs_sub_comm]
      apply Rounds.digits p (-c)
      · rwa [abs_neg]
      · rwa [abs_neg]
      · rw [hw, Int.cast_neg, neg_mul]
      · rwa [hdistance]
      · rw [hdistance, even_neg]
        exact heven

/-- A quotient that lies in the middle between two natural numbers is rounded to an even one. -/
theorem even_roundDiv {n d : ℕ} (hd : 0 < d) (h : |(roundDiv n d : ℚ) - n / d| = 1 / 2) :
  Even (roundDiv n d)
  := by
  have hd' : (d : ℚ) ≠ 0 := Nat.cast_ne_zero.mpr hd.ne'
  have htie : 2 * (d * roundDiv n d) = 2 * n + d ∨ 2 * n = 2 * (d * roundDiv n d) + d := by
    rcases eq_or_eq_neg_of_abs_eq h with h | h
    · left
      field_simp at h
      have hcast : (2 * (d * roundDiv n d) : ℚ) = 2 * n + d := by linarith
      exact_mod_cast hcast
    · right
      field_simp at h
      have hcast : (2 * n : ℚ) = 2 * (d * roundDiv n d) + d := by linarith
      exact_mod_cast hcast
  have hn := Nat.div_add_mod n d
  have hr := Nat.mod_lt n hd
  revert htie
  rw [Nat.even_iff]
  unfold roundDiv
  dsimp only
  split
  · omega
  · rw [Nat.mul_add]
    omega

namespace Decimal

/-- Fractions are rounded to twelve significant digits. -/
theorem rounds_round {x : Decimal} (hx : 0 < x.digits) :
  Rounds x.value (x.round writtenDigits).value
  := by
  obtain ⟨hlower, hupper⟩ := value_bounds hx
  have habs : |x.value| = x.value := abs_of_nonneg (le_trans (by positivity) hlower)
  have hunit : (0 : ℚ) < 10 ^ (x.leadingPlace - 11) := by positivity
  rcases Nat.lt_or_ge writtenDigits (numeral x.digits).length with hlt | hle
  · obtain ⟨excess, hround, hvalue⟩ := round_of_lt_length hlt
    have hpower : 0 < 10 ^ excess := Nat.pow_pos (by norm_num)
    have hdistance : |(x.round writtenDigits).value - x.value|
        = |(roundDiv x.digits (10 ^ excess) : ℚ) - x.digits / (10 ^ excess : ℕ)|
          * 10 ^ (x.leadingPlace - 11) := by
      rw [hround, hvalue, value, ← sub_mul, abs_mul, abs_of_pos hunit, Nat.cast_pow,
        Nat.cast_ofNat]
    apply Rounds.digits x.leadingPlace (roundDiv x.digits (10 ^ excess))
    · rwa [habs]
    · rwa [habs]
    · rw [hround, value, Int.cast_natCast]
    · rw [hdistance]
      have hnear := mul_le_mul_of_nonneg_right (abs_roundDiv_sub_le x.digits hpower) hunit.le
      linarith
    · intro htie
      rw [hdistance] at htie
      rw [Int.even_coe_nat]
      apply even_roundDiv hpower
      apply mul_right_cancel₀ hunit.ne'
      linarith
  · obtain ⟨c, hc⟩ := exists_multiple_of_length_le hle
    rw [round_of_length_le hle]
    apply Rounds.digits x.leadingPlace c
    · rwa [habs]
    · rwa [habs]
    · rw [hc, Int.cast_natCast]
    · rw [sub_self, abs_zero]
      exact (half_pos hunit).le
    · intro htie
      rw [sub_self, abs_zero] at htie
      exact absurd htie (half_pos hunit).ne

end Decimal

/-! ### Texts of numbers -/

/-- The value of a finite number. -/
def Number.value (x : Number) : ℚ := signed x.isNegative (Binary.ofNumber x).value

/-- Finite numbers are written as zero, or as a sign and a positive fraction. -/
inductive Written (t : Text) (v : ℚ) : Prop
  | zero : t = utf8 "0" → v = 0 → Written t v
  | fraction (negative : Bool) (d : Decimal) : 0 < d.digits → t = signText negative ++ d.text →
    v = signed negative d.value → Written t v

/-- A finite number is written as zero or as a sign and a fraction, according to its value. -/
theorem written_numberText {x : Number} (hx : x.isFinite = true) :
  Written (numberText x) x.value
  := by
  obtain ⟨hnan, hinf⟩ := Number.isNaN_and_isInfinite_of_isFinite hx
  rw [numberText_eq, hnan, hinf, if_neg Bool.false_ne_true, if_neg Bool.false_ne_true]
  split
  · next hzero =>
    apply Written.zero rfl
    rw [Number.value, Binary.value, hzero, Nat.cast_zero, zero_mul]
    cases x.isNegative <;> rfl
  · next hzero =>
    apply Written.fraction _ _ (Decimal.digits_ofBinary_pos (Nat.pos_of_ne_zero hzero)) rfl
    rw [Decimal.value_ofBinary, Number.value]

/-- The value that is read from a text. -/
def textValue? (t : Text) : Option ℚ :=
  (decimalValue? (splitMinus t).2).map fun y => signed (splitMinus t).1 y.value

/-- What is read from the text of a number is its value, rounded to twelve digits. -/
theorem Written.exists_textValue? {t : Text} {v : ℚ} (h : Written t v) :
  ∃ w, textValue? t = some w ∧ Rounds v w
  := by
  cases h with
  | zero ht hv =>
    refine ⟨0, ?_, .zero hv rfl⟩
    have hread : textValue? (utf8 "0") = some (Decimal.value ⟨0, 0⟩) := rfl
    rw [ht, hread, Decimal.value, Nat.cast_zero, zero_mul]
  | fraction negative d hd ht hv =>
    obtain ⟨y, hy, hvalue⟩ := Decimal.exists_decimalValue?_text hd
    refine ⟨_, ?_, hv ▸ (Decimal.rounds_round hd).signed negative⟩
    rw [ht, textValue?, splitMinus_signText negative (head?_of_decimalValue? hy), hy,
      Option.map_some, hvalue]

/-- Values with a sign are the same if the signs and the positive values are. -/
theorem signed_inj {m n : Bool} {v w : ℚ} (hv : 0 < v) (hw : 0 < w)
    (h : signed m v = signed n w) :
  m = n ∧ v = w
  := by
  rw [signed, signed] at h
  cases m with
  | false =>
    cases n with
    | false => exact ⟨rfl, h⟩
    | true =>
      simp only [Bool.false_eq_true, if_false, if_true] at h
      linarith
  | true =>
    cases n with
    | false =>
      simp only [Bool.false_eq_true, if_false, if_true] at h
      linarith
    | true => exact ⟨rfl, neg_inj.mp h⟩

theorem signed_ne_zero {v : ℚ} (hv : 0 < v) (negative : Bool) :
  signed negative v ≠ 0
  := by
  cases negative with
  | false => exact hv.ne'
  | true => exact neg_ne_zero.mpr hv.ne'

/-- Values that are rounded to the same one have the same text. -/
theorem Written.text_eq {s t : Text} {u v w : ℚ} (hs : Written s u) (ht : Written t v)
    (hu : Rounds u w) (hv : Rounds v w) :
  s = t
  := by
  -- A fraction is rounded to one with its sign, and not to zero.
  have hfraction : ∀ {negative : Bool} {d : Decimal} {r : ℚ}, 0 < d.digits →
      r = signed negative d.value → Rounds r w →
      w = signed negative (d.round Decimal.writtenDigits).value := by
    rintro negative d r hd rfl hr
    apply hr.unique ((Decimal.rounds_round hd).signed negative)
  have hzero : ∀ {r : ℚ}, r = 0 → Rounds r w → w = 0 := by
    intro r hr hrw
    apply hrw.unique (.zero hr rfl)
  cases hs with
  | zero hs hu' =>
    cases ht with
    | zero ht _ => rw [hs, ht]
    | fraction n e he _ hv' =>
      have hne := signed_ne_zero (Decimal.value_round_pos he) n
      rw [← hfraction he hv' hv] at hne
      exact absurd (hzero hu' hu) hne
  | fraction m d hd hs hu' =>
    have hw := hfraction hd hu' hu
    cases ht with
    | zero _ hv' =>
      have hne := signed_ne_zero (Decimal.value_round_pos hd) m
      rw [← hw] at hne
      exact absurd (hzero hv' hv) hne
    | fraction n e he ht hv' =>
      rw [hfraction he hv' hv] at hw
      obtain ⟨rfl, hvalue⟩ := signed_inj (Decimal.value_round_pos he)
        (Decimal.value_round_pos hd) hw
      rw [hs, ht, Decimal.text_of_value_round_eq he hd hvalue]

/-- The numbers are equal when they are rounded to twelve significant digits. -/
def SameRounded (x y : Number) : Prop := ∃ w, Rounds x.value w ∧ Rounds y.value w

/-- Finite numbers have the same text exactly if they are rounded to the same value. -/
theorem sameText_iff_sameRounded {x y : Number} (hx : x.isFinite = true) (hy : y.isFinite = true) :
  SameText x y ↔ SameRounded x y
  := by
  constructor
  · intro h
    obtain ⟨w, hw, hxw⟩ := (written_numberText hx).exists_textValue?
    obtain ⟨w', hw', hyw⟩ := (written_numberText hy).exists_textValue?
    rw [h, hw'] at hw
    obtain rfl := Option.some.inj hw
    exact ⟨w', hxw, hyw⟩
  · rintro ⟨w, hxw, hyw⟩
    exact (written_numberText hx).text_eq (written_numberText hy) hxw hyw

theorem numberText_of_isZero {x : Number} (h : x.isZero = true) :
  numberText x = utf8 "0"
  := by
  rw [Number.isZero, Bool.and_eq_true, beq_iff_eq, beq_iff_eq] at h
  have hfinite : x.isFinite = true := by
    rw [Number.isFinite, h.1]
    rfl
  obtain ⟨hnan, hinf⟩ := Number.isNaN_and_isInfinite_of_isFinite hfinite
  have hsignificand : (Binary.ofNumber x).significand = 0 := by
    rw [Binary.ofNumber, if_pos h.1, h.2]
  rw [numberText_eq, hnan, hinf, hsignificand]
  rfl

/-- Equal numbers have the same text: the two zeros are written without a sign. -/
theorem sameText_of_beq {x y : Number} (h : (x == y) = true) :
  SameText x y
  := by
  rcases (Number.beq_iff.mp h).2.2 with rfl | ⟨hx, hy⟩
  · rfl
  · rw [SameText, numberText_of_isZero hx, numberText_of_isZero hy]

/-- Whether the number is equal to the one that is read from its text. -/
def isKept (x : Number) : Bool := (readNumber? (numberText x)).any (· == x)

/-- Numbers that are kept when they are written are equal if their texts are the same. -/
theorem beq_of_sameText {x y : Number} (hx : isKept x = true) (hy : isKept y = true)
    (h : SameText x y) :
  (x == y) = true
  := by
  rw [isKept, Option.any_eq_true] at hx hy
  rw [h] at hx
  obtain ⟨z, hz, hzx⟩ := hx
  obtain ⟨z', hz', hzy⟩ := hy
  rw [hz] at hz'
  obtain rfl := Option.some.inj hz'
  exact BEq.trans (BEq.symm hzx) hzy

/-! ### Figures -/

theorem forall₂_imp_of_mem {α : Type} {R S : α → α → Prop} {as bs : List α}
    (h : List.Forall₂ R as bs) (hRS : ∀ a ∈ as, ∀ b ∈ bs, R a b → S a b) :
  List.Forall₂ S as bs
  := by
  induction h with
  | nil => exact .nil
  | @cons a b as bs hab _ ih =>
    apply List.Forall₂.cons (hRS a List.mem_cons_self b List.mem_cons_self hab)
    apply ih
    intro c hc d hd
    apply hRS c (List.mem_cons_of_mem a hc) d (List.mem_cons_of_mem b hd)

namespace Figure

/-- All coordinates of a figure. -/
def coordinates : Figure → List Number
  | point p => p
  | line p q => p ++ q
  | curve ps => ps.flatten

/-- Figures that agree in one way agree in another one that follows for their coordinates. -/
theorem Agree.imp_of_mem {R S : Number → Number → Prop} {f g : Figure} (h : f.Agree R g)
    (hRS : ∀ x ∈ f.coordinates, ∀ y ∈ g.coordinates, R x y → S x y) :
  f.Agree S g
  := by
  cases h with
  | point hp => exact .point (forall₂_imp_of_mem hp hRS)
  | line hp hq =>
    apply Agree.line
    · apply forall₂_imp_of_mem hp
      intro x hx y hy
      apply hRS x (List.mem_append_left _ hx) y (List.mem_append_left _ hy)
    · apply forall₂_imp_of_mem hq
      intro x hx y hy
      apply hRS x (List.mem_append_right _ hx) y (List.mem_append_right _ hy)
  | curve hps =>
    apply Agree.curve
    apply forall₂_imp_of_mem hps
    intro p hp q hq hpq
    apply forall₂_imp_of_mem hpq
    intro x hx y hy
    apply hRS x (List.mem_flatten_of_mem hp hx) y (List.mem_flatten_of_mem hq hy)

/-- Figures are equal exactly if they agree up to the texts of numbers. -/
theorem beq_iff_agree {f g : Figure} :
  (f == g) = true ↔ f.Agree SameText g
  := by
  have htext : (f == g) = true ↔ f.text = g.text := @beq_iff_eq Text _ _ f.text g.text
  rw [htext]
  exact ⟨agree_of_text, Agree.text_eq⟩

/-- The coordinates of the figure are finite. -/
def IsFinite (f : Figure) : Prop := ∀ x ∈ f.coordinates, x.isFinite = true

instance (f : Figure) : Decidable f.IsFinite :=
  inferInstanceAs (Decidable (∀ x ∈ f.coordinates, x.isFinite = true))

/-- Figures with finite coordinates are equal just when they are of the same kind, with as many
vertices and coordinates, and the coordinates are equal when rounded to twelve significant digits.
So figures with equal coordinates are equal.  The converse holds for coordinates that are equal to
what is read from their texts. -/
theorem equal_iff_rounded {f g : Figure} (hf : f.IsFinite) (hg : g.IsFinite) :
  ((f == g) = true ↔ f.Agree SameRounded g)
    ∧ (f.Agree (fun x y => (x == y) = true) g → (f == g) = true)
    ∧ ((∀ x ∈ f.coordinates, isKept x = true) → (∀ y ∈ g.coordinates, isKept y = true) →
      (f == g) = true → f.Agree (fun x y => (x == y) = true) g)
  := by
  rw [beq_iff_agree]
  refine ⟨⟨?_, ?_⟩, ?_, ?_⟩
  · intro h
    apply h.imp_of_mem
    intro x hx y hy
    exact (sameText_iff_sameRounded (hf x hx) (hg y hy)).mp
  · intro h
    apply h.imp_of_mem
    intro x hx y hy
    exact (sameText_iff_sameRounded (hf x hx) (hg y hy)).mpr
  · intro h
    apply h.imp_of_mem
    intro x _ y _
    exact sameText_of_beq
  · intro hkf hkg h
    apply h.imp_of_mem
    intro x hx y hy
    exact beq_of_sameText (hkf x hx) (hkg y hy)

theorem equal_iff_rounded_nearby :
  let f := Figure.curve [[1, -0], []]
  let g := Figure.curve [[⟨0x3ff0000000000001⟩, 0], []]
  f.IsFinite ∧ g.IsFinite ∧ f.Agree SameRounded g
    ∧ (∀ x ∈ f.coordinates, isKept x = true) ∧ f.Agree (fun x y => (x == y) = true) f
  := by
  intro f g
  have hf : f.IsFinite := by decide
  have hg : g.IsFinite := by decide
  have hkept : ∀ x ∈ f.coordinates, isKept x = true := by decide +kernel
  exact ⟨hf, hg, (equal_iff_rounded hf hg).1.mp rfl, hkept,
    (equal_iff_rounded hf hf).2.2 hkept hkept rfl⟩

/-- Figures with finite coordinates that are equal need not have equal coordinates. -/
theorem equal_with_other_coordinates :
  ¬ ∀ f g : Figure, f.IsFinite → g.IsFinite →
    ((f == g) = true ↔ f.Agree (fun x y => (x == y) = true) g)
  := by
  intro h
  have hagree := (h (.point [1]) (.point [⟨0x3ff0000000000001⟩]) (by decide)
    (by decide)).mp rfl
  cases hagree with
  | point hp =>
    cases hp with
    | cons hxy _ => exact absurd hxy (by decide)

end Figure

end Sketch
