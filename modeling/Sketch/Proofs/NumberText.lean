import Sketch.Number.Decimal
import Sketch.Proofs.Grammar

/-!
# Texts of numbers are words

Numbers are written with letters, digits, signs and points only (`figures_numberText`).  So the text
of a number has neither blanks nor brackets nor commas, and stays in one piece wherever it stands
in a command.
-/

namespace Sketch

open Text

/-- The bytes that numbers are written with: letters, digits, signs and the point. -/
def Byte.isFigure (b : UInt8) : Bool := isNameByte b || b == minus || b == plus || b == point

/-- The bytes of numbers are bytes of words. -/
theorem Byte.isWord_of_isFigure {b : UInt8} (h : isFigure b = true) :
  isWord b = true
  := by
  simp only [isFigure, Bool.or_eq_true, beq_iff_eq] at h
  rcases h with ((h | rfl) | rfl) | rfl
  · apply isWord_of_isNameByte h
  · rfl
  · rfl
  · rfl

/-- Digits are bytes of numbers. -/
theorem Byte.isFigure_of_isDigit {b : UInt8} (h : isDigit b = true) :
  isFigure b = true
  := by
  simp [isFigure, isNameByte, h]

/-- All bytes of the text are word bytes. -/
abbrev Text.Wordy (t : Text) : Prop := ∀ b ∈ t, Byte.isWord b = true

/-- All bytes of the text are such that numbers are written with them. -/
abbrev Text.Figures (t : Text) : Prop := ∀ b ∈ t, Byte.isFigure b = true

theorem Text.Figures.of_all {t : Text} (h : t.all Byte.isFigure = true) :
  Figures t
  := List.all_eq_true.mp h

theorem Text.Figures.append {s t : Text} (hs : Figures s) (ht : Figures t) :
  Figures (s ++ t)
  := by
  intro b hb
  rcases List.mem_append.mp hb with hb | hb
  · apply hs b hb
  · apply ht b hb

theorem Text.Figures.replicate {b : UInt8} (hb : Byte.isFigure b = true) (k : Nat) :
  Figures (List.replicate k b)
  := by
  intro c hc
  rw [List.eq_of_mem_replicate hc]
  apply hb

/-- A text of bytes of numbers is one of bytes of words. -/
theorem Text.Figures.wordy {t : Text} (h : Figures t) :
  Wordy t
  := by
  intro b hb
  apply Byte.isWord_of_isFigure (h b hb)

/-- Numerals are made of digits. -/
theorem isDigit_of_mem_numeral {n : Nat} {b : UInt8} (h : b ∈ numeral n) :
  Byte.isDigit b = true
  := by
  obtain ⟨c, hc, rfl⟩ := List.mem_map.mp h
  have hdigit := Nat.isDigit_of_mem_toDigits (by decide) (by decide) hc
  have hnat := toNat_toUInt8_of_isDigit hdigit
  simp only [Char.isDigit, ge_iff_le, Bool.and_eq_true, decide_eq_true_eq] at hdigit
  have hlow : 48 ≤ c.toNat := hdigit.1
  have hhigh : c.toNat ≤ 57 := hdigit.2
  simp only [Byte.isDigit, UInt8.le_iff_toNat_le, hnat, Bool.and_eq_true, decide_eq_true_eq]
  exact ⟨hlow, hhigh⟩

theorem figures_numeral (n : Nat) :
  Figures (numeral n)
  := by
  intro b hb
  apply Byte.isFigure_of_isDigit (isDigit_of_mem_numeral hb)

namespace Decimal

/-- The significant digits are bytes of numbers. -/
theorem figures_significantDigits (x : Decimal) :
  Figures x.significantDigits
  := by
  obtain ⟨e, he, -⟩ := exists_eq_trimEndBy_append (· == Byte.zero) (numeral x.digits)
  intro b hb
  apply figures_numeral x.digits
  rw [he]
  apply List.mem_append_left e hb

/-- Writing digits positionally adds only zeros and a point to them. -/
theorem figures_positional {ds : Text} (hds : Figures ds) (k : Int) :
  Figures (positional ds k)
  := by
  have hzero : Byte.isFigure Byte.zero = true := rfl
  have hpoint : Figures [Byte.point] := Figures.of_all rfl
  cases k with
  | negSucc k =>
    have hstart : Figures (utf8 "0.") := Figures.of_all rfl
    apply (hstart.append (Figures.replicate hzero k)).append hds
  | ofNat k =>
    have hwhole : Figures (ds.take (k + 1) ++ List.replicate (k + 1 - ds.length) Byte.zero) := by
      apply Figures.append _ (Figures.replicate hzero _)
      intro b hb
      apply hds b (List.mem_of_mem_take hb)
    rw [positional]
    split
    · apply hwhole
    · apply (hwhole.append hpoint).append
      intro b hb
      apply hds b (List.mem_of_mem_drop hb)

/-- What is written positionally is not empty, even if there are no significant digits. -/
theorem positional_ne_nil (ds : Text) (k : Int) :
  positional ds k ≠ []
  := by
  cases k with
  | negSucc k =>
    apply List.append_ne_nil_of_left_ne_nil
    apply List.append_ne_nil_of_left_ne_nil
    decide
  | ofNat k =>
    have hwhole : ds.take (k + 1) ++ List.replicate (k + 1 - ds.length) Byte.zero ≠ [] := by
      intro h
      have hlength := congrArg List.length h
      simp only [List.length_append, List.length_take, List.length_replicate,
        List.length_nil] at hlength
      omega
    rw [positional]
    split
    · apply hwhole
    · apply List.append_ne_nil_of_left_ne_nil
      apply List.append_ne_nil_of_left_ne_nil hwhole

/-- A padded numeral is made of bytes of numbers, the padding included. -/
theorem figures_paddedNumeral (n : Nat) :
  Figures (paddedNumeral n)
  := by
  rw [paddedNumeral]
  split
  · have hzero : Figures [Byte.zero] := Figures.of_all rfl
    apply hzero.append (figures_numeral n)
  · apply figures_numeral n

/-- Writing digits with a power of ten adds only a point, a mark, a sign and further digits. -/
theorem figures_scientific {ds : Text} (hds : Figures ds) (k : Int) :
  Figures (scientific ds k)
  := by
  have hmark : Figures (utf8 "e") := Figures.of_all rfl
  have hsign : Figures [if k < 0 then Byte.minus else Byte.plus] := by
    split
    · apply Figures.of_all rfl
    · apply Figures.of_all rfl
  have hpower := (hmark.append hsign).append (figures_paddedNumeral k.natAbs)
  unfold scientific
  dsimp only
  split
  · next d e fraction =>
    have hpoint : Figures [Byte.point] := Figures.of_all rfl
    have hfirst : Figures [d] := List.forall_mem_singleton.mpr (hds d List.mem_cons_self)
    apply Figures.append _ hpower
    apply (hfirst.append hpoint).append
    intro b hb
    apply hds b (List.mem_cons_of_mem d hb)
  · apply hds.append hpower

theorem scientific_ne_nil (ds : Text) (k : Int) :
  scientific ds k ≠ []
  := by
  have hpower : utf8 "e" ++ [if k < 0 then Byte.minus else Byte.plus] ++ paddedNumeral k.natAbs
      ≠ [] := by
    apply List.append_ne_nil_of_left_ne_nil
    apply List.append_ne_nil_of_left_ne_nil
    decide
  unfold scientific
  dsimp only
  split
  · apply List.append_ne_nil_of_right_ne_nil _ hpower
  · apply List.append_ne_nil_of_right_ne_nil _ hpower

/-- Decimals are written with bytes of numbers, in both ways of writing them. -/
theorem figures_text (x : Decimal) :
  Figures x.text
  := by
  rw [text]
  split
  · apply figures_positional (figures_significantDigits _)
  · apply figures_scientific (figures_significantDigits _)

theorem text_ne_nil (x : Decimal) :
  x.text ≠ []
  := by
  rw [text]
  split
  · apply positional_ne_nil
  · apply scientific_ne_nil

end Decimal

/-- Numbers are written with bytes of numbers, infinities and NaNs included. -/
theorem figures_numberText (x : Number) :
  Figures (numberText x)
  := by
  have hsign : Figures (if x.isNegative then [Byte.minus] else []) := by
    split
    · apply Figures.of_all rfl
    · apply Figures.of_all rfl
  rw [numberText]
  split
  · have hnan : Figures (utf8 "nan") := Figures.of_all rfl
    apply hsign.append hnan
  · split
    · have hinf : Figures (utf8 "inf") := Figures.of_all rfl
      apply hsign.append hinf
    · split
      · apply Figures.of_all rfl
      · apply hsign.append (Decimal.figures_text _)

/-- No number has an empty text. -/
theorem numberText_ne_nil (x : Number) :
  numberText x ≠ []
  := by
  rw [numberText]
  split
  · apply List.append_ne_nil_of_right_ne_nil
    decide
  · split
    · apply List.append_ne_nil_of_right_ne_nil
      decide
    · split
      · decide
      · apply List.append_ne_nil_of_right_ne_nil _ (Decimal.text_ne_nil _)

/-- The text of a number is a word. -/
theorem isWord_numberText (x : Number) :
  IsWord (numberText x)
  := ⟨numberText_ne_nil x, (figures_numberText x).wordy⟩

end Sketch
