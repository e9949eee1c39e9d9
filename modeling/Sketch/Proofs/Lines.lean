import Sketch.Proofs.LineSplitting
import Sketch.Script.Run

/-!
# Lines of scripts and lines of standard input

A script is kept whole: its lines are the pieces of its text without the line feeds and carriage
returns at their ends.  Standard input is read up to each line feed, and what is read is the text
of a source of its own, of which the first line is taken.  Both ways give the same texts
(`Source.map_text_lines_eq_inputLines`, `Source.lineText_one`), and what is removed at the end of
a line does not decide whether the line is skipped (`Script.isSkipped_trimEndBy`).
-/

namespace Sketch

/-! ### Trimming -/

section Trimming

variable {α : Type} {p q : α → Bool}

theorem trimBy_append {ℓ e : List α} (he : ∀ x ∈ e, p x = true) :
  trimBy p (ℓ ++ e) = trimBy p ℓ
  := by
  rw [trimBy, trimBy, List.dropWhile_append]
  split
  · next hempty =>
    rw [List.isEmpty_iff.mp hempty, ← List.append_nil e, List.dropWhile_append_of_pos he]
    rfl
  · apply trimEndBy_append he

/-- What satisfies `q` may be removed from the end before what satisfies `p` is removed from both
ends. -/
theorem trimBy_trimEndBy (h : ∀ x, q x = true → p x = true) (ℓ : List α) :
  trimBy p (trimEndBy q ℓ) = trimBy p ℓ
  := by
  obtain ⟨e, he, hq⟩ := exists_eq_trimEndBy_append q ℓ
  have hp : ∀ x ∈ e, p x = true := fun x hx => h x (hq x hx)
  calc trimBy p (trimEndBy q ℓ)
      = trimBy p (trimEndBy q ℓ ++ e) := (trimBy_append hp).symm
    _ = trimBy p ℓ := by rw [← he]

end Trimming

theorem Byte.isBlank_of_isLineEnd (b : UInt8) (h : isLineEnd b = true) :
  isBlank b = true
  := by
  rw [isLineEnd, Bool.or_eq_true, beq_iff_eq, beq_iff_eq] at h
  rcases h with rfl | rfl
  · rfl
  · rfl

/-- Whether a line is skipped does not depend on how it ends. -/
theorem Script.isSkipped_trimEndBy (text : Text) :
  isSkipped (trimEndBy Byte.isLineEnd text) = isSkipped text
  := by
  rw [isSkipped, isSkipped, Text.trim, Text.trim, trimBy_trimEndBy Byte.isBlank_of_isLineEnd]

/-! ### Lines that are read -/

namespace Script

theorem lineFeed_notMem_cons {b : UInt8} {read : Text} (hb : ¬(b == Byte.lineFeed) = true)
    (hread : Byte.lineFeed ∉ read) :
  Byte.lineFeed ∉ b :: read
  := by
  rw [List.mem_cons, not_or]
  constructor
  · rintro rfl
    apply hb rfl
  · apply hread

/-- No line that is read has a line feed in it. -/
theorem lineFeed_notMem_of_mem_linesFrom {read input text : Text} (hread : Byte.lineFeed ∉ read)
    (h : text ∈ linesFrom read input) :
  Byte.lineFeed ∉ text
  := by
  induction input generalizing read with
  | nil =>
    rw [linesFrom] at h
    split at h
    · cases h
    · rw [List.mem_singleton.mp h]
      apply mt List.mem_reverse.mp hread
  | cons b input ih =>
    rw [linesFrom] at h
    split at h
    · rcases List.mem_cons.mp h with rfl | h
      · apply mt List.mem_reverse.mp hread
      · apply ih List.not_mem_nil h
    · next hb => apply ih (lineFeed_notMem_cons hb hread) h

/-- Lines of the input have no line feed in them. -/
theorem lineFeed_notMem_of_mem_inputLines {input text : Text} (h : text ∈ inputLines input) :
  Byte.lineFeed ∉ text
  := lineFeed_notMem_of_mem_linesFrom List.not_mem_nil h

/-- The pieces of a text are the lines that are read from it, apart from the ends of the lines. -/
theorem map_trimEndBy_cutLines {read : Text} (hread : Byte.lineFeed ∉ read) (input : Text) :
  (cutLines (read.reverse ++ input)).map (trimEndBy Byte.isLineEnd)
    = (linesFrom read input).map (trimEndBy Byte.isLineEnd)
  := by
  induction input generalizing read with
  | nil =>
    rw [linesFrom, List.append_nil]
    split
    · next hempty =>
      rw [List.isEmpty_iff.mp hempty]
      rfl
    · next hne =>
      rw [cutLines_of_notMem _ (mt List.mem_reverse.mp hread)]
      intro hnil
      apply hne (List.isEmpty_iff.mpr (List.reverse_eq_nil_iff.mp hnil))
  | cons b input ih =>
    rw [linesFrom]
    split
    · next hb =>
      have hend : ∀ c ∈ [Byte.lineFeed], Byte.isLineEnd c = true :=
        List.forall_mem_singleton.mpr rfl
      have hrest := ih List.not_mem_nil
      rw [List.reverse_nil, List.nil_append] at hrest
      rw [beq_iff_eq.mp hb, cutLines_append_lineFeed (mt List.mem_reverse.mp hread),
        List.map_cons, List.map_cons, trimEndBy_append hend, hrest]
    · next hb =>
      rw [← ih (lineFeed_notMem_cons hb hread), List.reverse_cons, List.append_assoc]
      rfl

end Script

namespace Source

/-- The lines of a script are the lines of standard input, without carriage returns at the end. -/
theorem map_text_lines_eq_inputLines (source : Source) :
  source.lines.map Line.text
    = (Script.inputLines source.contents).map (trimEndBy Byte.isLineEnd)
  := by
  rw [map_text_lines]
  apply Script.map_trimEndBy_cutLines List.not_mem_nil source.contents

/-- The first line of a source whose text has no line feeds is that text, without carriage returns
at the end. -/
theorem lineText_one {source : Source} (h : Byte.lineFeed ∉ source.contents) :
  source.lineText 1 = trimEndBy Byte.isLineEnd source.contents
  := by
  by_cases hempty : source.contents = []
  · simp only [lineText, hempty, lineStarts, startsAfter]
    rfl
  · have hcut : cutLines source.contents = [] ++ [source.contents] := cutLines_of_notMem hempty h
    apply source.lineText_append hcut

end Source

end Sketch
