import Sketch.Proofs.ErrorSpans
import Sketch.Proofs.NumberText
import Sketch.Proofs.ScriptRuns

/-!
# Excerpts underline what an error concerns

An error of a command is shown with the line that the command stands in, and carets in the row below
it.  The two rows have margins of the same width, so the carets stand below the bytes of the line
that the span of the error says (`Line.excerpt_eq`, `getElem?_append_replicate`).  These bytes
belong to the line, apart from the one place after its last byte where a text that ends too early is
rejected (`Registry.span_of_error`).
-/

namespace Sketch

/-! ### Rows of an excerpt -/

/-- What stands at the end of a list, and nowhere before, stands exactly at the last places. -/
theorem getElem?_append_replicate {α : Type} {x : α} {before : List α} (h : x ∉ before)
    (n i : Nat) :
  (before ++ List.replicate n x)[i]? = some x ↔ before.length ≤ i ∧ i < before.length + n
  := by
  by_cases hi : i < before.length
  · rw [List.getElem?_append_left hi]
    constructor
    · intro hx
      apply absurd (List.mem_of_getElem? hx) h
    · omega
  · have hi' : before.length ≤ i := Nat.le_of_not_lt hi
    rw [List.getElem?_append_right hi', List.getElem?_replicate]
    simp only [Option.ite_none_right_eq_some, and_true]
    omega

namespace Line

/-- What stands before the text of a line of the given number in an excerpt. -/
def gutter (number : Nat) : Text := utf8 " " ++ numeral number ++ utf8 " | "

/-- What stands below the gutter. -/
def blankGutter (number : Nat) : Text :=
  utf8 " " ++ List.replicate (numeral number).length Byte.space ++ utf8 " | "

theorem length_blankGutter (number : Nat) :
  (blankGutter number).length = (gutter number).length
  := by
  simp only [blankGutter, gutter, List.length_append, List.length_replicate]

theorem lineFeed_notMem_gutter (number : Nat) :
  Byte.lineFeed ∉ gutter number
  := by
  have hnumeral : Byte.lineFeed ∉ numeral number := by
    intro h
    apply absurd (isDigit_of_mem_numeral h) (by decide)
  rw [gutter, List.mem_append, List.mem_append, not_or, not_or]
  exact ⟨⟨by decide, hnumeral⟩, by decide⟩

/-- There are only spaces and a bar below the gutter. -/
theorem notMem_blankGutter {b : UInt8} (h : b ∉ utf8 " | ") (number : Nat) :
  b ∉ blankGutter number
  := by
  have hspace : b ≠ Byte.space := by
    rintro rfl
    apply h (by decide)
  rw [blankGutter, List.mem_append, List.mem_append, not_or, not_or]
  refine ⟨⟨?_, ?_⟩, h⟩
  · apply mt List.mem_singleton.mp hspace
  · apply mt List.eq_of_mem_replicate hspace

/-- The excerpt of a line at a span that starts in the line or after its last byte. -/
theorem excerpt_eq (line : Line) {span : Span} (hplaced : span.isPlaced = true)
    (hstart : span.start.toNat ≤ line.text.length)
    (hlength : span.start.toNat < span.stop.toNat) :
  line.excerpt span
    = line.source ++ utf8 ":" ++ numeral line.number ++ utf8 ":" ++ numeral (span.start.toNat + 1)
      ++ utf8 "\n" ++ (gutter line.number ++ line.text)
      ++ utf8 "\n" ++ (blankGutter line.number ++ List.replicate span.start.toNat Byte.space
        ++ List.replicate (span.stop.toNat - span.start.toNat) Byte.caret)
  := by
  have hcolumn : line.column span = span.start.toNat + 1 := by
    rw [column, if_pos hplaced, Nat.min_eq_left hstart]
  have hcarets : max span.length 1 = span.stop.toNat - span.start.toNat := by
    rw [Span.length, if_pos hplaced]
    omega
  have hbreak : utf8 "\n " = utf8 "\n" ++ utf8 " " := rfl
  simp only [excerpt, hcolumn, if_pos hplaced, hcarets, Nat.add_sub_cancel, row, hbreak, gutter,
    blankGutter, List.append_assoc]

end Line

/-! ### Lines of a source -/

namespace Source

variable (source : Source)

theorem length_lineText_le (k : Nat) :
  (source.lineText k).length ≤ source.contents.length
  := by
  cases k with
  | zero => apply Nat.zero_le
  | succ i =>
    rw [lineText]
    split
    · apply Nat.zero_le
    · rw [trimEndBy, List.length_reverse, Text.between]
      apply (List.length_dropWhile_le _ _).trans
      rw [List.length_reverse, List.length_take, List.length_drop]
      omega

/-- There are no line feeds in a line. -/
theorem lineFeed_notMem_lineText (k : Nat) :
  Byte.lineFeed ∉ source.lineText k
  := by
  rcases Nat.lt_or_ge source.lineCount k with hk | hk
  · rw [source.lineText_of_lt hk]
    apply List.not_mem_nil
  · cases k with
    | zero => apply List.not_mem_nil
    | succ i =>
      rw [lineCount_eq] at hk
      rw [source.lineText_succ hk]
      apply (isCut_cutLines source.contents).lineFeed_notMem (List.getElem_mem hk)

theorem line_mem_lines {k : Nat} (hpos : 1 ≤ k) (hk : k ≤ source.lineCount) :
  source.line k ∈ source.lines
  := by
  obtain ⟨i, rfl⟩ := Nat.exists_eq_add_of_le' hpos
  apply List.mem_map.mpr ⟨i, List.mem_range.mpr hk, rfl⟩

end Source

/-! ### Spans of errors -/

theorem Span.isPlaced_of_lt {s : Span} (h : s.start.toNat < UInt32.size - 1) :
  s.isPlaced = true
  := by
  rw [isPlaced, bne_iff_ne]
  intro hnowhere
  rw [hnowhere] at h
  apply absurd h (by decide)

namespace Registry

open Sketch.Tree

/-- The span of an error lies in the command, or is the place after the last byte of a command that
cannot be read. -/
theorem span_of_error {command : Text} (hlength : command.length < UInt32.size - 1)
    {e : CommandError} (h : Registry.builtin.outcome command = .error e) :
  e.span.isPlaced = true ∧ e.span.start.toNat < e.span.stop.toNat
    ∧ (e.span.stop.toNat ≤ command.length
      ∨ (∃ reason, e = .unreadable reason) ∧ e.span.start.toNat = command.length
        ∧ e.span.stop.toNat = command.length + 1)
  := by
  have hresult : (Registry.builtin.execute command).result [] = .error e := h
  have hread := readsWithin_parse command 0
  rw [Nat.zero_add] at hread
  rcases hparse : Tree.parse command 0 with reason | t
  · rw [hparse] at hread
    rw [result_execute, result_read, hparse] at hresult
    obtain rfl := Except.error.inj hresult
    obtain ⟨hposition, hstart, hstop⟩ := hread.span_within hlength
    change reason.span.isPlaced = true ∧ reason.span.start.toNat < reason.span.stop.toNat ∧ _
    have hplaced : reason.span.isPlaced = true := by
      apply Span.isPlaced_of_lt
      omega
    refine ⟨hplaced, by omega, ?_⟩
    rcases Nat.lt_or_eq_of_le hposition with hbefore | hend
    · left
      change reason.span.stop.toNat ≤ command.length
      omega
    · right
      exact ⟨⟨reason, rfl⟩, hstart.trans hend, hstop.trans (congrArg (· + 1) hend)⟩
  · rw [hparse] at hread
    have hsymbols : SymbolsIn (fun s => s.isPlaced = true ∧ s.start.toNat < s.stop.toNat
        ∧ s.stop.toNat ≤ command.length) t := by
      intro m hm _
      obtain ⟨hplaced, -, hbounds⟩ := (hread.nodes m hm).span_within hlength
      exact ⟨hplaced, hbounds⟩
    have hends := ends_execute hparse hsymbols []
    rw [hresult] at hends
    obtain ⟨-, hplaced, hlt, hle⟩ := hends
    exact ⟨hplaced, hlt, .inl hle⟩

end Registry

/-! ### Errors in scripts -/

namespace Script

/-- A run that keeps going reports the failure of each command. -/
theorem exists_err_eq_append {options : Options} (hoptions : options.keepGoing = true)
    {source : Source} {command : Line} (hcommand : command ∈ commandLines source.lines)
    {e : CommandError} (h : Registry.builtin.outcome command.text = .error e) :
  ∃ before after, (runFile options source).2.err = before ++ errorLines command e ++ after
  := by
  obtain ⟨before, after, hsplit⟩ := List.append_of_mem hcommand
  have hcomplaint : complaint command = errorLines command e := by rw [complaint, h]
  use before.flatMap complaint, after.flatMap complaint
  rw [runFile_eq, attempted, if_pos hoptions, outputs, hsplit, List.flatMap_append,
    List.flatMap_cons, hcomplaint, List.append_assoc]

/-- If the command in a line of a script fails, the report of a run that keeps going has an excerpt
of the line: the name of the script, the number of the line and the column at which the span of the
error starts, the line itself, and a row with carets exactly below the bytes of the span.  These
bytes belong to the line, or the line cannot be read and there is one caret just after it. -/
theorem excerpt_underlines_error {source : Source}
    (hlength : source.contents.length < UInt32.size - 1) {k : Nat} (hpos : 1 ≤ k)
    (hk : k ≤ source.lineCount) (hcommand : isSkipped (source.lineText k) = false)
    {e : CommandError} (h : Registry.builtin.outcome (source.lineText k) = .error e) :
  let t := source.lineText k
  let a := e.span.start.toNat
  let b := e.span.stop.toNat
  let gutter := utf8 " " ++ numeral k ++ utf8 " | "
  let blank := utf8 " " ++ List.replicate (numeral k).length Byte.space ++ utf8 " | "
  ∃ shown marked : Text,
    (source.line k).excerpt e.span
      = source.name ++ utf8 ":" ++ numeral k ++ utf8 ":" ++ numeral (a + 1)
        ++ utf8 "\n" ++ shown ++ utf8 "\n" ++ marked
    ∧ shown = gutter ++ t
    ∧ marked = blank ++ List.replicate a Byte.space ++ List.replicate (b - a) Byte.caret
    ∧ blank.length = gutter.length
    ∧ (∀ i, marked[i]? = some Byte.caret ↔ gutter.length + a ≤ i ∧ i < gutter.length + b)
    ∧ Byte.lineFeed ∉ shown ∧ Byte.lineFeed ∉ marked
    ∧ a < b
    ∧ (b ≤ t.length ∨ (∃ reason, e = .unreadable reason) ∧ a = t.length ∧ b = t.length + 1)
    ∧ ∀ options : Options, options.keepGoing = true →
      ∃ before after, (runFile options source).2.err
        = before ++ errorLines (source.line k) e ++ after
  := by
  intro t a b gutter blank
  have htext : t.length < UInt32.size - 1 :=
    Nat.lt_of_le_of_lt (source.length_lineText_le k) hlength
  obtain ⟨hplaced, hlt, hbounds⟩ := Registry.span_of_error htext h
  have hstart : a ≤ t.length := by omega
  have hblank : blank.length = gutter.length := Line.length_blankGutter k
  have hmem : source.line k ∈ commandLines source.lines := by
    apply List.mem_filter.mpr ⟨source.line_mem_lines hpos hk, _⟩
    rw [Bool.not_eq_true', ← hcommand]
    rfl
  refine ⟨gutter ++ t, blank ++ List.replicate a Byte.space ++ List.replicate (b - a) Byte.caret,
    (source.line k).excerpt_eq hplaced hstart hlt, rfl, rfl, hblank, ?_, ?_, ?_, hlt, hbounds, ?_⟩
  · intro i
    have hcaret : Byte.caret ∉ blank ++ List.replicate a Byte.space := by
      rw [List.mem_append, not_or]
      exact ⟨Line.notMem_blankGutter (by decide) k, mt List.eq_of_mem_replicate (by decide)⟩
    rw [getElem?_append_replicate hcaret, List.length_append, List.length_replicate, hblank]
    omega
  · rw [List.mem_append, not_or]
    exact ⟨Line.lineFeed_notMem_gutter k, source.lineFeed_notMem_lineText k⟩
  · rw [List.mem_append, List.mem_append, not_or, not_or]
    exact ⟨⟨Line.notMem_blankGutter (by decide) k, mt List.eq_of_mem_replicate (by decide)⟩,
      mt List.eq_of_mem_replicate (by decide)⟩
  · intro options hoptions
    apply exists_err_eq_append hoptions hmem h

/-- In the second line of a script a number is divided by zero, and the quotient is underlined. -/
theorem excerpt_underlines_error_quotient :
  let source : Source := ⟨utf8 "plane", utf8 "# A point\r\npoint(div(1, 0), 2)\r\n"⟩
  ∃ e : CommandError, Registry.builtin.outcome (source.lineText 2) = .error e
    ∧ e.span = ⟨6, 15⟩
    ∧ (source.line 2).excerpt e.span
      = utf8 "plane:2:7\n 2 | point(div(1, 0), 2)\n   |       ^^^^^^^^^"
    ∧ e.span.stop.toNat ≤ (source.lineText 2).length
  := by
  intro source
  have hlength : source.contents.length < UInt32.size - 1 := by decide
  have hcommand : isSkipped (source.lineText 2) = false := by decide +kernel
  have htext : source.lineText 2 = utf8 "point(div(1, 0), 2)" := by decide +kernel
  have herror : Registry.builtin.outcome (utf8 "point(div(1, 0), 2)")
      = .error (.evaluation [⟨utf8 "call", utf8 "div"⟩, ⟨utf8 "call", utf8 "point"⟩]
        (.fault .divisionByZero) ⟨6, 15⟩) := rfl
  rw [← htext] at herror
  obtain ⟨shown, marked, hexcerpt, hshown, hmarked, -, -, -, -, -, hbounds, -⟩ :=
    excerpt_underlines_error hlength (by decide) (by decide +kernel) hcommand herror
  refine ⟨_, herror, rfl, ?_, ?_⟩
  · rw [hexcerpt, hshown, hmarked, htext]
    rfl
  · rcases hbounds with hwithin | ⟨⟨reason, hreason⟩, -⟩
    · apply hwithin
    · cases hreason

end Script

end Sketch
