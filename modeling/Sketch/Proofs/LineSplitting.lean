import Sketch.Source.Basic

/-!
# Lines are the pieces between line feeds

The lines of a source are found by a table of the positions at which they start.  `cutLines` cuts
a text after each line feed, without looking at positions, and gives the only pieces that a text can
be cut into in this way (`isCut_iff`).  The positions in the table are those at which the pieces
start (`lineStarts_eq`), so the lines are the pieces without the line feeds and carriage returns at
their ends (`Source.lineText_succ`), and there are as many lines as pieces (`Source.lineCount_eq`).
-/

namespace Sketch

/-! ### Pieces of a text -/

/-- A text, cut after each line feed.  The last piece is not empty. -/
def cutLines : Text → List Text
  | [] => []
  | b :: rest =>
    if b == Byte.lineFeed then [b] :: cutLines rest
    else
      match cutLines rest with
      | [] => [[b]]
      | line :: lines => (b :: line) :: lines

theorem cutLines_cons_of_ne {b : UInt8} (h : Byte.lineFeed ≠ b) (rest : Text) :
  cutLines (b :: rest)
    = match cutLines rest with
      | [] => [[b]]
      | line :: lines => (b :: line) :: lines
  := by
  have hb : (b == Byte.lineFeed) = false := beq_eq_false_iff_ne.mpr (Ne.symm h)
  rw [cutLines, hb]
  rfl

/-- A text without line feeds is a single piece. -/
theorem cutLines_of_notMem {t : Text} (ht : t ≠ []) (h : Byte.lineFeed ∉ t) :
  cutLines t = [t]
  := by
  induction t with
  | nil => apply absurd rfl ht
  | cons b rest ih =>
    obtain ⟨hb, hrest⟩ := not_or.mp (mt List.mem_cons.mpr h)
    rw [cutLines_cons_of_ne hb]
    cases rest with
    | nil => rfl
    | cons c rest => rw [ih (List.cons_ne_nil c rest) hrest]

/-- The first piece of a text ends after its first line feed. -/
theorem cutLines_append_lineFeed {t : Text} (h : Byte.lineFeed ∉ t) (rest : Text) :
  cutLines (t ++ Byte.lineFeed :: rest) = (t ++ [Byte.lineFeed]) :: cutLines rest
  := by
  induction t with
  | nil => rfl
  | cons b t ih =>
    obtain ⟨hb, ht⟩ := not_or.mp (mt List.mem_cons.mpr h)
    rw [List.cons_append, cutLines_cons_of_ne hb, ih ht, List.cons_append]

/-- The given pieces are what a text is cut into, if it is cut after each of its line feeds and only
there, and if there is no empty piece at the end. -/
inductive IsCut : Text → List Text → Prop
  /-- There are no pieces of an empty text. -/
  | nil : IsCut [] []
  /-- A text without line feeds is not cut. -/
  | last {t : Text} (ht : t ≠ []) (h : Byte.lineFeed ∉ t) : IsCut t [t]
  /-- The first piece goes up to the first line feed. -/
  | line {t rest : Text} {pieces : List Text} (h : Byte.lineFeed ∉ t) (hrest : IsCut rest pieces) :
    IsCut (t ++ Byte.lineFeed :: rest) ((t ++ [Byte.lineFeed]) :: pieces)

theorem isCut_cutLines (t : Text) :
  IsCut t (cutLines t)
  := by
  induction t with
  | nil => exact .nil
  | cons b rest ih =>
    by_cases hb : Byte.lineFeed = b
    · rw [← hb]
      exact .line List.not_mem_nil ih
    · -- the byte belongs to the first piece, whatever this is
      have hcons : ∀ {t : Text}, Byte.lineFeed ∉ t → Byte.lineFeed ∉ b :: t := by
        intro t ht
        rw [List.mem_cons, not_or]
        exact ⟨hb, ht⟩
      rw [cutLines_cons_of_ne hb]
      generalize cutLines rest = pieces at ih
      cases ih with
      | nil => exact .last (List.cons_ne_nil b []) (hcons List.not_mem_nil)
      | last _ h => exact .last (List.cons_ne_nil b rest) (hcons h)
      | line h hrest => exact .line (hcons h) hrest

/-- There is one way to cut a text after each of its line feeds. -/
theorem isCut_iff {t : Text} {pieces : List Text} :
  IsCut t pieces ↔ pieces = cutLines t
  := by
  constructor
  · intro h
    induction h with
    | nil => rfl
    | last ht h => rw [cutLines_of_notMem ht h]
    | line h _ ih => rw [cutLines_append_lineFeed h, ih]
  · rintro rfl
    apply isCut_cutLines

/-- The pieces of a text make up the text. -/
theorem IsCut.flatten_eq {t : Text} {pieces : List Text} (h : IsCut t pieces) :
  pieces.flatten = t
  := by
  induction h with
  | nil => rfl
  | last _ _ => apply List.flatten_singleton
  | line _ _ ih => rw [List.flatten_cons, ih, List.append_assoc, List.singleton_append]

/-! ### Ends of lines -/

theorem Byte.isLineEnd_iff {b : UInt8} :
  isLineEnd b = true ↔ b = carriageReturn ∨ b = lineFeed
  := by
  rw [isLineEnd, Bool.or_eq_true, beq_iff_eq, beq_iff_eq, or_comm]

section Trimming

variable {α : Type} {p : α → Bool} {ℓ : List α} {x : α}

/-- Elements at the end that satisfy `p` do not matter if these are removed. -/
theorem trimEndBy_append {e : List α} (he : ∀ x ∈ e, p x = true) :
  trimEndBy p (ℓ ++ e) = trimEndBy p ℓ
  := by
  rw [trimEndBy, List.reverse_append, List.dropWhile_append_of_pos, trimEndBy]
  intro x hx
  apply he x (List.mem_reverse.mp hx)

/-- What is left does not end with an element that is removed. -/
theorem eq_false_of_getLast?_trimEndBy (h : (trimEndBy p ℓ).getLast? = some x) :
  p x = false
  := by
  have hhead := List.head?_dropWhile_not p ℓ.reverse
  rw [trimEndBy, List.getLast?_reverse] at h
  rw [h] at hhead
  apply hhead

theorem mem_of_mem_trimEndBy (h : x ∈ trimEndBy p ℓ) :
  x ∈ ℓ
  := by
  obtain ⟨e, he, -⟩ := exists_eq_trimEndBy_append p ℓ
  rw [he]
  apply List.mem_append_left e h

end Trimming

/-- Without its end, a piece of a text has no line feeds. -/
theorem IsCut.lineFeed_notMem {t : Text} {pieces : List Text} (h : IsCut t pieces) {p : Text}
    (hp : p ∈ pieces) :
  Byte.lineFeed ∉ trimEndBy Byte.isLineEnd p
  := by
  induction h with
  | nil => cases hp
  | last _ h =>
    rw [List.mem_singleton.mp hp]
    apply mt mem_of_mem_trimEndBy h
  | line h _ ih =>
    rcases List.mem_cons.mp hp with rfl | hp
    · rw [trimEndBy_append (List.forall_mem_singleton.mpr rfl)]
      apply mt mem_of_mem_trimEndBy h
    · apply ih hp

/-! ### Positions of pieces -/

/-- The positions at which pieces start, if they stand one after the other and the first one starts
at the given position. -/
def startsOf (position : Nat) : List Text → List Nat
  | [] => []
  | p :: ps => position :: startsOf (position + p.length) ps

theorem length_startsOf (position : Nat) (ps : List Text) :
  (startsOf position ps).length = ps.length
  := by
  induction ps generalizing position with
  | nil => rfl
  | cons p ps ih => rw [startsOf, List.length_cons, ih, List.length_cons]

/-- A piece starts after all bytes of the pieces before it. -/
theorem getElem?_startsOf (position : Nat) (before after : List Text) (p : Text) :
  (startsOf position (before ++ p :: after))[before.length]?
    = some (position + before.flatten.length)
  := by
  induction before generalizing position with
  | nil => rfl
  | cons q before ih =>
    rw [List.cons_append, startsOf, List.length_cons, List.getElem?_cons_succ, ih,
      List.flatten_cons, List.length_append, Nat.add_assoc]

/-- The lines of a text start where its pieces start. -/
theorem cons_startsAfter {t : Text} (ht : t ≠ []) (position : Nat) :
  position :: startsAfter position t = startsOf position (cutLines t)
  := by
  induction t generalizing position with
  | nil => apply absurd rfl ht
  | cons b rest ih =>
    cases rest with
    | nil =>
      by_cases hb : Byte.lineFeed = b
      · rw [← hb]
        rfl
      · rw [cutLines_cons_of_ne hb, startsAfter, List.isEmpty_nil, Bool.not_true, Bool.and_false]
        rfl
    | cons c rest =>
      have hrest := ih (List.cons_ne_nil c rest) (position + 1)
      by_cases hb : Byte.lineFeed = b
      · rw [← hb]
        exact congrArg (position :: ·) hrest
      · have hb' : (b == Byte.lineFeed) = false := beq_eq_false_iff_ne.mpr (Ne.symm hb)
        rw [cutLines_cons_of_ne hb, startsAfter, hb', Bool.false_and, if_neg Bool.false_ne_true]
        -- the byte makes the first piece longer, and the others start where they started
        cases hpieces : cutLines (c :: rest) with
        | nil =>
          rw [hpieces] at hrest
          cases hrest
        | cons line lines =>
          rw [hpieces] at hrest
          rw [startsOf, List.length_cons, (List.cons_eq_cons.mp hrest).2, Nat.add_comm line.length,
            Nat.add_assoc]

theorem lineStarts_eq {t : Text} (ht : t ≠ []) :
  lineStarts t = startsOf 0 (cutLines t)
  := cons_startsAfter ht 0

theorem Text.between_append (before p after : Text) :
  Text.between (before ++ (p ++ after)) before.length (before.length + p.length) = p
  := by
  rw [between, List.drop_left, Nat.add_sub_cancel_left, List.take_left]

/-! ### Lines -/

namespace Source

theorem lineCount_eq (source : Source) :
  source.lineCount = (cutLines source.contents).length
  := by
  rw [lineCount]
  split
  · next hempty =>
    rw [List.isEmpty_iff.mp hempty]
    rfl
  · next hne => rw [lineStarts_eq (mt List.isEmpty_iff.mpr hne), length_startsOf]

/-- The line that starts after the given pieces goes up to the end of the next piece. -/
theorem lineText_append (source : Source) {before after : List Text} {p : Text}
    (h : cutLines source.contents = before ++ p :: after) :
  source.lineText (before.length + 1) = trimEndBy Byte.isLineEnd p
  := by
  have hne : source.contents ≠ [] := by
    intro hnil
    rw [hnil] at h
    apply absurd h.symm (List.append_ne_nil_of_right_ne_nil before (List.cons_ne_nil p after))
  have hcontents : before.flatten ++ (p ++ after.flatten) = source.contents := by
    rw [← (isCut_cutLines source.contents).flatten_eq, h, List.flatten_append, List.flatten_cons]
  have hstarts : lineStarts source.contents = startsOf 0 (before ++ p :: after) := by
    rw [lineStarts_eq hne, h]
  have hstart : (lineStarts source.contents)[before.length]? = some before.flatten.length := by
    rw [hstarts, getElem?_startsOf, Nat.zero_add]
  have hstop : ((lineStarts source.contents)[before.length + 1]?).getD source.contents.length
      = before.flatten.length + p.length := by
    rw [hstarts]
    cases after with
    | nil =>
      have hlength : (startsOf 0 (before ++ [p])).length = before.length + 1 := by
        rw [length_startsOf, List.length_append, List.length_singleton]
      rw [List.getElem?_eq_none (Nat.le_of_eq hlength), Option.getD_none, ← hcontents,
        List.flatten_nil, List.append_nil, List.length_append]
    | cons q after =>
      have hnext := getElem?_startsOf 0 (before ++ [p]) after q
      rw [List.append_assoc, List.singleton_append, List.length_append,
        List.length_singleton] at hnext
      rw [hnext, Option.getD_some, List.flatten_append, List.flatten_singleton, List.length_append,
        Nat.zero_add]
  simp only [lineText, hstart, hstop]
  rw [← hcontents, Text.between_append]

/-- A line is a piece without its end. -/
theorem lineText_succ (source : Source) {i : Nat} (h : i < (cutLines source.contents).length) :
  source.lineText (i + 1) = trimEndBy Byte.isLineEnd (cutLines source.contents)[i]
  := by
  have hsplit : cutLines source.contents = (cutLines source.contents).take i
      ++ (cutLines source.contents)[i] :: (cutLines source.contents).drop (i + 1) := by
    rw [List.getElem_cons_drop, List.take_append_drop]
  have htext := source.lineText_append hsplit
  rwa [List.length_take, Nat.min_eq_left (Nat.le_of_lt h)] at htext

theorem map_text_lines (source : Source) :
  source.lines.map Line.text = (cutLines source.contents).map (trimEndBy Byte.isLineEnd)
  := by
  apply List.ext_getElem
  · rw [lines, List.length_map, List.length_map, List.length_range, List.length_map, lineCount_eq]
  · intro i _ hi
    rw [List.length_map] at hi
    simp only [lines, line, List.getElem_map, List.getElem_range, source.lineText_succ hi]

/-- Lines that do not exist are empty. -/
theorem lineText_of_lt (source : Source) {k : Nat} (h : source.lineCount < k) :
  source.lineText k = []
  := by
  cases k with
  | zero => rfl
  | succ i =>
    have hi : source.lineCount ≤ i := Nat.le_of_lt_succ h
    rw [lineCount] at hi
    split at hi
    · next hempty =>
      -- an empty text has a first position in the table, and nothing stands there
      simp only [lineText, List.isEmpty_iff.mp hempty]
      cases i with
      | zero => rfl
      | succ i => rfl
    · simp only [lineText, List.getElem?_eq_none hi]

/-- The lines of a source are what its text is cut into after each line feed, without the run of
line feeds and carriage returns at the end of each piece.  Nothing of the text is lost, and a line
number that does not exist gives an empty line. -/
theorem lines_are_pieces (source : Source) :
  ∃ pieces, (∀ others, IsCut source.contents others ↔ others = pieces)
    ∧ source.lineCount = pieces.length
    ∧ pieces.flatten = source.contents
    ∧ (∀ k, 1 ≤ k → k ≤ source.lineCount →
      ∃ ending, pieces[k - 1]? = some (source.lineText k ++ ending)
        ∧ (∀ b ∈ ending, b = Byte.carriageReturn ∨ b = Byte.lineFeed)
        ∧ (∀ b, (source.lineText k).getLast? = some b →
          b ≠ Byte.carriageReturn ∧ b ≠ Byte.lineFeed)
        ∧ Byte.lineFeed ∉ source.lineText k)
    ∧ source.lineText 0 = []
    ∧ ∀ k, source.lineCount < k → source.lineText k = []
  := by
  have hcut := isCut_cutLines source.contents
  refine ⟨cutLines source.contents, fun others => isCut_iff, source.lineCount_eq, hcut.flatten_eq,
    ?_, rfl, fun k => source.lineText_of_lt⟩
  intro k hk hcount
  obtain ⟨i, rfl⟩ := Nat.exists_eq_add_of_le' hk
  have hi : i < (cutLines source.contents).length := by
    rw [← lineCount_eq]
    apply hcount
  obtain ⟨ending, hpiece, hending⟩ :=
    exists_eq_trimEndBy_append Byte.isLineEnd (cutLines source.contents)[i]
  rw [source.lineText_succ hi]
  refine ⟨ending, ?_, ?_, ?_, hcut.lineFeed_notMem (List.getElem_mem hi)⟩
  · rw [← hpiece, Nat.add_sub_cancel, List.getElem?_eq_getElem hi]
  · intro b hb
    apply Byte.isLineEnd_iff.mp (hending b hb)
  · intro b hb
    have hfalse := eq_false_of_getLast?_trimEndBy hb
    rw [← Bool.not_eq_true, Byte.isLineEnd_iff, not_or] at hfalse
    apply hfalse

end Source

end Sketch
