import Sketch.Proofs.Offsets
import Sketch.Proofs.RoundTrip
import Sketch.Proofs.UnmatchedBrackets
import Mathlib.Order.Bounds.Basic

/-!
# Opening brackets that are never closed

If a text has an opening bracket that is never closed, then everything after the first one belongs
to one segment: there are no more commas outside of brackets.  The segments before this one are read
from left to right, and if all of them are read, then the bracket is reported
(`Tree.parse_unclosed_opening`).  What stands in brackets that match is balanced, so it never
leads to such a report.

The segments are cut from the text byte by byte (`Text.cut`), without looking at layers.  They are
the segments of the layer (`Text.cut_texts`), and each is read like a text of its own
(`Tree.parseItem_eq_parseWith`).
-/

namespace Sketch

namespace Text

/-! ### Unclosed opening brackets -/

/-- The byte at the index is an opening bracket, and no bracket in the text after it closes it. -/
def UnclosedAt (t : Text) (i : Nat) : Prop :=
  t[i]? = some Byte.openBracket ∧ ∀ j, ¬UnmatchedAt (t.drop (i + 1)) j

/-- The brackets of a balanced text are closed, whatever follows it. -/
theorem Balanced.not_unclosedAt {s : Text} (hs : Balanced s) {i : Nat} (hi : i < s.length)
    (t : Text) :
  ¬UnclosedAt (s ++ t) i
  := by
  rintro ⟨hbyte, hguarded⟩
  rw [List.getElem?_append_left hi] at hbyte
  have hopen : openAfter 0 (s.take (i + 1)) = openAfter 0 (s.take i) + 1 := by
    rw [List.take_add_one, hbyte, openAfter, List.foldl_append]
    rfl
  have hcloses : Closes (openAfter 0 (s.take i) + 1) (s.drop (i + 1)) := by
    rw [← hopen]
    apply Closes.of_append
    rwa [List.take_append_drop]
  obtain ⟨j, hj⟩ := hcloses.exists_unmatchedFrom (Nat.succ_pos _)
  apply hguarded j
  rw [List.drop_append_of_le_length hi]
  apply standsAt_append.mpr (Or.inl hj)

theorem Balanced.forall_not_unclosedAt {s : Text} (hs : Balanced s) (i : Nat) :
  ¬UnclosedAt s i
  := by
  intro hi
  have hlt := (List.getElem?_eq_some_iff.mp hi.1).1
  apply hs.not_unclosedAt hlt []
  rwa [List.append_nil]

/-- An opening bracket after a balanced text is the first one that is never closed, if nothing after
it closes it. -/
theorem isLeast_unclosedAt {s rest : Text} (hs : Balanced s) (hrest : Guarded 0 rest) :
  IsLeast {i | UnclosedAt (s ++ Byte.openBracket :: rest) i} s.length
  := by
  constructor
  · constructor
    · rw [List.getElem?_append_right (Nat.le_refl _), Nat.sub_self]
      rfl
    · rw [List.drop_append, List.drop_of_length_le (Nat.le_succ _), Nat.add_sub_cancel_left]
      apply hrest
  · intro i hi
    by_contra hlt
    exact hs.not_unclosedAt (Nat.lt_of_not_le hlt) _ hi

/-! ### Cutting a text at its commas -/

/-- The texts before the first comma, and between later commas, that stand outside of all brackets.
There are `depth` brackets open before the text. -/
def cutFrom : (depth : Nat) → Text → Text × List Text
  | _, [] => ([], [])
  | depth, b :: rest =>
    let (first, others) := cutFrom (openAfterByte depth b) rest
    if depth = 0 ∧ b = Byte.comma then ([], first :: others) else (b :: first, others)

/-- The segments of a text: it is cut at the commas outside of all brackets. -/
def cut (t : Text) : List Text := (cutFrom 0 t).1 :: (cutFrom 0 t).2

/-- The segments of a text that end before the segment in which the index lies. -/
def segmentsBefore (t : Text) (i : Nat) : List Text := (cut (t.take i)).dropLast

example : segmentsBefore (utf8 "f(a, b), c, (d, e") 12 = [utf8 "f(a, b)", utf8 " c"] := by decide

/-- Inside of brackets a text is not cut. -/
theorem cutFrom_append {d : Nat} {s : Text} (hs : Closes d s) (e : Nat) (t : Text) :
  cutFrom (d + (e + 1)) (s ++ t) = (s ++ (cutFrom (e + 1) t).1, (cutFrom (e + 1) t).2)
  := by
  induction hs with
  | nil => simp
  | @opening d s _ ih =>
    rw [Nat.add_right_comm] at ih
    simp [cutFrom, ih]
  | @closing d s _ ih =>
    have hdepth : d + 1 + (e + 1) - 1 = d + (e + 1) := by omega
    simp [cutFrom, hdepth, ih]
  | other hb _ ih => simp [cutFrom, openAfterByte_other hb, ih]

/-- The segments of a list of parts are those of its text. -/
theorem cut_texts {ps : List Part} (h : Part.AllProper ps) :
  cut (Part.texts ps) = ((segments ps).1 :: (segments ps).2).map Part.texts
  := by
  suffices hcut : cutFrom 0 (Part.texts ps)
      = (Part.texts (segments ps).1, (segments ps).2.map Part.texts) by
    rw [cut, hcut, List.map_cons]
  induction ps with
  | nil => rfl
  | cons p ps ih =>
    have hp := h p List.mem_cons_self
    have hps := ih fun q hq => h q (List.mem_cons_of_mem p hq)
    rw [Part.texts_cons, segments]
    cases p with
    | plain b =>
      simp only [Part.text, List.singleton_append, cutFrom, openAfterByte_other hp, hps]
      by_cases hb : b = Byte.comma
      · simp [hb, Part.isComma]
      · simp [hb, Part.isComma, Part.text]
    | group x =>
      have hclose : cutFrom 1 (x ++ Byte.closeBracket :: Part.texts ps)
          = (x ++ Byte.closeBracket :: Part.texts (segments ps).1,
            (segments ps).2.map Part.texts) := by
        have hinside := cutFrom_append hp 0 (Byte.closeBracket :: Part.texts ps)
        rw [Nat.zero_add, Nat.zero_add] at hinside
        rw [hinside]
        simp [cutFrom, hps]
      have hcomma : Byte.openBracket ≠ Byte.comma := by decide
      simp [Part.text, Text.bracketed, cutFrom, hclose, Part.isComma, hcomma]

theorem segmentsBefore_texts {ps : List Part} (h : Part.AllProper ps) (t : Text) :
  segmentsBefore (Part.texts ps ++ t) (Part.texts ps).length
    = ((segments ps).1 :: (segments ps).2).dropLast.map Part.texts
  := by
  rw [segmentsBefore, List.take_left, cut_texts h, List.map_dropLast]

end Text

namespace Tree

open Grammar Text

/-! ### Segments as texts -/

/-- An item is read like its text. -/
theorem parseItem_eq_parseWith {item : List Part} (h : Spells item (Part.texts item))
    (inner : Nat → Text → Parsed Tree) (position : Nat) :
  parseItem inner position item = parseWith inner position (Part.texts item)
  := by
  rcases forall_or_exists_solid Part.isBlank item with hblank | ⟨u, m, v, rfl, hu, hm, hv⟩
  · have hlength : (Part.texts item).length = item.length := by
      rw [Part.length_texts, Part.widths_of_isBlank hblank]
    rw [parseItem, parseWith, Text.trim, leadingBlanks, trimBy_of_forall hblank,
      leadingBy_of_forall hblank, trimBy_of_forall (blanks_texts hblank),
      leadingBy_of_forall (blanks_texts hblank), hlength]
    rfl
  · have hlength : (Part.texts u).length = u.length := by
      rw [Part.length_texts, Part.widths_of_isBlank hu]
    have hspells : Spells m (Part.texts m) := by
      apply h.of_subset
      intro p hp
      exact List.mem_append_left v (List.mem_append_right u hp)
    have hsolid := Part.solid_texts hm
    rw [parseItem, leadingBy_append_solid hu hm, trimBy_append_solid hu hm hv, parseWith, Text.trim,
      leadingBlanks, Part.texts_append, Part.texts_append,
      leadingBy_append_solid (blanks_texts hu) hsolid,
      trimBy_append_solid (blanks_texts hu) hsolid (blanks_texts hv), hlength,
      ← parseWith_solid hsolid, parseWith_spells hspells hsolid]

/-- Blanks before the first item only move the items. -/
theorem parseItems_blanks {inner : Nat → Text → Parsed Tree} {u : Text} (hu : Blanks u)
    (position : Nat) (item : List Part) (items : List (List Part)) :
  parseItems inner position ((u.map .plain ++ item) :: items)
    = parseItems inner (position + u.length) (item :: items)
  := by
  induction u generalizing position with
  | nil => rfl
  | cons b u ih =>
    have hb : Byte.isBlank b = true := hu b List.mem_cons_self
    have hrest : Blanks u := fun c hc => hu c (List.mem_cons_of_mem b hc)
    rw [List.map_cons, List.cons_append, parseItems_plain_blank hb, ih hrest, List.length_cons,
      Nat.add_right_comm]
    rfl

theorem extent_eq_length (items : List (List Part)) :
  Part.extent items = ((items.map Part.texts).flatMap (· ++ [Byte.comma])).length
  := by
  induction items with
  | nil => rfl
  | cons item items ih =>
    rw [Part.extent, ih, List.map_cons, List.flatMap_cons, List.length_append, List.length_append,
      Part.length_texts]
    rfl

/-- Items are read if all of them are, each as a text of its own. -/
theorem exists_parseItems_iff {items : List (List Part)}
    (h : ∀ item ∈ items, Spells item (Part.texts item)) (position : Nat) :
  (∃ ts, parseItems (parseInner maxNesting) position items = .ok ts)
    ↔ ∀ item ∈ items, ∃ t, parse (Part.texts item) 0 = .ok t
  := by
  induction items generalizing position with
  | nil => exact ⟨fun _ => List.forall_mem_nil _, fun _ => ⟨[], rfl⟩⟩
  | cons item items ih =>
    rw [List.forall_mem_cons] at h
    rw [List.forall_mem_cons, ← exists_parse_iff _ position, parse,
      ← parseItem_eq_parseWith h.1, ← ih h.2 (position + Part.widths item + 1)]
    constructor
    · rintro ⟨ts, hts⟩
      obtain ⟨t, ht, hts⟩ := bind_eq_ok_iff.mp hts
      obtain ⟨ts', hts', -⟩ := bind_eq_ok_iff.mp hts
      exact ⟨⟨t, ht⟩, ts', hts'⟩
    · rintro ⟨⟨t, ht⟩, ts, hts⟩
      use t :: ts
      rw [parseItems, ht, hts]
      rfl

/-- Items are rejected because of the first of them that is rejected. -/
theorem parseItems_of_error {inner : Nat → Text → Parsed Tree} {position : Nat}
    {before : List (List Part)} {item : List Part} {ts : List Tree} {e : ParseError}
    (hbefore : parseItems inner position before = .ok ts)
    (hitem : parseItem inner (position + Part.extent before) item = .error e)
    (after : List (List Part)) :
  parseItems inner position (before ++ item :: after) = .error e
  := by
  induction before generalizing position ts with
  | nil =>
    rw [List.nil_append, parseItems, ← Nat.add_zero position, ← Part.extent, hitem]
    rfl
  | cons first before ih =>
    obtain ⟨t, ht, hbefore⟩ := bind_eq_ok_iff.mp hbefore
    obtain ⟨ts', hts', -⟩ := bind_eq_ok_iff.mp hbefore
    have hposition : position + Part.extent (first :: before)
        = position + Part.widths first + 1 + Part.extent before := by
      rw [Part.extent]
      omega
    rw [hposition] at hitem
    rw [List.cons_append, parseItems, ht, ih hts' hitem]
    rfl

/-- Items whose texts are given are rejected because of the first text that is rejected. -/
theorem parseItems_of_parse_error {items : List (List Part)}
    (h : ∀ item ∈ items, Spells item (Part.texts item)) {position : Nat} {before after : List Text}
    {s : Text} {e : ParseError} (hitems : items.map Part.texts = before ++ s :: after)
    (hbefore : ∀ r ∈ before, ∃ t, parse r 0 = .ok t)
    (hs : parse s (position + (before.flatMap (· ++ [Byte.comma])).length) = .error e) :
  parseItems (parseInner maxNesting) position items = .error e
  := by
  obtain ⟨first, rest, rfl, rfl, hrest⟩ := List.map_eq_append_iff.mp hitems
  obtain ⟨item, last, rfl, rfl, rfl⟩ := List.map_eq_cons_iff.mp hrest
  obtain ⟨ts, hts⟩ : ∃ ts, parseItems (parseInner maxNesting) position first = .ok ts := by
    rw [exists_parseItems_iff fun r hr => h r (List.mem_append_left _ hr)]
    intro r hr
    apply hbefore _ (List.mem_map_of_mem hr)
  apply parseItems_of_error hts
  rw [extent_eq_length, parseItem_eq_parseWith]
  · apply hs
  · apply h item (List.mem_append_right _ List.mem_cons_self)

theorem spared_parse {text : Text} (h : Balanced text) (offset : Nat) :
  Spared (parse text offset)
  := spared_parseLayer (spared_parseInner maxNesting) _ (balanced_trim h)

/-! ### Texts with an unclosed opening bracket -/

/-- The first unclosed opening bracket of a text follows the parts `ps`, and is reported once the
items before the one it is in are read. -/
structure Unclosed (text : Text) (ps : List Part) (rest : Text) : Prop where
  guarded : Guarded 0 text
  proper : Part.AllProper ps
  text_eq : text = Part.texts ps ++ Byte.openBracket :: rest
  guarded_rest : Guarded 0 rest
  parse_eq : ∀ inner position, parseWith inner position text
    = parseItems inner position ((segments ps).1 :: (segments ps).2).dropLast
      >>= fun _ => rejectAt (position + Part.widths ps) .neverClosed

namespace Unclosed

variable {text : Text} {ps : List Part} {rest : Text} (h : Unclosed text ps rest)

include h

theorem isLeast :
  IsLeast {i | UnclosedAt text i} (Part.texts ps).length
  := by
  rw [h.text_eq]
  apply isLeast_unclosedAt h.proper.balanced h.guarded_rest

theorem segmentsBefore_eq :
  text.segmentsBefore (Part.texts ps).length
    = ((segments ps).1 :: (segments ps).2).dropLast.map Part.texts
  := by
  rw [h.text_eq]
  apply segmentsBefore_texts h.proper

theorem spells :
  ∀ item ∈ ((segments ps).1 :: (segments ps).2).dropLast, Spells item (Part.texts item)
  := by
  intro item hitem
  have hparts := of_mem_segments ((List.dropLast_sublist _).subset hitem)
  exact ⟨rfl, fun p hp => h.proper p (hparts p hp).1, fun p hp => (hparts p hp).2⟩

theorem read_iff (position : Nat) :
  (∃ ts, parseItems (parseInner maxNesting) position
      ((segments ps).1 :: (segments ps).2).dropLast = .ok ts)
    ↔ ∀ s ∈ text.segmentsBefore (Part.texts ps).length, ∃ t, parse s 0 = .ok t
  := by
  rw [exists_parseItems_iff h.spells, h.segmentsBefore_eq, List.forall_mem_map]

/-- If the segments before the one with the bracket are read, then the bracket is reported. -/
theorem parse_of_read
    (hread : ∀ s ∈ text.segmentsBefore (Part.texts ps).length, ∃ t, parse s 0 = .ok t)
    (offset : Nat) :
  parse text offset = rejectAt (offset + (Part.texts ps).length) .neverClosed
  := by
  obtain ⟨ts, hts⟩ := (h.read_iff offset).mpr hread
  rw [parse, h.parse_eq, hts, Part.length_texts]
  rfl

/-- If the bracket is reported, then the segments before the one with the bracket are read. -/
theorem read_of_parse {offset : Nat} {e : ParseError} (he : parse text offset = .error e)
    (hkind : e.kind = .bracketNotClosed) :
  ∀ s ∈ text.segmentsBefore (Part.texts ps).length, ∃ t, parse s 0 = .ok t
  := by
  rw [← h.read_iff offset]
  rw [parse, h.parse_eq] at he
  rcases bind_eq_error_iff.mp he with hitems | ⟨ts, hts, -⟩
  · -- The items are balanced, so an error of one of them is of another kind.
    have hspared := spared_parseItems (spared_parseInner maxNesting) offset
      fun item hitem => (h.spells item hitem).proper
    rw [hitems] at hspared
    exact absurd hkind hspared.2
  · exact ⟨ts, hts⟩

end Unclosed

/-- A text whose layer ends at an opening bracket, read without trimming it first. -/
theorem parseWith_unclosed {text rest : Text}
    (h : (Layer.ofText text.trim).ending = .unclosed rest)
    (inner : Nat → Text → Parsed Tree) (position : Nat) :
  let ps := (text.takeWhile Byte.isBlank).map Part.plain ++ (Layer.ofText text.trim).parts
  parseWith inner position text
    = parseItems inner position ((segments ps).1 :: (segments ps).2).dropLast
      >>= fun _ => rejectAt (position + Part.widths ps) .neverClosed
  := by
  intro ps
  have hblank := blanks_takeWhile text
  have hposition : position + Part.widths ps
      = position + text.leadingBlanks + Part.widths (Layer.ofText text.trim).parts := by
    rw [Part.widths_append, Part.widths_map_plain, Nat.add_assoc]
    rfl
  rw [segments_append (Spells.blanks hblank).noComma, hposition]
  simp only [parseWith, parseLayer, h]
  rcases (segments (Layer.ofText text.trim).parts).2 with _ | ⟨second, others⟩
  · rfl
  · rw [List.dropLast_cons_cons, List.dropLast_cons_cons, parseItems_blanks hblank]
    rfl

/-- Ways in which the brackets of a text may match. -/
inductive BracketForm (text : Text) : Prop
  | unopened {i : Nat} :
    UnmatchedAt text i →
      (∀ inner position, ∃ q, parseWith inner position text = rejectAt q .neverOpened) →
        BracketForm text
  | unclosed {ps : List Part} {rest : Text} : Unclosed text ps rest → BracketForm text
  | balanced : Balanced text → BracketForm text

/-- The brackets of every text match in one of these ways. -/
theorem bracketForm (text : Text) :
  BracketForm text
  := by
  obtain ⟨after, htext, hafter⟩ := exists_eq_append_trimBy_append Byte.isBlank text
  have hblank := blanks_takeWhile text
  have hend := Balanced.of_forall (Blanks.noBrackets hafter)
  cases hending : (Layer.ofText text.trim).ending with
  | unopened rest =>
    have hfirst := firstUnmatchedAt_of_trim (Layer.firstUnmatchedAt_of_unopened hending)
    apply BracketForm.unopened hfirst.unmatched
    intro inner position
    rw [parseWith]
    simp only [parseLayer, hending]
    exact ⟨_, rfl⟩
  | unclosed rest =>
    have htrim := Layer.text_ofText text.trim
    rw [Layer.text, hending, Layer.Ending.text, ← Part.texts] at htrim
    apply @BracketForm.unclosed text _ (rest ++ after)
    refine ⟨?_, ?_, ?_, ?_, parseWith_unclosed hending⟩
    · rcases Layer.unopened_or_guarded text.trim with ⟨_, hunopened⟩ | htrimmed
      · rw [hending] at hunopened
        cases hunopened
      · apply guarded_of_trim htrimmed
    · apply (Spells.blanks hblank).proper.append (Layer.proper_ofText _)
    · rw [Part.texts_append, Part.texts_map_plain, List.append_assoc, ← List.cons_append,
        ← List.append_assoc (Part.texts _), htrim, ← List.append_assoc]
      apply htext
    · apply (Layer.guarded_of_unclosed hending).append (hend.guarded _)
  | complete =>
    have hbefore := Balanced.of_forall hblank.noBrackets
    apply BracketForm.balanced
    rw [htext]
    apply (hbefore.append (Layer.balanced_of_complete hending)).append hend

/-- A text is rejected because of an opening bracket that is never closed exactly if it has no
unmatched closing bracket, it has such an opening bracket, and all segments before the one with the
first such bracket are read.  The position of the error is then that of this bracket, cut to 64
bits.  If one of these segments is not read, then the error is that of the first one. -/
theorem parse_unclosed_opening (text : Text) (offset : Nat) :
  ((∃ e, parse text offset = .error e ∧ e.kind = .bracketNotClosed)
      ↔ (∀ i, ¬UnmatchedAt text i) ∧ ∃ q, IsLeast {i | UnclosedAt text i} q
        ∧ ∀ s ∈ text.segmentsBefore q, ∃ t, parse s 0 = .ok t)
    ∧ ∀ q, (∀ i, ¬UnmatchedAt text i) → IsLeast {i | UnclosedAt text i} q →
      ((∀ s ∈ text.segmentsBefore q, ∃ t, parse s 0 = .ok t) →
        ∃ e, parse text offset = .error e ∧ e.kind = .bracketNotClosed
          ∧ e.position.toNat = (offset + q) % UInt64.size)
      ∧ ∀ before s after e, text.segmentsBefore q = before ++ s :: after →
        (∀ r ∈ before, ∃ t, parse r 0 = .ok t) →
          parse s (offset + (before.flatMap (· ++ [Byte.comma])).length) = .error e →
            parse text offset = .error e
  := by
  cases bracketForm text with
  | @unopened i hunmatched hparse =>
    obtain ⟨position, hparse⟩ := hparse (parseInner maxNesting) offset
    constructor
    · constructor
      · rintro ⟨e, he, hkind⟩
        rw [parse, hparse] at he
        obtain rfl := Except.error.inj he
        cases hkind
      · rintro ⟨hguarded, -⟩
        exact absurd hunmatched (hguarded i)
    · intro q hguarded
      exact absurd hunmatched (hguarded i)
  | balanced hbalanced =>
    constructor
    · constructor
      · rintro ⟨e, he, hkind⟩
        have hspared := spared_parse hbalanced offset
        rw [he] at hspared
        exact absurd hkind hspared.2
      · rintro ⟨-, q, hq, -⟩
        exact absurd hq.1 (hbalanced.forall_not_unclosedAt q)
    · intro q _ hq
      exact absurd hq.1 (hbalanced.forall_not_unclosedAt q)
  | unclosed h =>
    constructor
    · constructor
      · rintro ⟨e, he, hkind⟩
        exact ⟨h.guarded, _, h.isLeast, h.read_of_parse he hkind⟩
      · rintro ⟨-, q, hq, hread⟩
        obtain rfl := hq.unique h.isLeast
        exact ⟨_, h.parse_of_read hread offset, rfl⟩
    · intro q _ hq
      obtain rfl := hq.unique h.isLeast
      constructor
      · intro hread
        exact ⟨_, h.parse_of_read hread offset, rfl, UInt64.toNat_ofNat'⟩
      · intro before s after e hcut hbefore hs
        rw [h.segmentsBefore_eq] at hcut
        rw [parse, h.parse_eq, parseItems_of_parse_error h.spells hcut hbefore hs]
        rfl

end Tree

end Sketch
