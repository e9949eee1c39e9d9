import Sketch.Proofs.Positions

/-!
# Reading is natural in the offset

The positions of a text count from an offset.  Reading the text at another offset gives the same
tree with every span moved, or the same error with its position moved (`Tree.moved_parseWith`).
Spans and the positions of errors have a fixed number of bits, so they are moved modulo `2³²` and
`2⁶⁴`; these moves agree with those of the natural numbers they are made from.

As for the other properties of reading, the functions that read one layer are looked at for any
`inner`, here one that is itself natural in the position (`Tree.Natural`).
-/

namespace Sketch

/-! ### Moving spans, trees and errors -/

/-- The span with both ends moved by `offset`, modulo `2³²`. -/
def Span.move (offset : Nat) (s : Span) : Span :=
  ⟨.ofNat (s.start.toNat + offset), .ofNat (s.stop.toNat + offset)⟩

/-- Moving an extent moves its position. -/
theorem Span.move_ofExtent (offset position length : Nat) :
  (ofExtent position length).move offset = ofExtent (position + offset) length
  := by
  have hend : position + offset + length = position + length + offset := Nat.add_right_comm _ _ _
  rw [ofExtent, ofExtent, move, hend]
  simp only [UInt32.ofNat_add, UInt32.ofNat_toNat]

/-- The error with its position moved by `offset`, modulo `2⁶⁴`. -/
def ParseError.move (offset : Nat) (e : ParseError) : ParseError :=
  ⟨e.cause, .ofNat (e.position.toNat + offset)⟩

namespace Tree

/-- The tree with all its spans moved by `offset`. -/
def move (offset : Nat) : Tree → Tree := map id (Span.move offset)

/-! ### Moving what is read -/

/-- The outcome of reading, with the result moved by `view` and errors moved by `offset`. -/
def moved {α : Type} (offset : Nat) (view : α → α) : Parsed α → Parsed α
  | .ok a => .ok (view a)
  | .error e => .error (e.move offset)

/-- Moving an error moves the position at which the text is rejected. -/
theorem moved_rejectAt {α : Type} (offset : Nat) (view : α → α) (position : Nat)
    (cause : ParseCause) :
  moved offset view (rejectAt position cause) = rejectAt (position + offset) cause
  := by
  simp only [rejectAt, moved, ParseError.move, UInt64.ofNat_add, UInt64.ofNat_toNat]

/-- Computations in sequence are moved by moving each of them. -/
theorem moved_bind {α β : Type} {offset : Nat} {view : α → α} {view' : β → β} {x y : Parsed α}
    {f g : α → Parsed β} (hx : moved offset view x = y)
    (hf : ∀ a, moved offset view' (f a) = g (view a)) :
  moved offset view' (x >>= f) = y >>= g
  := by
  subst hx
  cases x with
  | error e => rfl
  | ok a => apply hf a

/-- A word at a position that is moved is read as before, with positions moved. -/
theorem moved_parseWord (offset position : Nat) (word : Text) :
  moved offset (move offset) (parseWord position word) = parseWord (position + offset) word
  := by
  simp only [parseWord]
  split
  · simp only [moved, move, map, Span.move_ofExtent]
  · split
    · simp only [moved, move, map, Span.move_ofExtent]
    · split
      · cases readNumber? word with
        | none => apply moved_rejectAt
        | some x => simp only [moved, move, map, id, Span.move_ofExtent]
      · split
        · simp only [moved, move, map, Span.move_ofExtent]
        · split
          · apply moved_rejectAt
          · apply moved_rejectAt

/-- What stands in brackets at a position that is moved by `offset` is read as before, with all
positions moved. -/
def Natural (offset : Nat) (inner : Nat → Text → Parsed Tree) : Prop :=
  ∀ position x, moved offset (move offset) (inner position x) = inner (position + offset) x

section Inner

variable {offset : Nat} {inner : Nat → Text → Parsed Tree} (hinner : Natural offset inner)

include hinner

/-- If the brackets are read alike at all positions, then so are arguments in brackets. -/
theorem moved_parseGroups (position : Nat) (ps : List Part) :
  moved offset (List.map (move offset)) (parseGroups inner position ps)
    = parseGroups inner (position + offset) ps
  := by
  induction ps generalizing position with
  | nil => rfl
  | cons p ps ih =>
    cases p with
    | plain b =>
      rw [parseGroups, parseGroups]
      split
      · rw [ih, Nat.add_right_comm]
      · apply moved_rejectAt
    | group x =>
      have hnext : position + offset + x.length + 2 = position + x.length + 2 + offset := by
        omega
      rw [parseGroups, parseGroups, hnext]
      apply moved_bind (hinner position x)
      intro arg
      apply moved_bind (ih _)
      intro args
      rfl

theorem moved_parseTrimmed (position : Nat) (ps : List Part) :
  moved offset (move offset) (parseTrimmed inner position ps)
    = parseTrimmed inner (position + offset) ps
  := by
  cases itemForm ps with
  | word word =>
    rw [parseTrimmed_word, parseTrimmed_word]
    apply moved_parseWord
  | bracketed x => apply hinner position x
  | groups x hword =>
    rw [parseTrimmed_call inner _ hword, parseTrimmed_call inner _ hword]
    split
    · rw [Nat.add_right_comm position offset]
      apply moved_bind (moved_parseGroups hinner _ _)
      intro args
      rw [← Span.move_ofExtent]
      exact congrArg Except.ok (map_call id (Span.move offset) _ args _)
    · apply moved_rejectAt

/-- An item at a position that is moved is read as before, with positions moved. -/
theorem moved_parseItem (position : Nat) (ps : List Part) :
  moved offset (move offset) (parseItem inner position ps) = parseItem inner (position + offset) ps
  := by
  rw [parseItem, parseItem, Nat.add_right_comm]
  apply moved_parseTrimmed hinner

theorem moved_parseItems (position : Nat) (items : List (List Part)) :
  moved offset (List.map (move offset)) (parseItems inner position items)
    = parseItems inner (position + offset) items
  := by
  induction items generalizing position with
  | nil => rfl
  | cons item items ih =>
    have hnext : position + offset + Part.widths item + 1
        = position + Part.widths item + 1 + offset := by
      omega
    rw [parseItems, parseItems, hnext]
    apply moved_bind (moved_parseItem hinner position item)
    intro t
    apply moved_bind (ih _)
    intro ts
    rfl

/-- A layer at a position that is moved is read as before, with positions moved. -/
theorem moved_parseLayer (position : Nat) (text : Text) :
  moved offset (move offset) (parseLayer inner position text)
    = parseLayer inner (position + offset) text
  := by
  simp only [parseLayer]
  rw [Nat.add_right_comm position offset]
  cases (Layer.ofText text).ending with
  | unopened rest => apply moved_rejectAt
  | unclosed rest =>
    apply moved_bind (moved_parseItems hinner position _)
    intro items
    apply moved_rejectAt
  | complete =>
    rcases (segments (Layer.ofText text).parts).2 with _ | ⟨second, others⟩
    · apply moved_parseItem hinner
    · apply moved_bind (moved_parseItems hinner position _)
      intro items
      rw [← Span.move_ofExtent]
      exact congrArg Except.ok (map_tuple id (Span.move offset) items _)

theorem moved_parseWith (position : Nat) (text : Text) :
  moved offset (move offset) (parseWith inner position text)
    = parseWith inner (position + offset) text
  := by
  rw [parseWith, parseWith, Nat.add_right_comm]
  apply moved_parseLayer hinner

end Inner

/-- What stands in brackets is read alike at all positions, however deep brackets may be nested. -/
theorem natural_parseInner (offset room : Nat) :
  Natural offset (parseInner room)
  := by
  induction room with
  | zero =>
    intro position x
    apply moved_rejectAt
  | succ room ih =>
    intro position x
    rw [parseInner, parseInner, Nat.add_right_comm]
    apply moved_parseWith ih

/-- Reading at an offset is reading at zero, with all positions moved by the offset. -/
theorem parse_eq_moved (text : Text) (offset : Nat) :
  parse text offset = moved offset (move offset) (parse text 0)
  := by
  rw [parse, parse, moved_parseWith (natural_parseInner offset maxNesting), Nat.zero_add]

/-- Whether a text is read does not depend on the offset. -/
theorem exists_parse_iff (text : Text) (offset : Nat) :
  (∃ t, parse text offset = .ok t) ↔ ∃ t, parse text 0 = .ok t
  := by
  rw [parse_eq_moved]
  cases parse text 0 with
  | error e => simp [moved]
  | ok t => simp [moved]

/-- Whether a text is read does not depend on the offset.  If it is read, the tree is the one read
at zero with the offset added to both ends of each span, modulo `2³²`.  If not, the error is the one
at zero, with the offset added to its position, modulo `2⁶⁴`; at zero this is a position in the text
or at its end. -/
theorem parse_at_offset (text : Text) (offset : Nat) :
  ((∃ t, parse text offset = .ok t) ↔ ∃ t, parse text 0 = .ok t)
    ∧ (∀ t, parse text 0 = .ok t → parse text offset = .ok (t.move offset))
    ∧ ∀ e, parse text 0 = .error e →
      e.position.toNat ≤ text.length
        ∧ ∃ e', parse text offset = .error e' ∧ e'.cause = e.cause ∧ e'.kind = e.kind
          ∧ e'.position.toNat = (e.position.toNat + offset) % UInt64.size
  := by
  refine ⟨exists_parse_iff text offset, ?_, ?_⟩
  · intro t h
    rw [parse_eq_moved, h]
    rfl
  · intro e h
    have hwithin := readsWithin_parse text 0
    rw [h] at hwithin
    obtain ⟨p, hposition, -, hp⟩ := hwithin
    constructor
    · calc e.position.toNat
          = p % UInt64.size := by rw [hposition, UInt64.toNat_ofNat']
        _ ≤ p := Nat.mod_le _ _
        _ ≤ text.length := by omega
    · refine ⟨e.move offset, ?_, rfl, rfl, UInt64.toNat_ofNat'⟩
      rw [parse_eq_moved, h]
      rfl

end Tree

end Sketch
