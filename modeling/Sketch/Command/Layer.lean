import Sketch.Text.Blank

/-!
# Bracket layers

The parser looks at a text one bracket layer at a time.  A layer is the text with every
bracketed stretch folded into a single part, whatever is inside it.  Reading a layer stops
early in two ways: at a bracket that closes nothing, or at a bracket that is never closed.

Main statement: a layer written out again is the text it was read from (`Layer.text_ofText`).
-/

namespace Sketch

/-- A part of a bracket layer. -/
inductive Part where
  /-- A byte that is not a bracket. -/
  | plain (byte : UInt8)
  /-- Two matching brackets and the text between them. -/
  | group (inner : Text)

namespace Part

/-- The text of a part. -/
def text : Part → Text
  | plain b => [b]
  | group inner => Text.bracketed inner

/-- The number of bytes of a part. -/
def width : Part → Nat
  | plain _ => 1
  | group inner => inner.length + 2

/-- Whether a part is a blank byte. -/
def isBlank : Part → Bool
  | plain b => Byte.isBlank b
  | group _ => false

/-- Whether a part is a comma. -/
def isComma : Part → Bool
  | plain b => b == Byte.comma
  | group _ => false

/-- The byte of a part that is not a group. -/
def plain? : Part → Option UInt8
  | plain b => some b
  | group _ => none

/-- The number of bytes of a list of parts. -/
def widths : List Part → Nat
  | [] => 0
  | p :: ps => p.width + widths ps

end Part

/-- How a layer ends. -/
inductive Layer.Ending where
  /-- At the end of the text. -/
  | complete
  /-- At an opening bracket that is never closed, followed by `rest`. -/
  | unclosed (rest : Text)
  /-- At a closing bracket that closes nothing, followed by `rest`. -/
  | unopened (rest : Text)

/-- A bracket layer of a text. -/
structure Layer where
  /-- The parts, up to where the layer ends. -/
  parts : List Part
  /-- How the layer ends. -/
  ending : Layer.Ending

namespace Layer

/-- The layer with one more part in front. -/
def cons (p : Part) (layer : Layer) : Layer := ⟨p :: layer.parts, layer.ending⟩

/-- The text inside of a group with one more byte in front. -/
def keep (b : UInt8) (group : Text × Option Layer) : Text × Option Layer :=
  (b :: group.1, group.2)

mutual

/-- The outermost bracket layer of a text. -/
def ofText : Text → Layer
  | [] => ⟨[], .complete⟩
  | b :: rest =>
    if b == Byte.openBracket then
      match closing 0 rest with
      | (inner, some layer) => layer.cons (.group inner)
      | (inner, none) => ⟨[], .unclosed inner⟩
    else if b == Byte.closeBracket then ⟨[], .unopened rest⟩
    else (ofText rest).cons (.plain b)

/-- The text up to the bracket that closes a group inside of which `depth` further brackets are
open, and the layer after that bracket.  There is no such layer if the group is never closed. -/
def closing : (depth : Nat) → Text → Text × Option Layer
  | _, [] => ([], none)
  | depth, b :: rest =>
    if b == Byte.openBracket then keep b (closing (depth + 1) rest)
    else if b == Byte.closeBracket then
      if depth = 0 then ([], some (ofText rest)) else keep b (closing (depth - 1) rest)
    else keep b (closing depth rest)

end

/-- The text of an ending. -/
def Ending.text : Ending → Text
  | complete => []
  | unclosed rest => Byte.openBracket :: rest
  | unopened rest => Byte.closeBracket :: rest

/-- The text of a layer. -/
def text (layer : Layer) : Text := layer.parts.flatMap Part.text ++ layer.ending.text

@[simp]
theorem text_cons (p : Part) (layer : Layer) :
  (layer.cons p).text = p.text ++ layer.text
  := by
  simp [cons, text]

/-- The text of a group that starts after an opening bracket, and what follows it. -/
def groupText : Text × Option Layer → Text
  | (inner, none) => inner
  | (inner, some layer) => inner ++ Byte.closeBracket :: layer.text

@[simp]
theorem groupText_keep (b : UInt8) (group : Text × Option Layer) :
  groupText (keep b group) = b :: groupText group
  := by
  obtain ⟨inner, _ | layer⟩ := group
  · rfl
  · rfl

/-- Reading a layer loses nothing, neither outside of all brackets nor inside of them. -/
theorem text_ofText_and_closing (t : Text) :
  (ofText t).text = t ∧ ∀ depth, groupText (closing depth t) = t
  := by
  induction t with
  | nil => simp [ofText, closing, text, Ending.text, groupText]
  | cons b rest ih =>
    obtain ⟨outside, inside⟩ := ih
    constructor
    · rw [ofText]
      split
      · next hb =>
        obtain rfl := eq_of_beq hb
        have h := inside 0
        split
        · next inner layer heq =>
          rw [heq] at h
          simp [Part.text, Text.bracketed, ← h, groupText]
        · next inner heq =>
          rw [heq] at h
          simp [text, Ending.text, ← h, groupText]
      · split
        · next hb =>
          obtain rfl := eq_of_beq hb
          simp [text, Ending.text]
        · simp [Part.text, outside]
    · intro depth
      rw [closing]
      split
      · simp [inside]
      · split
        · next hb =>
          obtain rfl := eq_of_beq hb
          split
          · simp [groupText, outside]
          · simp [inside]
        · simp [inside]

/-- A layer written out again is the text it was read from. -/
theorem text_ofText (t : Text) :
  (ofText t).text = t
  := (text_ofText_and_closing t).1

end Layer

/-- The parts before the first comma, and the lists of parts between later commas. -/
def segments : List Part → List Part × List (List Part)
  | [] => ([], [])
  | p :: ps =>
    let (first, others) := segments ps
    if p.isComma then ([], first :: others) else (p :: first, others)

end Sketch
