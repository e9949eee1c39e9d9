import Sketch.Command.Layer
import Sketch.Command.ParseError
import Sketch.Command.Tree
import Sketch.Number.Literal

/-!
# Reading commands

A command is one item, or several items separated by commas.  An item is a wildcard, a number, a
name, a bracketed command, or a call: a name followed by one or more bracketed commands.  Blanks
may stand around items and before the brackets of a call.

A text is read one bracket layer at a time.  The functions of this module read the outermost
layer, and are given a function `inner` that reads what is inside a pair of brackets, together
with the position of the opening one.  `Tree.parseInner room` is such a function that allows
`room` levels of brackets, so `Tree.parse` needs no other measure of progress.

Positions are natural numbers here.  They are cut to the width of spans and error positions
where these are made.
-/

namespace Sketch

namespace Tree

/-- Results of reading. -/
abbrev Parsed (α : Type) := Except ParseError α

/-- The error with a given cause, reported at a position. -/
def rejectAt {α : Type} (position : Nat) (cause : ParseCause) : Parsed α :=
  .error ⟨cause, .ofNat position⟩

/-- Reads an item without brackets. -/
def parseWord (position : Nat) (word : Text) : Parsed Tree :=
  let span := Span.ofExtent position word.length
  if word == Wildcard.number.text then .ok (.wildcard .number span)
  else if word == Wildcard.tuple.text then .ok (.wildcard .tuple span)
  else if isPlainNumber word then
    match readNumber? word with
    | some x => .ok (.number x span)
    | none => rejectAt position (.unrepresentable word)
  else if word.isName then .ok (.name word span)
  else if word.isEmpty then rejectAt position .empty
  else rejectAt position (.unknownForm word)

section Layer

variable (inner : Nat → Text → Parsed Tree)

/-- Reads the argument groups of a call, between which there may be blanks. -/
def parseGroups (position : Nat) : List Part → Parsed (List Tree)
  | [] => .ok []
  | .plain b :: parts =>
    if Byte.isBlank b then parseGroups (position + 1) parts
    else rejectAt position (.betweenGroups b)
  | .group text :: parts => do
    let arg ← inner position text
    let args ← parseGroups (position + text.length + 2) parts
    return arg :: args

/-- Reads an item with its surrounding blanks removed. -/
def parseTrimmed (position : Nat) (parts : List Part) : Parsed Tree :=
  match parts with
  | [.group text] => inner position text
  | _ =>
    let word : Text := (parts.takeWhile (·.plain?.isSome)).filterMap Part.plain?
    match parts.dropWhile (·.plain?.isSome) with
    | [] => parseWord position word
    | groups =>
      let function := word.trim
      if function.isName then do
        let args ← parseGroups inner (position + word.length) groups
        return .call function args (.ofExtent position (Part.widths parts))
      else
        rejectAt position (.noFunctionName function)

/-- Reads an item. -/
def parseItem (position : Nat) (parts : List Part) : Parsed Tree :=
  parseTrimmed inner (position + leadingBy Part.isBlank parts) (trimBy Part.isBlank parts)

/-- Reads the items that are separated by commas, from left to right. -/
def parseItems (position : Nat) : List (List Part) → Parsed (List Tree)
  | [] => .ok []
  | item :: items => do
    let tree ← parseItem inner position item
    let trees ← parseItems (position + Part.widths item + 1) items
    return tree :: trees

/-- Reads a text that has no surrounding blanks.  A bracket that closes nothing is reported before
anything else, and a bracket that is never closed after the items before the one it is in. -/
def parseLayer (position : Nat) (text : Text) : Parsed Tree :=
  let layer := Layer.ofText text
  let (first, others) := segments layer.parts
  match layer.ending with
  | .unopened _ => rejectAt (position + Part.widths layer.parts) .neverOpened
  | .unclosed _ => do
    let _ ← parseItems inner position (first :: others).dropLast
    rejectAt (position + Part.widths layer.parts) .neverClosed
  | .complete =>
    match others with
    | [] => parseItem inner position first
    | _ => do
      let items ← parseItems inner position (first :: others)
      return .tuple items (.ofExtent position text.length)

/-- Reads a text. -/
def parseWith (position : Nat) (text : Text) : Parsed Tree :=
  parseLayer inner (position + text.leadingBlanks) text.trim

end Layer

/-- Reads the text inside two brackets, the first of which is at the given position.  At most
`room` brackets, this one included, may be open at once. -/
def parseInner : (room : Nat) → (position : Nat) → (text : Text) → Parsed Tree
  | 0, position, _ => rejectAt position .tooDeep
  | room + 1, position, text => parseWith (parseInner room) (position + 1) text

/-- Reads a command.  Positions count from the given offset. -/
def parse (text : Text) (offset : Nat) : Parsed Tree :=
  parseWith (parseInner maxNesting) offset text

end Tree

end Sketch
