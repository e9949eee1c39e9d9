import Sketch.Text.Blank
import Sketch.Text.Numeral
import Sketch.Span

/-!
# Sources

A source is a named text that commands come from.  Its lines are numbered from `1` on, and end
after each line feed and at the end of the text; they are found by the positions at which they
start.  Errors show the line they are in, with the bytes they concern marked below it.
-/

namespace Sketch

/-- The positions after the line feeds of a text whose first byte is at the given position.  A line
feed at the end of the text does not count. -/
def startsAfter (position : Nat) : Text → List Nat
  | [] => []
  | b :: rest =>
    if b == Byte.lineFeed && !rest.isEmpty then (position + 1) :: startsAfter (position + 1) rest
    else startsAfter (position + 1) rest

/-- The positions at which the lines of a text start.  The first one is there even if the text is
empty. -/
def lineStarts (t : Text) : List Nat := 0 :: startsAfter 0 t

/-- The bytes of a text from one position up to, and not including, another one. -/
def Text.between (t : Text) (start stop : Nat) : Text := (t.drop start).take (stop - start)

/-- Whether a byte belongs to the end of a line. -/
def Byte.isLineEnd (b : UInt8) : Bool := b == lineFeed || b == carriageReturn

/-- A line of a source. -/
structure Line where
  /-- The name of the source. -/
  source : Text
  /-- The number of the line. -/
  number : Nat
  /-- The text of the line, without its end. -/
  text : Text

namespace Line

/-- The column at which a span starts.  Columns count from `1` on, and go up to the one after the
last byte. -/
def column (line : Line) (span : Span) : Nat :=
  if span.isPlaced then min span.start.toNat line.text.length + 1 else 1

/-- A row of an excerpt: what stands in the margin, and what stands beside it. -/
def row (margin text : Text) : Text := utf8 "\n " ++ margin ++ utf8 " | " ++ text

/-- Says where a span is.  If it is somewhere, the line follows, with the bytes of the span marked
in the row below it. -/
def excerpt (line : Line) (span : Span) : Text :=
  let margin := numeral line.number
  let column := line.column span
  let place := line.source ++ utf8 ":" ++ margin ++ utf8 ":" ++ numeral column
  if span.isPlaced then
    let marks := List.replicate (column - 1) Byte.space
      ++ List.replicate (max span.length 1) Byte.caret
    place ++ row margin line.text ++ row (List.replicate margin.length Byte.space) marks
  else
    place

end Line

/-- A named text. -/
structure Source where
  /-- The name. -/
  name : Text
  /-- The text. -/
  contents : Text

namespace Source

/-- The number of lines.  An empty text has none. -/
def lineCount (source : Source) : Nat :=
  if source.contents.isEmpty then 0 else (lineStarts source.contents).length

/-- The text of the line of the given number, without its end.  A line goes up to the start of the
next one, or to the end of the text.  Lines that do not exist are empty. -/
def lineText (source : Source) : Nat → Text
  | 0 => []
  | i + 1 =>
    let starts := lineStarts source.contents
    match starts[i]? with
    | none => []
    | some start =>
      let stop := (starts[i + 1]?).getD source.contents.length
      trimEndBy Byte.isLineEnd (source.contents.between start stop)

/-- The line of the given number. -/
def line (source : Source) (number : Nat) : Line :=
  ⟨source.name, number, source.lineText number⟩

/-- The lines. -/
def lines (source : Source) : List Line :=
  (List.range source.lineCount).map fun i => source.line (i + 1)

end Source

end Sketch
