import Sketch.Figure.Basic
import Sketch.Span
import Sketch.Template.Capture

/-!
# Faults

Applying a function to the captures of its template can fail: by a fault, which may name the span
it concerns, or because the function asks for a capture that its template does not have, or for a
number that the capture does not have.
-/

namespace Sketch

/-- What goes wrong when a function is applied. -/
inductive Fault where
  /-- The divisor counts as zero. -/
  | divisionByZero
  /-- An argument should be a number, and is a tuple. -/
  | numberExpected (found : Capture)
  /-- An argument should be a tuple, and is a number. -/
  | tupleExpected (found : Capture)
  /-- The coordinates of a curve do not make up pairs for at least two points. -/
  | unpairedCoordinates (count : Nat)
  /-- A curve has too few vertices. -/
  | tooFewVertices (count : Nat)
  /-- Anything else, in words. -/
  | other (message : Text)

/-- A fault in words. -/
def Fault.detail : Fault → Text
  | divisionByZero => utf8 "Cannot divide by zero"
  | numberExpected found =>
    utf8 "Type mismatch: expected a number but the argument is " ++ found.text
  | tupleExpected found =>
    utf8 "Type mismatch: expected a number tuple but the argument is " ++ found.text
  | unpairedCoordinates count =>
    utf8 "curve expects x/y pairs for at least two points, got " ++ numeral count
      ++ utf8 " values"
  | tooFewVertices count =>
    utf8 "A curve needs at least two vertices, got " ++ numeral count
  | other message => message

/-- How the application of a function fails. -/
inductive Failure where
  /-- By a fault that concerns a span. -/
  | fault (cause : Fault) (span : Span)
  /-- By asking for a capture, or for a number in one, that does not exist. -/
  | missingCapture

/-- Results of applying functions. -/
abbrev Applied (α : Type) := Except Failure α

/-- The failure by a fault that names no span. -/
def fails {α : Type} (cause : Fault) : Applied α := .error (.fault cause .nowhere)

namespace Capture

/-- The number that a capture is. -/
def asNumber : Capture → Applied Number
  | number x => .ok x
  | found => fails (.numberExpected found)

/-- The tuple that a capture is. -/
def asTuple : Capture → Applied (List Number)
  | tuple xs => .ok xs
  | found => fails (.tupleExpected found)

end Capture

namespace Captures

/-- The capture at an index. -/
def get (captures : Captures) (i : Nat) : Applied Capture :=
  match captures[i]? with
  | some c => .ok c
  | none => .error .missingCapture

/-- The number at an index. -/
def number (captures : Captures) (i : Nat) : Applied Number := do
  (← captures.get i).asNumber

/-- The tuple at an index. -/
def tuple (captures : Captures) (i : Nat) : Applied (List Number) := do
  (← captures.get i).asTuple

end Captures

/-- The curve that joins the given vertices, of which there must be at least two. -/
def Figure.join (vertices : List Coordinates) : Applied Figure :=
  if vertices.length < 2 then fails (.tooFewVertices vertices.length)
  else .ok (.curve vertices)

end Sketch
