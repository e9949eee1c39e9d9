import Sketch.Number.Decimal

/-!
# Captures

A template that matches a tree captures what its wildcards stand for: a number, or a tuple of
numbers.
-/

namespace Sketch

/-- What a wildcard stands for. -/
inductive Capture where
  /-- A number. -/
  | number (value : Number)
  /-- A tuple of numbers. -/
  | tuple (values : List Number)
deriving BEq

namespace Capture

/-- The text of a capture. -/
def text : Capture → Text
  | number x => numberText x
  | tuple xs => numbersText xs

/-- The numbers of a capture. -/
def values : Capture → List Number
  | number x => [x]
  | tuple xs => xs

end Capture

/-- What the wildcards of a template stand for, in the order in which they stand there. -/
abbrev Captures := List Capture

end Sketch
