import Sketch.Number.Arithmetic
import Sketch.Registry.Basic

/-!
# The functions that are always there

Arithmetic on numbers, the midpoint of two points of the plane, and the drawing of points, lines
and curves.
-/

namespace Sketch

namespace Builtin

/-- The wildcard for one number. -/
def one : String := Wildcard.number.symbol

/-- The wildcard for a tuple of numbers. -/
def many : String := Wildcard.tuple.symbol

/-- A number that comes from no command. -/
def number (x : Number) : Tree := .number x .nowhere

/-- An operation on two numbers. -/
def binary (operation : Number → Number → Applied Number) : Behaviour Tree := fun captures => do
  let x ← captures.number 0
  let y ← captures.number 1
  return number (← operation x y)

/-- The quotient of two numbers. -/
def divide (x y : Number) : Applied Number :=
  if y.isNegligible then fails .divisionByZero else .ok (x / y)

/-- The negative of a number. -/
def negate : Behaviour Tree := fun captures => do
  return number (-(← captures.number 0))

/-- The sum of a tuple of numbers, added from left to right. -/
def sum : Behaviour Tree := fun captures => do
  return number ((← captures.tuple 0).foldl (· + ·) 0)

/-- The point halfway between two points of the plane. -/
def midpoint : Behaviour Tree := fun captures => do
  let x₁ ← captures.number 0
  let x₂ ← captures.number 2
  let y₁ ← captures.number 1
  let y₂ ← captures.number 3
  return .tuple [number ((x₁ + x₂) / 2), number ((y₁ + y₂) / 2)] .nowhere

/-- The numbers at the given indices. -/
def coordinates (captures : Captures) (indices : List Nat) : Applied Coordinates :=
  indices.mapM captures.number

/-- A point whose coordinates are the first captures, as many as the given dimension. -/
def point (dimension : Nat) : Behaviour Figure := fun captures => do
  return .point (← coordinates captures (List.range dimension))

/-- A line between two points of the plane. -/
def line : Behaviour Figure := fun captures => do
  return .line (← coordinates captures [0, 1]) (← coordinates captures [2, 3])

/-- The number at a position of a tuple. -/
def numberAt (values : List Number) (i : Nat) : Applied Number :=
  match values[i]? with
  | some x => .ok x
  | none => .error .missingCapture

/-- The point of the plane whose coordinates stand at a position of a tuple and at the next one. -/
def pointAt (values : List Number) (i : Nat) : Applied Coordinates := do
  return [← numberAt values i, ← numberAt values (i + 1)]

/-- The points of the plane with the given coordinates, one at every other position. -/
def pairs (values : List Number) : Applied (List Coordinates) :=
  (List.range' 0 ((values.length + 1) / 2) 2).mapM (pointAt values)

/-- A curve through the points with the given coordinates. -/
def curve : Behaviour Figure := fun captures => do
  let values ← captures.tuple 0
  if values.length < 4 ∨ values.length % 2 ≠ 0 then
    fails (.unpairedCoordinates values.length)
  else
    Figure.join (← pairs values)

/-- The declaration of a pattern that computes a tree. -/
def reduction (template : String) (behaviour : Behaviour Tree) : Declaration :=
  .reduction (utf8 template) (some behaviour)

/-- The declaration of a pattern that makes a figure. -/
def drawing (template : String) (behaviour : Behaviour Figure) : Declaration :=
  .drawing (utf8 template) (some behaviour)

/-- Arithmetic.  Operations on two numbers take them as a pair or one by one. -/
def arithmetic : List Declaration :=
  let add := binary fun x y => .ok (x + y)
  let sub := binary fun x y => .ok (x - y)
  let mul := binary fun x y => .ok (x * y)
  let div := binary divide
  [ reduction s!"add({one}, {one})" add,
    reduction s!"add({one})({one})" add,
    reduction s!"sub({one}, {one})" sub,
    reduction s!"sub({one})({one})" sub,
    reduction s!"mul({one}, {one})" mul,
    reduction s!"mul({one})({one})" mul,
    reduction s!"div({one}, {one})" div,
    reduction s!"div({one})({one})" div,
    reduction s!"neg({one})" negate,
    reduction s!"sum({many})" sum,
    reduction s!"mid(({one}, {one}), ({one}, {one}))" midpoint ]

/-- Drawing. -/
def figures : List Declaration :=
  [ drawing s!"point({one}, {one})" (point 2),
    drawing s!"point({one}, {one}, {one})" (point 3),
    drawing s!"line(({one}, {one}), ({one}, {one}))" line,
    drawing s!"curve({many})" curve ]

end Builtin

/-- The registry of the functions that are always there. -/
def Registry.builtin : Registry :=
  (Registry.empty.declareAll (Builtin.arithmetic ++ Builtin.figures)).1

end Sketch
