import Sketch.Number.Decimal

/-!
# Figures

Drawing commands produce figures: points, lines, and curves that join a list of vertices.  A
figure has a text, and is broken into the shapes that are put on paper: points and straight
lines.  Two figures are equal, written `==`, if their texts are.
-/

namespace Sketch

/-- The coordinates of a point, of any dimension. -/
abbrev Coordinates := List Number

/-- The shapes that figures are drawn with. -/
inductive Shape where
  /-- A point. -/
  | point (position : Coordinates)
  /-- A straight line. -/
  | line (start stop : Coordinates)
deriving BEq

/-- Figures. -/
inductive Figure where
  /-- A point. -/
  | point (position : Coordinates)
  /-- A straight line. -/
  | line (start stop : Coordinates)
  /-- The straight lines from each vertex to the next. -/
  | curve (vertices : List Coordinates)

namespace Figure

/-- The text of a figure. -/
def text : Figure → Text
  | point p => utf8 "point" ++ numbersText p
  | line p q => utf8 "line" ++ Text.bracketed (Text.commaSeparated [numbersText p, numbersText q])
  | curve ps => utf8 "curve" ++ Text.bracketed (Text.commaSeparated (ps.map numbersText))

instance : BEq Figure := ⟨fun f g => f.text == g.text⟩

/-- The shapes of a figure. -/
def shapes : Figure → List Shape
  | point p => [.point p]
  | line p q => [.line p q]
  | curve ps => List.zipWith .line ps ps.tail

end Figure

end Sketch
