import Sketch.Figure.Basic

/-!
# Putting figures on paper

A backend says how points and straight lines are drawn.  Figures are rendered by drawing their
shapes with it, in order.
-/

namespace Sketch

/-- How shapes are drawn, by actions in `m`. -/
structure Backend (m : Type → Type) where
  /-- Draws a point. -/
  drawPoint (position : Coordinates) : m Unit
  /-- Draws a straight line. -/
  drawLine (start stop : Coordinates) : m Unit

namespace Backend

variable {m : Type → Type} (backend : Backend m)

/-- Draws a shape. -/
def drawShape : Shape → m Unit
  | .point p => backend.drawPoint p
  | .line p q => backend.drawLine p q

variable [Monad m]

/-- Draws the shapes of a figure, one after the other. -/
def render (figure : Figure) : m Unit := figure.shapes.forM backend.drawShape

/-- Renders figures, one after the other. -/
def renderAll (figures : List Figure) : m Unit := figures.forM backend.render

end Backend

end Sketch
