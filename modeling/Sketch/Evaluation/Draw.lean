import Sketch.Evaluation.Error
import Sketch.Registry.Basic

/-!
# Drawing

Drawing a reduced tree makes one figure for each call in it, from left to right.  Only calls that
are reached through tuples are drawn, never those inside the arguments of a call.
-/

namespace Sketch

namespace Registry

variable (registry : Registry)

/-- Makes the figure of a call. -/
def drawCall (name : Text) (args : List Tree) (span : Span) : Tracked Figure :=
  let call := .call name args span
  Tracked.inside ⟨utf8 "drawing call", name⟩ do
    match registry.drawings.find call with
    | .error e => throw (.drawingUnmatchable (← get) e)
    | .ok none => throw (.undrawable call)
    | .ok (some hit) => Tracked.ofApplied span (hit.pattern.behaviour hit.captures)

mutual

/-- Adds the figures of a tree to those made before.  An error ends this; the figures made so far
stay. -/
def collect : Tree → List Figure → StateM Trail (List Figure × Option CommandError)
  | .tuple items _, figures => collectList items figures
  | .call name args span, figures => do
    match ← (drawCall registry name args span).run with
    | .ok figure => return (figures ++ [figure], none)
    | .error e => return (figures, some e)
  | _, figures => return (figures, none)

/-- Adds the figures of trees, from left to right, to those made before. -/
def collectList : List Tree → List Figure → StateM Trail (List Figure × Option CommandError)
  | [], figures => return (figures, none)
  | t :: ts, figures => do
    match ← collect t figures with
    | (figures, none) => collectList ts figures
    | (figures, some e) => return (figures, some e)

end

/-- The figures of a tree. -/
def draw (tree : Tree) : Tracked (List Figure) := ExceptT.mk do
  match ← registry.collect tree [] with
  | (figures, none) => return .ok figures
  | (_, some e) => return .error e

end Registry

end Sketch
