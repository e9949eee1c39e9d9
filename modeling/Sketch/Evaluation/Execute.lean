import Sketch.Evaluation.Draw
import Sketch.Evaluation.Reduce

/-!
# Carrying out commands

A command is read, reduced and drawn.
-/

namespace Sketch

/-- What becomes of a command. -/
structure Outcome where
  /-- The tree of the command. -/
  parsed : Tree
  /-- The reduced tree. -/
  reduced : Tree
  /-- The figures. -/
  figures : List Figure

/-- Reads a command. -/
def Tree.read (command : Text) : Tracked Tree :=
  match Tree.parse command 0 with
  | .ok tree => return tree
  | .error e => throw (.unreadable e)

namespace Registry

variable (registry : Registry)

/-- Carries out a command. -/
def execute (command : Text) : Tracked Outcome := do
  let parsed ← Tree.read command
  let reduced ← registry.reduce parsed
  let figures ← registry.draw reduced
  return ⟨parsed, reduced, figures⟩

/-- The figures of a command. -/
def figures (command : Text) : Tracked (List Figure) := do
  return (← registry.execute command).figures

/-- Carries out a command, starting from an empty trail. -/
def outcome (command : Text) : Except CommandError Outcome :=
  ((registry.execute command).run.run []).1

end Registry

end Sketch
