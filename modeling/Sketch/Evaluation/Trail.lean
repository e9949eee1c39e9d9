import Sketch.Text.Basic

/-!
# Trails

While a command is evaluated, the trail says which calls the evaluation is inside of.  Messages
of errors start with it.
-/

namespace Sketch

/-- One step of a trail: what is being done, and the function it is done to. -/
structure Frame where
  /-- What is being done. -/
  stage : Text
  /-- The function it is done to.  It is left out if it is empty. -/
  function : Text

/-- The text of a frame. -/
def Frame.text (frame : Frame) : Text :=
  if frame.function.isEmpty then frame.stage
  else frame.stage ++ utf8 " " ++ Text.quoted frame.function

/-- The calls that an evaluation is inside of, the innermost one first. -/
abbrev Trail := List Frame

namespace Trail

/-- The trail after entering a call. -/
def enter (trail : Trail) (frame : Frame) : Trail := frame :: trail

/-- The trail after leaving the innermost call, if there is one. -/
def leave (trail : Trail) : Trail := trail.tail

@[simp]
theorem leave_enter (trail : Trail) (frame : Frame) :
  (trail.enter frame).leave = trail
  := rfl

/-- The frames from the outermost to the innermost one. -/
def path (trail : Trail) : Text :=
  (utf8 " -> ").intercalate (trail.reverse.map Frame.text)

/-- A message, with the trail that led to it in front. -/
def explain (trail : Trail) (message : Text) : Text :=
  if trail.isEmpty then message
  else utf8 "In " ++ trail.path ++ utf8 ": " ++ message

end Trail

end Sketch
