import Sketch.Command.ParseError
import Sketch.Evaluation.Fault
import Sketch.Evaluation.Trail
import Sketch.Template.Match

/-!
# Errors of commands

A command that is not carried out fails with one of these errors.  Each has a message, and the
span of the command text it concerns.
-/

namespace Sketch

/-- Why the evaluation of a call fails. -/
inductive EvaluationCause where
  /-- The function of a matching pattern fails. -/
  | fault (cause : Fault)
  /-- The call matches no pattern of its function. -/
  | unmatched (call : Tree)
  /-- The call must not be matched. -/
  | unmatchable (reason : MatchError)

/-- A cause in words. -/
def EvaluationCause.detail : EvaluationCause → Text
  | fault cause => cause.detail
  | unmatched call => utf8 "Function does not match any known pattern: " ++ call.command
  | unmatchable reason => reason.detail

/-- Why a command is not carried out. -/
inductive CommandError where
  /-- The text is not a command. -/
  | unreadable (reason : ParseError)
  /-- A call cannot be evaluated. -/
  | evaluation (trail : Trail) (cause : EvaluationCause) (span : Span)
  /-- A call that is to be drawn matches no pattern. -/
  | undrawable (call : Tree)
  /-- A call that is to be drawn must not be matched. -/
  | drawingUnmatchable (trail : Trail) (reason : MatchError)
  /-- A function asks for a capture, or for a number in one, that does not exist. -/
  | missingCapture

namespace CommandError

/-- An error in words. -/
def detail : CommandError → Text
  | unreadable reason => reason.detail
  | evaluation trail cause _ => trail.explain cause.detail
  | undrawable call => utf8 "No drawing command matches " ++ call.command
  | drawingUnmatchable trail reason =>
    trail.explain (utf8 "Invalid syntax: " ++ reason.detail)
  | missingCapture => []

/-- The message of an error. -/
def message (e : CommandError) : Text := e.detail.untilNul

/-- The span that an error concerns. -/
def span : CommandError → Span
  | unreadable reason => reason.span
  | evaluation _ _ s => s
  | undrawable call => call.span
  | drawingUnmatchable _ reason => reason.span
  | missingCapture => .nowhere

end CommandError

/-- Computations that know the trail and may fail.  A failure does not undo what happens to the
trail. -/
abbrev Tracked (α : Type) := ExceptT CommandError (StateM Trail) α

namespace Tracked

variable {α : Type}

/-- The computation inside of a call.  The call is left whether the computation succeeds or
fails. -/
def inside (frame : Frame) (x : Tracked α) : Tracked α :=
  ExceptT.mk fun trail =>
    let (result, after) := x.run.run (trail.enter frame)
    (result, after.leave)

/-- Inside of a frame, the computation sees the frame on the trail, and it is left afterwards. -/
@[simp]
theorem run_inside (frame : Frame) (x : Tracked α) (trail : Trail) :
  (inside frame x).run.run trail
    = ((x.run.run (trail.enter frame)).1, (x.run.run (trail.enter frame)).2.leave)
  := rfl

/-- The failure to evaluate a call, at the current trail. -/
def failEvaluation (cause : EvaluationCause) (span : Span) : Tracked α := do
  throw (.evaluation (← get) cause span)

/-- The result of applying a function in a call of the given span.  A fault that names no span
concerns the whole call. -/
def ofApplied (span : Span) : Applied α → Tracked α
  | .ok a => pure a
  | .error (.fault cause where?) => failEvaluation (.fault cause) (where?.orElse span)
  | .error .missingCapture => throw .missingCapture

end Tracked

end Sketch
