import Sketch.Proofs.Results

/-!
# Requests in sequence

A registry is asked to carry out commands, and to reduce and draw trees, one request after the
other.  All requests share one trail: a request starts at the trail that the one before it
leaves.

Every call that is entered is left, however deep inside of it an error is raised.  So a request
leaves the trail as it found it, and what has been asked before does not matter
(`Registry.answers_unaffected`).
-/

namespace Sketch

/-- What a registry can be asked for. -/
inductive Request where
  /-- To carry out a command. -/
  | execute (command : Text)
  /-- To reduce a tree. -/
  | reduce (tree : Tree)
  /-- To draw a tree. -/
  | draw (tree : Tree)
  /-- To add the figures of a tree to those made before. -/
  | collect (tree : Tree) (figures : List Figure)

/-- What is answered to a request.  Every answer says whether the request fails, and by which
error. -/
inductive Answer where
  /-- What becomes of a command. -/
  | outcome (result : Except CommandError Outcome)
  /-- The reduced tree. -/
  | tree (result : Except CommandError Tree)
  /-- The figures of a tree. -/
  | figures (result : Except CommandError (List Figure))
  /-- The figures made until the end or up to an error. -/
  | collected (figures : List Figure) (error : Option CommandError)

namespace Registry

variable (registry : Registry)

open Tracked

/-- Does what is asked for. -/
def answer : Request → StateM Trail Answer
  | .execute command => do
    return .outcome (← (registry.execute command).run)
  | .reduce tree => do
    return .tree (← (registry.reduce tree).run)
  | .draw tree => do
    return .figures (← (registry.draw tree).run)
  | .collect tree figures => do
    let (figures, error) ← registry.collect tree figures
    return .collected figures error

/-- Does what is asked for by one request after the other.  Each answer comes with the trail that
the request leaves. -/
def answerAll (trail : Trail) : List Request → List (Answer × Trail)
  | [] => []
  | request :: requests =>
    let answered := (registry.answer request).run trail
    answered :: answerAll answered.2 requests

theorem collect_keeps_trail (t : Tree) (figures : List Figure) (trail : Trail) :
  ((registry.collect t figures).run trail).2 = trail
  := by
  obtain ⟨made, error, -, hrun⟩ := registry.addsFigures_collect t trail
  rw [hrun]

/-- A request leaves the trail as it found it. -/
theorem answer_keeps_trail (request : Request) (trail : Trail) :
  ((registry.answer request).run trail).2 = trail
  := by
  cases request with
  | execute command => apply registry.balanced_execute command trail
  | reduce t => apply registry.balanced_reduce t trail
  | draw t => apply registry.balanced_draw t trail
  | collect t figures => apply registry.collect_keeps_trail t figures trail

/-- Requests are answered one by one, each at the same trail. -/
theorem answerAll_eq_map (trail : Trail) (requests : List Request) :
  registry.answerAll trail requests
    = requests.map fun request => (((registry.answer request).run trail).1, trail)
  := by
  induction requests with
  | nil => rfl
  | cons request requests ih =>
    have hrun : (registry.answer request).run trail
        = (((registry.answer request).run trail).1, trail) :=
      Prod.ext rfl (registry.answer_keeps_trail request trail)
    rw [answerAll, List.map_cons, registry.answer_keeps_trail, ih, ← hrun]

/-- Every request leaves the trail as it found it, whether it succeeds or fails.  Therefore it is
answered as if it were the first one: whatever has been asked before, a command has the outcome
that it has on its own, or fails by the same error. -/
theorem answers_unaffected (trail : Trail) (requests : List Request) :
  registry.answerAll trail requests
      = requests.map (fun request => (((registry.answer request).run trail).1, trail))
    ∧ ∀ command, (registry.answerAll trail (requests ++ [.execute command])).getLast?
      = some (.outcome ((registry.execute command).result trail), trail)
  := by
  constructor
  · apply registry.answerAll_eq_map
  · intro command
    rw [answerAll_eq_map, List.map_append, List.map_singleton, List.getLast?_concat]
    rfl

end Registry

end Sketch
