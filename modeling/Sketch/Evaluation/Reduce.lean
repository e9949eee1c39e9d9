import Sketch.Evaluation.Error
import Sketch.Registry.Basic

/-!
# Reduction

Reducing a tree replaces each call of a function that computes a tree by what it computes, from
the inside out and from left to right.  Other calls keep their place, with reduced arguments.
-/

namespace Sketch

namespace Registry

variable (registry : Registry)

/-- Whether calls of the given name are replaced when a tree is reduced. -/
def reduces (name : Text) : Bool :=
  !registry.drawings.hasName name && registry.reductions.hasName name

/-- Replaces a call, whose arguments are reduced already, by what its function computes.  A result
that comes from no command gets the span of the call. -/
def applyCall (name : Text) (args : List Tree) (span : Span) : Tracked Tree :=
  let call := .call name args span
  if registry.reduces name then
    match registry.reductions.find call with
    | .error e => Tracked.failEvaluation (.unmatchable e) e.span
    | .ok none => Tracked.failEvaluation (.unmatched call) span
    | .ok (some hit) => do
      let result ← Tracked.ofApplied span (hit.pattern.behaviour hit.captures)
      return result.withSpan (result.span.orElse span)
  else
    return call

mutual

/-- Reduces a tree. -/
def reduce : Tree → Tracked Tree
  | .tuple items span => do
    return .tuple (← reduceList items) span
  | .call name args span =>
    Tracked.inside ⟨utf8 "call", name⟩ do
      applyCall registry name (← reduceList args) span
  | leaf => return leaf

/-- Reduces trees from left to right. -/
def reduceList : List Tree → Tracked (List Tree)
  | [] => return []
  | t :: ts => do
    let reduced ← reduce t
    return reduced :: (← reduceList ts)

end

end Registry

end Sketch
