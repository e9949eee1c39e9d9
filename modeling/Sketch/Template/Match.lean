import Sketch.Command.Printer
import Sketch.Template.Capture

/-!
# Matching against templates

A tree matches a template if it is the template with each wildcard replaced by a number or by a
tuple of numbers; `Tree.capture` finds the replacements, in the order in which the wildcards
stand in the template.  Template and tree are walked together from left to right, and the first
place where they differ decides: it is an error if the tree has a wildcard there, or a name
where the template has a wildcard, and otherwise the tree does not match.
-/

namespace Sketch

/-- Why a tree must not be matched. -/
inductive MatchError where
  /-- The tree has a wildcard. -/
  | wildcardInTree (kind : Wildcard) (span : Span)
  /-- A name stands in the place of a wildcard. -/
  | nameForWildcard (name : Text) (span : Span)

namespace MatchError

/-- The span of the subtree that is in the way. -/
def span : MatchError → Span
  | wildcardInTree _ s | nameForWildcard _ s => s

/-- An error in words. -/
def detail : MatchError → Text
  | wildcardInTree kind _ =>
    utf8 "Wildcard found in the matched expression: " ++ kind.text
  | nameForWildcard name _ =>
    utf8 "Binding the name " ++ Text.quoted name ++ utf8 " to a wildcard is not supported"

/-- The message of an error. -/
def message (e : MatchError) : Text := e.detail.untilNul

end MatchError

/-- The outcome of matching: an error, no match, or the captures. -/
abbrev Matched := Except MatchError (Option Captures)

namespace Matched

/-- The outcome of two matches one after the other.  If the first one does not succeed, the second
one does not count. -/
def andThen (first second : Matched) : Matched :=
  match first with
  | .ok (some cs) =>
    match second with
    | .ok (some ds) => .ok (some (cs ++ ds))
    | other => other
  | other => other

end Matched

namespace Tree

mutual

/-- Matches a tree against a template. -/
def capture : (tree template : Tree) → Matched
  | wildcard kind s, _ => .error (.wildcardInTree kind s)
  | name n s, wildcard _ _ => .error (.nameForWildcard n s)
  | number x _, wildcard .number _ => .ok (some [.number x])
  | tuple items _, wildcard .tuple _ => .ok ((numbers? items).map fun xs => [.tuple xs])
  | _, wildcard _ _ => .ok none
  | number x _, number y _ => .ok (if y == x then some [] else none)
  | name m _, name n _ => .ok (if n == m then some [] else none)
  | tuple ts _, tuple us _ =>
    if ts.length = us.length then captureList ts us else .ok none
  | call m ts _, call n us _ =>
    if n == m && ts.length = us.length then captureList ts us else .ok none
  | _, _ => .ok none

/-- Matches trees against templates, from left to right. -/
def captureList : (trees templates : List Tree) → Matched
  | [], [] => .ok (some [])
  | t :: ts, u :: us => (capture t u).andThen (captureList ts us)
  | _, _ => .ok none

end

end Tree

end Sketch
