import Sketch.Number.Basic
import Sketch.Text.Basic
import Sketch.Span

/-!
# Command trees

A command denotes a tree of numbers, names, tuples, calls and wildcards.  Each node knows the
span of the command text it comes from.  Wildcards stand for arguments in templates.

Two trees are equal, written `==`, if they have the same shape, names and wildcards, and equal
numbers.  Spans do not count, and numbers are compared as numbers: the two zeros are equal, and
a NaN differs from itself.
-/

namespace Sketch

/-- The wildcards of templates. -/
inductive Wildcard where
  /-- Stands for one number. -/
  | number
  /-- Stands for a tuple of numbers. -/
  | tuple
deriving DecidableEq

namespace Wildcard

/-- How a wildcard is written. -/
def symbol : Wildcard → String
  | number => "\x7b\x7d"
  | tuple => "\x7b..\x7d"

/-- A wildcard as a text. -/
def text (kind : Wildcard) : Text := utf8 kind.symbol

end Wildcard

/-- Command trees. -/
inductive Tree where
  /-- A number. -/
  | number (value : Number) (span : Span)
  /-- A name that is not called. -/
  | name (name : Text) (span : Span)
  /-- Items separated by commas. -/
  | tuple (items : List Tree) (span : Span)
  /-- The call of a function, with one argument for each pair of brackets. -/
  | call (name : Text) (args : List Tree) (span : Span)
  /-- A wildcard. -/
  | wildcard (kind : Wildcard) (span : Span)

namespace Tree

/-- The span of a tree's root. -/
def span : Tree → Span
  | number _ s | name _ s | tuple _ s | call _ _ s | wildcard _ s => s

/-- The tree with another span at its root. -/
def withSpan (s : Span) : Tree → Tree
  | number x _ => number x s
  | name n _ => name n s
  | tuple items _ => tuple items s
  | call n args _ => call n args s
  | wildcard kind _ => wildcard kind s

@[simp]
theorem span_withSpan (s : Span) (t : Tree) :
  (t.withSpan s).span = s
  := by
  cases t
  · rfl
  · rfl
  · rfl
  · rfl
  · rfl

/-- Induction on trees: what holds of a tuple or call if it holds of its members, and holds of all
other trees, holds of every tree. -/
@[elab_as_elim]
theorem induction {motive : Tree → Prop}
    (number : ∀ x s, motive (number x s))
    (name : ∀ n s, motive (name n s))
    (tuple : ∀ items s, (∀ t ∈ items, motive t) → motive (tuple items s))
    (call : ∀ n args s, (∀ t ∈ args, motive t) → motive (call n args s))
    (wildcard : ∀ kind s, motive (wildcard kind s)) :
  ∀ t, motive t
  | .number x s => number x s
  | .name n s => name n s
  | .tuple items s =>
    tuple items s fun t _ => induction number name tuple call wildcard t
  | .call n args s =>
    call n args s fun t _ => induction number name tuple call wildcard t
  | .wildcard kind s => wildcard kind s

mutual

/-- Whether two trees are equal apart from their spans. -/
def same : Tree → Tree → Bool
  | number x _, number y _ => x == y
  | name m _, name n _ => m == n
  | tuple ts _, tuple us _ => sameList ts us
  | call m ts _, call n us _ => m == n && sameList ts us
  | wildcard v _, wildcard w _ => v == w
  | _, _ => false

/-- Whether two lists of trees are equal apart from spans. -/
def sameList : List Tree → List Tree → Bool
  | [], [] => true
  | t :: ts, u :: us => same t u && sameList ts us
  | _, _ => false

end

instance : BEq Tree := ⟨same⟩

/-- The number at a leaf, if it is one. -/
def number? : Tree → Option Number
  | number x _ => some x
  | _ => none

/-- The numbers of a list of trees, if they are all numbers. -/
def numbers? (ts : List Tree) : Option (List Number) := ts.mapM number?

end Tree

end Sketch
