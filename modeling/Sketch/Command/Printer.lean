import Sketch.Command.Tree
import Sketch.Number.Decimal

/-!
# Writing trees

`Tree.command` writes a tree in the way commands are written: tuples inside tuples get
brackets, and every argument of a call stands in a pair of brackets of its own.  `Tree.outline`
spells out the shape of a tree with the kind of each node.
-/

namespace Sketch

/-- The kind of a wildcard, spelled out. -/
def Wildcard.outline : Wildcard → Text
  | .number => utf8 "Variable(Number)"
  | .tuple => utf8 "Variable(NumberTuple)"

namespace Tree

/-- A text between double quotes. -/
def doubleQuoted (t : Text) : Text := utf8 "\"" ++ t ++ utf8 "\""

mutual

/-- A tree written as a command.  A tuple that is an item of another one is bracketed. -/
def commandWithin (inTuple : Bool) : Tree → Text
  | number x _ => numberText x
  | name n _ => n
  | tuple items _ =>
    let written := Text.commaSeparated (commandItems items)
    if inTuple then Text.bracketed written else written
  | call n args _ => n ++ commandGroups args
  | wildcard kind _ => kind.text

/-- The items of a tuple, each written as a command. -/
def commandItems : List Tree → List Text
  | [] => []
  | t :: ts => commandWithin true t :: commandItems ts

/-- The arguments of a call, each in a pair of brackets. -/
def commandGroups : List Tree → Text
  | [] => []
  | t :: ts => Text.bracketed (commandWithin false t) ++ commandGroups ts

end

/-- Items are written one by one, as inside of a tuple. -/
theorem commandItems_eq_map (ts : List Tree) :
  commandItems ts = ts.map (commandWithin true)
  := by
  induction ts with
  | nil => rfl
  | cons t ts ih => rw [commandItems, ih, List.map_cons]

/-- Arguments are written one by one, each in brackets. -/
theorem commandGroups_eq_flatMap (ts : List Tree) :
  commandGroups ts = ts.flatMap fun t => Text.bracketed (commandWithin false t)
  := by
  induction ts with
  | nil => rfl
  | cons t ts ih => rw [commandGroups, ih, List.flatMap_cons]

/-- A tree written as a command. -/
def command (t : Tree) : Text := commandWithin false t

mutual

/-- A tree with the kind of each node spelled out. -/
def outline : Tree → Text
  | number x _ => utf8 "Number" ++ Text.bracketed (numberText x)
  | name n _ => utf8 "Identifier" ++ Text.bracketed (doubleQuoted n)
  | tuple items _ =>
    utf8 "Expression([" ++ Text.commaSeparated (outlineEach items) ++ utf8 "])"
  | call n args _ =>
    utf8 "Function(" ++ doubleQuoted n ++ utf8 ", ["
      ++ Text.commaSeparated (outlineEach args) ++ utf8 "])"
  | wildcard kind _ => kind.outline

/-- The outlines of a list of trees. -/
def outlineEach : List Tree → List Text
  | [] => []
  | t :: ts => outline t :: outlineEach ts

end

theorem outlineEach_eq_map (ts : List Tree) :
  outlineEach ts = ts.map outline
  := by
  induction ts with
  | nil => rfl
  | cons t ts ih => rw [outlineEach, ih, List.map_cons]

end Tree

end Sketch
