import Sketch.Text.Numeral
import Sketch.Span

/-!
# Parse errors

A text that is no command is rejected with a cause and the position of the byte it concerns.
-/

namespace Sketch

/-- The greatest number of brackets that may be open at once. -/
def maxNesting : Nat := 256

/-- Why a text is not a command. -/
inductive ParseCause where
  /-- An opening bracket is never closed. -/
  | neverClosed
  /-- A closing bracket closes nothing. -/
  | neverOpened
  /-- A number is too large, or too small to differ from zero. -/
  | unrepresentable (literal : Text)
  /-- Brackets are nested too deeply. -/
  | tooDeep
  /-- Argument groups follow something other than a name. -/
  | noFunctionName (found : Text)
  /-- Something stands between the argument groups of a call. -/
  | betweenGroups (found : UInt8)
  /-- Nothing stands where an item is expected. -/
  | empty
  /-- Something stands where an item is expected, and is none. -/
  | unknownForm (found : Text)

/-- The kinds of parse errors. -/
inductive ParseKind where
  | bracketNotClosed
  | extraRightBracket
  | parseNumberFail
  | invalidSyntax
deriving DecidableEq

/-- The name of a kind of parse errors. -/
def ParseKind.name : ParseKind → Text
  | bracketNotClosed => utf8 "BracketNotClosed"
  | extraRightBracket => utf8 "ExtraRightBracket"
  | parseNumberFail => utf8 "ParseNumberFail"
  | invalidSyntax => utf8 "InvalidSyntax"

namespace ParseCause

/-- The kind of error that a cause gives rise to. -/
def kind : ParseCause → ParseKind
  | neverClosed => .bracketNotClosed
  | neverOpened => .extraRightBracket
  | unrepresentable _ => .parseNumberFail
  | tooDeep | noFunctionName _ | betweenGroups _ | empty | unknownForm _ => .invalidSyntax

/-- A cause in words. -/
def detail : ParseCause → Text
  | neverClosed => utf8 "'(' is never closed"
  | neverOpened => utf8 "')' does not close any bracket"
  | unrepresentable literal => Text.quoted literal ++ utf8 " is not a representable number"
  | tooDeep =>
    utf8 "brackets nested deeper than " ++ numeral maxNesting ++ utf8 " levels"
  | noFunctionName found =>
    utf8 "expected a function name before '(', got " ++ Text.quoted found
  | betweenGroups found =>
    utf8 "unexpected " ++ Text.quoted [found] ++ utf8 " between argument groups"
  | empty => utf8 "empty expression"
  | unknownForm found => utf8 "failed to match any known form, got " ++ Text.quoted found

end ParseCause

/-- A parse error: its cause, and the position it is reported at. -/
structure ParseError where
  /-- Why the text is rejected. -/
  cause : ParseCause
  /-- Where, counted from the offset of the text. -/
  position : UInt64

namespace ParseError

/-- The kind of an error. -/
def kind (e : ParseError) : ParseKind := e.cause.kind

/-- The span of an error is the byte at its position. -/
def span (e : ParseError) : Span := .ofExtent e.position.toNat 1

/-- An error in words. -/
def detail (e : ParseError) : Text :=
  e.kind.name ++ utf8 " at position " ++ numeral e.position.toNat ++ utf8 ": " ++ e.cause.detail

/-- The message of an error. -/
def message (e : ParseError) : Text := e.detail.untilNul

end ParseError

end Sketch
