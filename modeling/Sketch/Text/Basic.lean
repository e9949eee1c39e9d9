/-!
# Texts

A text is a list of bytes.  Commands, names, messages and source files are texts: nothing in
this library depends on how bytes are grouped into characters, and every position, length and
column counts bytes.  This module names the bytes that carry meaning, and the classes of bytes
that names and numbers are made of.
-/

namespace Sketch

/-- A text is a list of bytes. -/
abbrev Text := List UInt8

/-- The bytes of a string. -/
def utf8 (s : String) : Text := s.toByteArray.data.toList

namespace Byte

/-- The byte `(`. -/
def openBracket : UInt8 := 40

/-- The byte `)`. -/
def closeBracket : UInt8 := 41

/-- The byte `+`. -/
def plus : UInt8 := 43

/-- The byte `,`. -/
def comma : UInt8 := 44

/-- The byte `-`. -/
def minus : UInt8 := 45

/-- The byte `.`. -/
def point : UInt8 := 46

/-- The byte `0`. -/
def zero : UInt8 := 48

/-- The byte `_`. -/
def underscore : UInt8 := 95

/-- The byte `#`. -/
def hash : UInt8 := 35

/-- The byte `^`. -/
def caret : UInt8 := 94

/-- The space. -/
def space : UInt8 := 32

/-- The line feed, which ends a line. -/
def lineFeed : UInt8 := 10

/-- The carriage return. -/
def carriageReturn : UInt8 := 13

/-- Blank bytes: the space, and the five control bytes from the tab to the carriage return. -/
def isBlank (b : UInt8) : Bool := b == 32 || (9 ≤ b && b ≤ 13)

/-- Decimal digits. -/
def isDigit (b : UInt8) : Bool := 48 ≤ b && b ≤ 57

/-- The bytes a name may start with: unaccented letters and the underscore. -/
def isNameStart (b : UInt8) : Bool :=
  (65 ≤ b && b ≤ 90) || (97 ≤ b && b ≤ 122) || b == underscore

/-- The bytes a name may go on with. -/
def isNameByte (b : UInt8) : Bool := isNameStart b || isDigit b

end Byte

namespace Text

/-- A name is a letter or underscore followed by letters, underscores and digits. -/
def isName : Text → Bool
  | [] => false
  | b :: rest => Byte.isNameStart b && rest.all Byte.isNameByte

/-- The part of a text before its first zero byte.  Messages end there. -/
def untilNul (t : Text) : Text := t.takeWhile (· != 0)

/-- The given texts, separated by a comma and a space. -/
def commaSeparated (ts : List Text) : Text := (utf8 ", ").intercalate ts

/-- A text between round brackets. -/
def bracketed (t : Text) : Text := Byte.openBracket :: t ++ [Byte.closeBracket]

/-- A text between single quotes. -/
def quoted (t : Text) : Text := utf8 "'" ++ t ++ utf8 "'"

end Text

end Sketch
