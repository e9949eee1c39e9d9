import Sketch.Source.Basic

/-!
# Libraries of sources

A library numbers the sources that are added to it, in order, and keeps an index of their names.
Adding a source under a name that is there already changes nothing.  Everything else that is asked
of a library is asked by the number of a source.
-/

namespace Sketch

/-- The number of a source in a library. -/
abbrev Library.Id := UInt32

/-- A library of sources. -/
structure Library where
  /-- The sources, in the order in which they were added. -/
  sources : List Source
  /-- The numbers of the sources by their names. -/
  index : List (Text × Library.Id)

namespace Library

/-- Why a library does not answer. -/
inductive Rejection where
  /-- No source has the number that is asked for. -/
  | unknownId
deriving DecidableEq

/-- A rejection in words. -/
def Rejection.message : Rejection → Text
  | unknownId => utf8 "Invalid SourceId"

/-- The library without sources. -/
def empty : Library := ⟨[], []⟩

/-- Adds a source.  If there is one of that name, it stays and its number is returned. -/
def add (library : Library) (source : Source) : Library × Id :=
  match library.index.lookup source.name with
  | some id => (library, id)
  | none =>
    let id : Id := .ofNat library.sources.length
    (⟨library.sources ++ [source], (source.name, id) :: library.index⟩, id)

variable (library : Library) (id : Id)

/-- The source of the given number. -/
def get : Except Rejection Source :=
  match library.sources[id.toNat]? with
  | some source => .ok source
  | none => .error .unknownId

/-- The name of the source of the given number. -/
def name : Except Rejection Text := (library.get id).map Source.name

/-- The text of the source of the given number. -/
def contents : Except Rejection Text := (library.get id).map Source.contents

/-- The number of lines of the source of the given number. -/
def lineCount : Except Rejection Nat := (library.get id).map Source.lineCount

/-- The text of a line of the source of the given number. -/
def lineText (line : Nat) : Except Rejection Text :=
  (library.get id).map fun source => source.lineText line

/-- The column at which a span starts in a line of the source of the given number. -/
def column (line : Nat) (span : Span) : Except Rejection Nat :=
  (library.get id).map fun source => (source.line line).column span

/-- Says where a span is in a line of the source of the given number. -/
def excerpt (line : Nat) (span : Span) : Except Rejection Text :=
  (library.get id).map fun source => (source.line line).excerpt span

end Library

end Sketch
