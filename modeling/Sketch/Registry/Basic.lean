import Sketch.Command.Parser
import Sketch.Evaluation.Fault
import Sketch.Template.Match

/-!
# Registries

A registry holds the functions that commands may call.  A function is given by patterns, each a
template and what to do with the captures of a call that matches it.  There are two tables of
patterns: reductions compute a tree that replaces the call, drawings make a figure.

Patterns are declared one at a time.  A declaration is refused if its template is not a call, if
the other table has a function of that name, or if its table has an equal template.
-/

namespace Sketch

/-- What a pattern does with its captures. -/
abbrev Behaviour (ρ : Type) := Captures → Applied ρ

/-- A template, which is a call of a function of the given name, and what to do with calls that
match it. -/
structure Pattern (ρ : Type) where
  /-- The name of the function. -/
  name : Text
  /-- The template. -/
  template : Tree
  /-- What to do with the captures of a matching call. -/
  behaviour : Behaviour ρ

/-- A table of patterns. -/
structure Table (ρ : Type) where
  /-- The patterns, in the order in which they are tried. -/
  patterns : List (Pattern ρ)
  /-- The names of the functions that the patterns belong to. -/
  names : List Text

/-- A pattern that a call matches, with its index in the table and the captures. -/
structure Hit (ρ : Type) where
  /-- The index of the pattern. -/
  index : Nat
  /-- The pattern. -/
  pattern : Pattern ρ
  /-- What its wildcards stand for. -/
  captures : Captures

namespace Table

variable {ρ : Type}

/-- The table without patterns. -/
def empty : Table ρ := ⟨[], []⟩

/-- Whether a table has a function of the given name. -/
def hasName (table : Table ρ) (name : Text) : Bool := table.names.contains name

/-- Whether a table has a template equal to the given one. -/
def hasTemplate (table : Table ρ) (template : Tree) : Bool :=
  table.patterns.any fun p => p.template == template

/-- The table with one more pattern, which is tried last. -/
def insert (table : Table ρ) (pattern : Pattern ρ) : Table ρ where
  patterns := table.patterns ++ [pattern]
  names := if table.hasName pattern.name then table.names else table.names ++ [pattern.name]

/-- The first of the given patterns that a tree matches.  Indices count from `index` on. -/
def search (tree : Tree) (index : Nat) : List (Pattern ρ) → Except MatchError (Option (Hit ρ))
  | [] => .ok none
  | p :: ps =>
    match tree.capture p.template with
    | .error e => .error e
    | .ok (some captures) => .ok (some ⟨index, p, captures⟩)
    | .ok none => search tree (index + 1) ps

/-- The first pattern that a tree matches. -/
def find (table : Table ρ) (tree : Tree) : Except MatchError (Option (Hit ρ)) :=
  search tree 0 table.patterns

end Table

/-- The two tables of a registry. -/
inductive Role where
  /-- Functions that compute a tree. -/
  | reduction
  /-- Functions that make a figure. -/
  | drawing
deriving DecidableEq

/-- The name of a table. -/
def Role.word : Role → Text
  | reduction => utf8 "pure"
  | drawing => utf8 "drawing"

/-- A registry. -/
structure Registry where
  /-- The functions that compute a tree. -/
  reductions : Table Tree
  /-- The functions that make a figure. -/
  drawings : Table Figure

/-- Why a declaration is refused. -/
inductive RegistrationError where
  /-- It does not say what the pattern does. -/
  | noBehaviour (role : Role) (template : Text)
  /-- The template is not a command. -/
  | noCommand (role : Role) (template : Text) (reason : ParseError)
  /-- The template is not a call. -/
  | noCall (role : Role) (template : Text)
  /-- The other table has a function of that name. -/
  | nameTaken (owner : Role) (name : Text)
  /-- The table has an equal template. -/
  | repeated (role : Role) (template : Text)

namespace RegistrationError

/-- An error in words. -/
def detail : RegistrationError → Text
  | noBehaviour role template =>
    utf8 "The " ++ role.word ++ utf8 " pattern " ++ Text.quoted template
      ++ utf8 " has no behavior"
  | noCommand role template reason =>
    utf8 "Failed to compile " ++ role.word ++ utf8 " pattern " ++ Text.quoted template
      ++ utf8 ": " ++ reason.detail
  | noCall role template =>
    utf8 "The " ++ role.word ++ utf8 " pattern " ++ Text.quoted template
      ++ utf8 " is not a function call"
  | nameTaken owner name =>
    Text.quoted name ++ utf8 " is already registered as a " ++ owner.word ++ utf8 " function"
  | repeated role template =>
    utf8 "The " ++ role.word ++ utf8 " pattern " ++ Text.quoted template
      ++ utf8 " is registered twice"

/-- The message of an error. -/
def message (e : RegistrationError) : Text := e.detail.untilNul

end RegistrationError

/-- The declaration of a pattern.  One that does not say what the pattern does is refused. -/
inductive Declaration where
  /-- Declares a pattern of a function that computes a tree. -/
  | reduction (template : Text) (behaviour : Option (Behaviour Tree))
  /-- Declares a pattern of a function that makes a figure. -/
  | drawing (template : Text) (behaviour : Option (Behaviour Figure))

namespace Registry

/-- The registry without functions. -/
def empty : Registry := ⟨.empty, .empty⟩

/-- The pattern with the given template, if it may enter the table `own` of patterns of the given
role.  `taken` says which names belong to the other table, whose role is `other`. -/
def accept {ρ : Type} (role other : Role) (own : Table ρ) (taken : Text → Bool) (template : Text)
    (behaviour : Option (Behaviour ρ)) : Except RegistrationError (Pattern ρ) :=
  match behaviour with
  | none => .error (.noBehaviour role template)
  | some behaviour =>
    match Tree.parse template 0 with
    | .error e => .error (.noCommand role template e)
    | .ok (.call name args span) =>
      let tree := .call name args span
      if taken name then .error (.nameTaken other name)
      else if own.hasTemplate tree then .error (.repeated role template)
      else .ok ⟨name, tree, behaviour⟩
    | .ok _ => .error (.noCall role template)

/-- Declares a pattern.  The registry comes back with one more pattern, or with the reason why the
declaration is refused. -/
def declare (registry : Registry) : Declaration → Registry × Option RegistrationError
  | .reduction template behaviour =>
    match accept .reduction .drawing registry.reductions registry.drawings.hasName template
      behaviour with
    | .ok pattern => ({ registry with reductions := registry.reductions.insert pattern }, none)
    | .error e => (registry, some e)
  | .drawing template behaviour =>
    match accept .drawing .reduction registry.drawings registry.reductions.hasName template
      behaviour with
    | .ok pattern => ({ registry with drawings := registry.drawings.insert pattern }, none)
    | .error e => (registry, some e)

/-- Declares patterns in order.  The first one that is refused ends this; those before it stay. -/
def declareAll (registry : Registry) : List Declaration → Registry × Option RegistrationError
  | [] => (registry, none)
  | d :: ds =>
    match registry.declare d with
    | (registry, none) => registry.declareAll ds
    | (registry, some e) => (registry, some e)

end Registry

end Sketch
