import Sketch.Evaluation.Execute
import Sketch.Registry.Builtin
import Sketch.Script.Options
import Sketch.Source.Basic

/-!
# Running scripts

A script has one command a line.  Blank lines, and lines that start with a hash, are skipped.
Commands come from a script file or from standard input, where each command is a source of its
own.  What a command makes is written to standard output, and errors to standard error.
-/

namespace Sketch

/-- What is written. -/
structure Output where
  /-- What is written to standard output. -/
  out : Text
  /-- What is written to standard error. -/
  err : Text

namespace Output

/-- Nothing. -/
def empty : Output := ⟨[], []⟩

instance : Append Output := ⟨fun a b => ⟨a.out ++ b.out, a.err ++ b.err⟩⟩

end Output

/-- The exit status of the program. -/
inductive Status where
  /-- Every command was carried out. -/
  | success
  /-- A command failed. -/
  | commandFailed
  /-- No command could be run. -/
  | unusable
deriving DecidableEq

namespace Status

/-- The number of a status. -/
def code : Status → UInt32
  | success => 0
  | commandFailed => 1
  | unusable => 2

/-- The status of a run, by whether all its commands were carried out. -/
def ofSuccess (ok : Bool) : Status := if ok then success else commandFailed

end Status

namespace Script

/-- The exit status of a run, and what it writes. -/
abbrev Result := Status × Output

/-- A text as a line of its own. -/
def line (t : Text) : Text := t ++ utf8 "\n"

/-- The line that describes a shape. -/
def shapeLine : Shape → Text
  | .point p => line (utf8 "  shape point " ++ numbersText p)
  | .line p q => line (utf8 "  shape line " ++ numbersText p ++ utf8 " -- " ++ numbersText q)

/-- The lines that describe a figure. -/
def figureLines (options : Options) (figure : Figure) : Text :=
  line figure.text ++ if options.shapes then figure.shapes.flatMap shapeLine else []

/-- The lines that describe what a command makes. -/
def outcomeLines (options : Options) (outcome : Outcome) : Text :=
  (if options.trees then
    line (utf8 "parsed:  " ++ outcome.parsed.outline)
      ++ line (utf8 "reduced: " ++ outcome.reduced.outline)
  else []) ++ outcome.figures.flatMap (figureLines options)

/-- The lines that describe the error of the command in a line. -/
def errorLines (command : Line) (e : CommandError) : Text :=
  line (utf8 "error: " ++ e.message) ++ line (utf8 "--> " ++ command.excerpt e.span)

/-- Whether a line holds no command. -/
def isSkipped (text : Text) : Bool :=
  text.trim.isEmpty || text.trim.head? == some Byte.hash

/-- Runs the command in a line.  The result says whether it was carried out. -/
def runLine (options : Options) (command : Line) : Bool × Output :=
  match Registry.builtin.outcome command.text with
  | .ok outcome => (true, ⟨outcomeLines options outcome, []⟩)
  | .error e => (false, ⟨[], errorLines command e⟩)

/-- Runs the commands in the given lines, up to the first one that fails unless the options say to
keep going. -/
def runLines (options : Options) : List Line → Bool × Output
  | [] => (true, .empty)
  | command :: commands =>
    if isSkipped command.text then runLines options commands
    else
      let (ok, output) := runLine options command
      if ok || options.keepGoing then
        let (allOk, rest) := runLines options commands
        (ok && allOk, output ++ rest)
      else
        (false, output)

/-- Runs a script. -/
def runFile (options : Options) (source : Source) : Result :=
  let (ok, output) := runLines options source.lines
  (.ofSuccess ok, output)

/-- How far the commands on standard input have come. -/
structure Session where
  /-- The number of commands so far. -/
  entries : Nat
  /-- Whether all of them were carried out. -/
  ok : Bool

/-- A session without commands. -/
def Session.start : Session := ⟨0, true⟩

/-- Runs one line of standard input. -/
def Session.enter (options : Options) (session : Session) (text : Text) : Session × Output :=
  if isSkipped text then (session, .empty)
  else
    let entry := session.entries + 1
    let source : Source := ⟨utf8 "<stdin:" ++ numeral entry ++ utf8 ">", text⟩
    let (ok, output) := runLine options (source.line 1)
    (⟨entry, session.ok && ok⟩, output)

/-- What is written before a line is read: a prompt if someone is there to see it. -/
def promptIf (terminal : Bool) : Output := ⟨if terminal then utf8 "> " else [], []⟩

/-- Runs the given lines of standard input. -/
def Session.enterAll (options : Options) (terminal : Bool) (session : Session) :
    List Text → Session × Output
  | [] => (session, promptIf terminal)
  | text :: texts =>
    let (next, output) := session.enter options text
    let (final, rest) := next.enterAll options terminal texts
    (final, promptIf terminal ++ output ++ rest)

/-- The lines that are read from an input, of which the first one starts with the bytes `read`,
given in reverse.  A line is read up to a line feed, which does not belong to it, or up to the end
of the input if there is something to read before it. -/
def linesFrom (read : Text) : (input : Text) → List Text
  | [] => if read.isEmpty then [] else [read.reverse]
  | b :: input =>
    if b == Byte.lineFeed then read.reverse :: linesFrom [] input
    else linesFrom (b :: read) input

/-- The lines of standard input, without their line feeds. -/
def inputLines (input : Text) : List Text := linesFrom [] input

/-- Runs the commands on standard input. -/
def runInput (options : Options) (terminal : Bool) (input : Text) : Result :=
  let (session, output) := Session.start.enterAll options terminal (inputLines input)
  (.ofSuccess session.ok, output)

/-- How the program of the given name is used. -/
def usage (program : Text) : Text :=
  line (utf8 "Usage: " ++ program ++ utf8 " [--ast] [--shapes] [--keep-going] [file]")

/-- What is written if the command line is refused. -/
def refusal (program : Text) (e : OptionsError) : Output := ⟨[], e.message ++ usage program⟩

/-- What is written if there is no script of the given name. -/
def notFound (name : Text) : Output :=
  ⟨[], line (utf8 "Error: could not open file " ++ name)⟩

/-- What the program has to do with. -/
structure World where
  /-- The contents of the files that can be read. -/
  file? : Text → Option Text
  /-- Standard input. -/
  input : Text
  /-- Whether standard input is a terminal. -/
  terminal : Bool

/-- Runs the program of the given name with the given arguments. -/
def run (program : Text) (args : List Text) (world : World) : Result :=
  match Options.ofArgs args with
  | .error e => (.unusable, refusal program e)
  | .ok options =>
    match options.script with
    | none => runInput options world.terminal world.input
    | some name =>
      match world.file? name with
      | none => (.unusable, notFound name)
      | some contents => runFile options ⟨name, contents⟩

end Script

end Sketch
