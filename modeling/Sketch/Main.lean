import Sketch.Script.Run

/-!
# The command line program
-/

namespace Sketch

/-- Writes to standard output and standard error. -/
def Output.write (output : Output) : IO Unit := do
  let stdout ← IO.getStdout
  let stderr ← IO.getStderr
  stdout.write ⟨output.out.toArray⟩
  stdout.flush
  stderr.write ⟨output.err.toArray⟩
  stderr.flush

/-- Reads a line of standard input without its line feed, or nothing at the end of the input. -/
partial def readLine? (stdin : IO.FS.Stream) (line : Array UInt8) : IO (Option Text) := do
  let bytes ← stdin.read 1
  match bytes.data[0]? with
  | none => return if line.isEmpty then none else some line.toList
  | some b =>
    if b == Byte.lineFeed then return some line.toList
    else readLine? stdin (line.push b)

/-- Runs the commands on standard input as they come. -/
partial def runSession (options : Options) (terminal : Bool) (session : Script.Session) :
    IO Script.Session := do
  (Script.promptIf terminal).write
  match ← readLine? (← IO.getStdin) #[] with
  | none => return session
  | some text =>
    let (next, output) := session.enter options text
    output.write
    runSession options terminal next

/-- Writes the output of a run, and gives its exit status. -/
def report (result : Script.Result) : IO UInt32 := do
  result.2.write
  return result.1.code

/-- Reads a file, if this is possible. -/
def readFile? (name : Text) : IO (Option Text) := do
  match String.fromUTF8? ⟨name.toArray⟩ with
  | none => return none
  | some path =>
    try
      return some (← IO.FS.readBinFile path).data.toList
    catch _ =>
      return none

end Sketch

open Sketch in
/-- Runs the program. -/
def main (args : List String) : IO UInt32 := do
  match Options.ofArgs (args.map utf8) with
  | .error e => report (.unusable, Script.refusal (utf8 "tikzpaint") e)
  | .ok options =>
    match options.script with
    | some name =>
      match ← readFile? name with
      | none => report (.unusable, Script.notFound name)
      | some contents => report (Script.runFile options ⟨name, contents⟩)
    | none =>
      let session ← runSession options (← (← IO.getStdin).isTty) .start
      return (Status.ofSuccess session.ok).code
