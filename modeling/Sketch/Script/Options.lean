import Sketch.Text.Basic

/-!
# Options of the command line
-/

namespace Sketch

/-- What the command line asks for. -/
structure Options where
  /-- Whether the trees of commands are written. -/
  trees : Bool
  /-- Whether the shapes of figures are written. -/
  shapes : Bool
  /-- Whether a script goes on after a command that fails. -/
  keepGoing : Bool
  /-- The script, if there is one. -/
  script : Option Text

/-- Why a command line is refused. -/
inductive OptionsError where
  /-- It has an option that does not exist. -/
  | unknownOption (option : Text)
  /-- It names more than one script. -/
  | severalScripts

/-- The message of an error. -/
def OptionsError.message : OptionsError → Text
  | unknownOption option => utf8 "Error: unknown option " ++ option ++ utf8 "\n"
  | severalScripts => utf8 "Error: only one script file can be given\n"

namespace Options

/-- The options of an empty command line. -/
def none : Options := ⟨false, false, false, .none⟩

/-- The options with one more argument of the command line. -/
def add (options : Options) (arg : Text) : Except OptionsError Options :=
  if arg == utf8 "--ast" then .ok { options with trees := true }
  else if arg == utf8 "--shapes" then .ok { options with shapes := true }
  else if arg == utf8 "--keep-going" then .ok { options with keepGoing := true }
  else if arg.head? == some Byte.minus then .error (.unknownOption arg)
  else if options.script.isSome then .error .severalScripts
  else .ok { options with script := some arg }

/-- The options of a command line. -/
def ofArgs (args : List Text) : Except OptionsError Options := args.foldlM add none

end Options

end Sketch
