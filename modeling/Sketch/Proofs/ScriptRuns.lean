import Sketch.Proofs.Lines
import Mathlib.Data.List.Infix

/-!
# Runs of scripts

What a run writes is put together from what its commands write, one after the other.  A command
writes what it makes to standard output if it is carried out, and why it fails to standard error
if not.  A script is run up to and including the first command that fails, or to its end if the
run keeps going (`runLines_eq`).  On standard input every command is a source of its own, and
the run always goes on (`Session.enterAll_eq`).

So a run that stops writes what a run that keeps going writes first
(`run_script_until_failure`), and a script does the same from a file and from standard input,
apart from where its errors are said to be (`run_input_like_script`).
-/

namespace Sketch

/-! ### Options -/

namespace Options

/-- The options of a command line with the given flags. -/
def ofFlags (flags : List Text) (keepGoing : Bool) (script : Option Text) : Options :=
  ⟨flags.contains (utf8 "--ast"), flags.contains (utf8 "--shapes"), keepGoing, script⟩

/-- A flag that says what is written. -/
def IsDisplayFlag (flag : Text) : Prop := flag = utf8 "--ast" ∨ flag = utf8 "--shapes"

/-- Flags for what to show are added in any order, and more than once. -/
theorem foldlM_add_flags {flags : List Text} (h : ∀ flag ∈ flags, IsDisplayFlag flag)
    (options : Options) :
  flags.foldlM add options = .ok
    { options with
      trees := options.trees || flags.contains (utf8 "--ast")
      shapes := options.shapes || flags.contains (utf8 "--shapes") }
  := by
  induction flags generalizing options with
  | nil =>
    simp only [List.contains_nil, Bool.or_false]
    rfl
  | cons flag flags ih =>
    have hrest := ih fun other hother => h other (List.mem_cons_of_mem flag hother)
    rw [List.foldlM_cons, List.contains_cons, List.contains_cons]
    rcases h flag List.mem_cons_self with rfl | rfl
    · have hself : (utf8 "--ast" == utf8 "--ast") = true := rfl
      change flags.foldlM add { options with trees := true } = _
      rw [hself, Bool.true_or, Bool.or_true, hrest]
      rfl
    · have hself : (utf8 "--shapes" == utf8 "--shapes") = true := rfl
      change flags.foldlM add { options with shapes := true } = _
      rw [hself, Bool.true_or, Bool.or_true, hrest]
      rfl

/-- An argument that does not start with a hyphen names the script. -/
theorem add_script (options : Options) {name : Text} (hname : name.head? ≠ some Byte.minus)
    (hscript : options.script = .none) :
  options.add name = .ok { options with script := some name }
  := by
  have hflag : ∀ flag : Text, flag.head? = some Byte.minus → (name == flag) = false := by
    intro flag hflag
    rw [beq_eq_false_iff_ne]
    rintro rfl
    apply hname hflag
  rw [add, hflag _ rfl, hflag _ rfl, hflag _ rfl, beq_eq_false_iff_ne.mpr hname, hscript]
  rfl

section CommandLine

variable {flags : List Text} {name : Text}

/-- After the flags, the name of a script is added if there is none yet. -/
theorem foldlM_add_script (h : ∀ flag ∈ flags, IsDisplayFlag flag)
    (hname : name.head? ≠ some Byte.minus) (options : Options) (hscript : options.script = .none) :
  (flags ++ [name]).foldlM add options = .ok
    { options with
      trees := options.trees || flags.contains (utf8 "--ast")
      shapes := options.shapes || flags.contains (utf8 "--shapes")
      script := some name }
  := by
  rw [List.foldlM_append, foldlM_add_flags h]
  change [name].foldlM add _ = _
  rw [List.foldlM_cons, add_script _ hname]
  · rfl
  · apply hscript

/-- The options for a script, with flags before it. -/
theorem ofArgs_script (h : ∀ flag ∈ flags, IsDisplayFlag flag)
    (hname : name.head? ≠ some Byte.minus) :
  ofArgs (flags ++ [name]) = .ok (ofFlags flags false (some name))
  := foldlM_add_script h hname none rfl

/-- The options for a script that is run to its end in spite of failures. -/
theorem ofArgs_keepGoing_script (h : ∀ flag ∈ flags, IsDisplayFlag flag)
    (hname : name.head? ≠ some Byte.minus) :
  ofArgs (utf8 "--keep-going" :: flags ++ [name]) = .ok (ofFlags flags true (some name))
  := foldlM_add_script h hname { none with keepGoing := true } rfl

/-- The options for reading commands from the input in spite of failures. -/
theorem ofArgs_keepGoing (h : ∀ flag ∈ flags, IsDisplayFlag flag) :
  ofArgs (utf8 "--keep-going" :: flags) = .ok (ofFlags flags true .none)
  := foldlM_add_flags h { none with keepGoing := true }

end CommandLine

end Options

namespace Script

/-! ### What commands write -/

/-- Whether the command in a line is carried out. -/
def succeeds (command : Line) : Bool := (Registry.builtin.outcome command.text).isOk

/-- What is made by those of the given commands that are carried out. -/
def outcomes (commands : List Line) : List Outcome :=
  commands.filterMap fun command => (Registry.builtin.outcome command.text).toOption

/-- What the command in a line writes to standard error. -/
def complaint (command : Line) : Text :=
  match Registry.builtin.outcome command.text with
  | .ok _ => []
  | .error e => errorLines command e

/-- What the given commands write. -/
def outputs (options : Options) (commands : List Line) : Output :=
  ⟨(outcomes commands).flatMap (outcomeLines options), commands.flatMap complaint⟩

/-- Whether a line succeeds does not depend on the options. -/
theorem runLine_fst (options : Options) (command : Line) :
  (runLine options command).1 = succeeds command
  := by
  rw [runLine, succeeds]
  cases Registry.builtin.outcome command.text with
  | ok outcome => rfl
  | error e => rfl

/-- The outputs of commands follow each other. -/
theorem outputs_cons (options : Options) (command : Line) (commands : List Line) :
  outputs options (command :: commands)
    = (runLine options command).2 ++ outputs options commands
  := by
  rw [outputs, outputs, outcomes, List.filterMap_cons, List.flatMap_cons, runLine, complaint]
  cases Registry.builtin.outcome command.text with
  | ok outcome => rfl
  | error e => rfl

theorem outputs_singleton (options : Options) (command : Line) :
  outputs options [command] = (runLine options command).2
  := by
  rw [outputs_cons]
  change Output.mk ((runLine options command).2.out ++ []) ((runLine options command).2.err ++ [])
    = _
  rw [List.append_nil, List.append_nil]

/-! ### Scripts -/

/-- The lines that hold commands. -/
def commandLines (lines : List Line) : List Line := lines.filter fun l => !isSkipped l.text

/-- The commands up to and including the first one that fails. -/
def upToFailure (commands : List Line) : List Line :=
  commands.takeWhile succeeds ++ (commands.dropWhile succeeds).take 1

/-- A command that fails is the last one up to the failure. -/
theorem upToFailure_cons (command : Line) (commands : List Line) :
  upToFailure (command :: commands)
    = if succeeds command then command :: upToFailure commands else [command]
  := by
  rw [upToFailure, upToFailure, List.takeWhile_cons, List.dropWhile_cons]
  cases succeeds command with
  | true => rfl
  | false => rfl

/-- The commands that are run: all of them if the options say to keep going. -/
def attempted (options : Options) (commands : List Line) : List Line :=
  if options.keepGoing then commands else upToFailure commands

/-- After a command that fails, the others are only run if the options say to keep going. -/
theorem attempted_cons (options : Options) (command : Line) (commands : List Line) :
  attempted options (command :: commands)
    = if succeeds command || options.keepGoing then command :: attempted options commands
      else [command]
  := by
  rw [attempted, attempted, upToFailure_cons]
  cases options.keepGoing with
  | true => rw [Bool.or_true, if_pos rfl, if_pos rfl, if_pos rfl]
  | false => rw [Bool.or_false, if_neg Bool.false_ne_true, if_neg Bool.false_ne_true]

/-- A line with a command is run, and then the other lines unless it fails and this ends the run. -/
theorem runLines_cons (options : Options) {command : Line}
    (h : isSkipped command.text = false) (lines : List Line) :
  runLines options (command :: lines)
    = if succeeds command || options.keepGoing then
        (succeeds command && (runLines options lines).1,
          (runLine options command).2 ++ (runLines options lines).2)
      else
        (false, (runLine options command).2)
  := by
  rw [runLines, h, ← runLine_fst options]
  rfl

/-- Running lines runs the commands that are attempted, one after the other. -/
theorem runLines_eq (options : Options) (lines : List Line) :
  runLines options lines
    = ((commandLines lines).all succeeds, outputs options (attempted options (commandLines lines)))
  := by
  induction lines with
  | nil =>
    rw [runLines, commandLines, List.filter_nil, attempted]
    cases options.keepGoing <;> rfl
  | cons command lines ih =>
    cases hskipped : isSkipped command.text with
    | true =>
      have hnone : commandLines (command :: lines) = commandLines lines :=
        List.filter_cons_of_neg (by simp [hskipped])
      rw [runLines, hskipped, if_pos rfl, ih, hnone]
    | false =>
      have hone : commandLines (command :: lines) = command :: commandLines lines :=
        List.filter_cons_of_pos (by simp [hskipped])
      rw [runLines_cons options hskipped, ih, hone, attempted_cons, List.all_cons]
      split
      · rw [outputs_cons]
      · next hstop =>
        -- the run stops here, and the commands that follow do not change that one has failed
        have hfails : succeeds command = false := by
          cases hsucceeds : succeeds command with
          | true => simp [hsucceeds] at hstop
          | false => rfl
        rw [hfails, Bool.false_and, outputs_singleton]

/-! ### Failures -/

/-- A command that fails. -/
structure Failed where
  /-- The line it is in. -/
  line : Line
  /-- Its number among the commands. -/
  entry : Nat
  /-- Why it fails. -/
  error : CommandError

/-- The failure of the command in a line, if it fails. -/
def failure? (command : Line) (entry : Nat) : Option Failed :=
  match Registry.builtin.outcome command.text with
  | .ok _ => none
  | .error e => some ⟨command, entry, e⟩

/-- The failures of commands that are numbered from `entry` on. -/
def failuresFrom (entry : Nat) (commands : List Line) : List Failed :=
  (commands.zipIdx entry).filterMap fun numbered => failure? numbered.1 numbered.2

/-- The messages of failures, each followed by an excerpt of a line: the one that `place` gives for
the line and the number of the command that fails. -/
def reports (place : Line → Nat → Line) (failures : List Failed) : Text :=
  failures.flatMap fun failed => errorLines (place failed.line failed.entry) failed.error

/-- The failures of commands are listed in order, each with the number of its entry. -/
theorem failuresFrom_cons (entry : Nat) (command : Line) (commands : List Line) :
  failuresFrom entry (command :: commands)
    = (failure? command entry).toList ++ failuresFrom (entry + 1) commands
  := by
  rw [failuresFrom, List.zipIdx_cons, List.filterMap_cons]
  cases failure? command entry with
  | none => rfl
  | some failed => rfl

/-- The complaint about a command at some place is the report of its failure at this place. -/
theorem complaint_place (place : Line → Nat → Line) (h : ∀ c k, (place c k).text = c.text)
    (command : Line) (entry : Nat) :
  complaint (place command entry) = reports place (failure? command entry).toList
  := by
  rw [complaint, failure?, h]
  cases Registry.builtin.outcome command.text with
  | ok outcome => rfl
  | error e =>
    change _ = [_].flatMap _
    rw [List.flatMap_singleton]

/-- Commands write the messages of their failures to standard error, wherever the lines are said to
be that they stand in. -/
theorem flatMap_complaint (place : Line → Nat → Line) (h : ∀ c k, (place c k).text = c.text)
    (entry : Nat) (commands : List Line) :
  ((commands.zipIdx entry).map fun numbered => place numbered.1 numbered.2).flatMap complaint
    = reports place (failuresFrom entry commands)
  := by
  induction commands generalizing entry with
  | nil => rfl
  | cons command commands ih =>
    rw [failuresFrom_cons, reports, List.flatMap_append, List.zipIdx_cons, List.map_cons,
      List.flatMap_cons, ih, complaint_place place h]
    rfl

/-- The complaints about commands are the reports of their failures. -/
theorem flatMap_complaint_self (entry : Nat) (commands : List Line) :
  commands.flatMap complaint = reports (fun line _ => line) (failuresFrom entry commands)
  := by
  have h := flatMap_complaint (fun line _ => line) (fun _ _ => rfl) entry commands
  rwa [List.zipIdx_map_fst] at h

/-- Up to the first command that fails, only this one fails. -/
theorem failuresFrom_upToFailure (entry : Nat) (commands : List Line) :
  failuresFrom entry (upToFailure commands) = (failuresFrom entry commands).take 1
  := by
  induction commands generalizing entry with
  | nil => rfl
  | cons command commands ih =>
    rw [upToFailure_cons, failuresFrom_cons, succeeds]
    cases houtcome : Registry.builtin.outcome command.text with
    | ok outcome =>
      have hnone : failure? command entry = none := by rw [failure?, houtcome]
      change failuresFrom entry (command :: upToFailure commands) = _
      rw [failuresFrom_cons, hnone, ih]
      rfl
    | error e =>
      have hsome : failure? command entry = some ⟨command, entry, e⟩ := by rw [failure?, houtcome]
      change failuresFrom entry [command] = _
      rw [failuresFrom_cons, hsome]
      rfl

/-- The first command that fails makes nothing. -/
theorem outcomes_upToFailure (commands : List Line) :
  outcomes (upToFailure commands) = outcomes (commands.takeWhile succeeds)
  := by
  induction commands with
  | nil => rfl
  | cons command commands ih =>
    rw [upToFailure_cons, List.takeWhile_cons, succeeds]
    cases houtcome : Registry.builtin.outcome command.text with
    | ok outcome =>
      change outcomes (command :: upToFailure commands) = outcomes (command :: _)
      rw [outcomes, List.filterMap_cons, ← outcomes, ih, outcomes, outcomes, List.filterMap_cons]
    | error e =>
      change outcomes [command] = []
      rw [outcomes, List.filterMap_cons, houtcome]
      rfl

/-! ### Standard input -/

/-- The line that the command of the given number on standard input stands in. -/
def entryLine (entry : Nat) (command : Text) : Line :=
  ⟨utf8 "<stdin:" ++ numeral entry ++ utf8 ">", 1, command⟩

/-- The lines that commands on standard input stand in, if they are numbered from `entry` on. -/
def entryLines (entry : Nat) (commands : List Text) : List Line :=
  (commands.zipIdx entry).map fun numbered => entryLine numbered.2 numbered.1

/-- Entering a command counts it and runs it, without the ends of lines after it. -/
theorem Session.enter_command (options : Options) (session : Session) {text : Text}
    (hskipped : isSkipped text = false) (h : Byte.lineFeed ∉ text) :
  let command := entryLine (session.entries + 1) (trimEndBy Byte.isLineEnd text)
  session.enter options text
    = (⟨session.entries + 1, session.ok && succeeds command⟩, (runLine options command).2)
  := by
  intro command
  have hline : (Source.mk command.source text).line 1 = command := by
    rw [Source.line, Source.lineText_one h]
    rfl
  rw [enter, hskipped, ← runLine_fst options command, ← hline]
  rfl

/-- The commands in the given lines of standard input. -/
def inputCommands (texts : List Text) : List Text :=
  (texts.map (trimEndBy Byte.isLineEnd)).filter fun text => !isSkipped text

/-- Lines without a command are skipped, and the ends of lines are cut off from the others. -/
theorem inputCommands_cons (text : Text) (texts : List Text) :
  inputCommands (text :: texts)
    = if isSkipped text then inputCommands texts
      else trimEndBy Byte.isLineEnd text :: inputCommands texts
  := by
  rw [inputCommands, List.map_cons, List.filter_cons, isSkipped_trimEndBy]
  cases isSkipped text with
  | true => rfl
  | false => rfl

/-- Running lines of standard input runs their commands, one after the other. -/
theorem Session.enterAll_eq (options : Options) (session : Session) {texts : List Text}
    (h : ∀ text ∈ texts, Byte.lineFeed ∉ text) :
  let commands := entryLines (session.entries + 1) (inputCommands texts)
  session.enterAll options false texts
    = (⟨session.entries + commands.length, session.ok && commands.all succeeds⟩,
      outputs options commands)
  := by
  -- the session says how many commands came before, so it is not the same one for the rest
  induction texts generalizing session with
  | nil =>
    change (session, promptIf false) = (⟨session.entries + 0, session.ok && true⟩, promptIf false)
    rw [Bool.and_true]
    rfl
  | cons text texts ih =>
    have htext := h text List.mem_cons_self
    have htexts := fun other hother => h other (List.mem_cons_of_mem text hother)
    rw [inputCommands_cons]
    cases hskipped : isSkipped text with
    | true =>
      have henter : session.enter options text = (session, .empty) := by
        rw [enter, hskipped]
        rfl
      rw [enterAll, henter]
      apply ih session htexts
    | false =>
      let command := entryLine (session.entries + 1) (trimEndBy Byte.isLineEnd text)
      let next : Session := ⟨session.entries + 1, session.ok && succeeds command⟩
      let rest := entryLines (next.entries + 1) (inputCommands texts)
      have hstep : session.enterAll options false (text :: texts)
          = ((next.enterAll options false texts).1,
            (runLine options command).2 ++ (next.enterAll options false texts).2) := by
        rw [enterAll, enter_command options session hskipped htext]
        rfl
      change session.enterAll options false (text :: texts)
        = (⟨session.entries + (command :: rest).length,
            session.ok && (command :: rest).all succeeds⟩, outputs options (command :: rest))
      rw [hstep, ih next htexts, List.length_cons, List.all_cons, outputs_cons, ← Bool.and_assoc,
        Nat.add_comm rest.length, ← Nat.add_assoc]

/-! ### Whole runs -/

/-- The commands of a script are the texts of its lines that are not skipped. -/
theorem map_text_commandLines (lines : List Line) :
  (commandLines lines).map Line.text = (lines.map Line.text).filter fun text => !isSkipped text
  := by
  rw [commandLines, List.filter_map]
  rfl

theorem map_text_entryLines (entry : Nat) (commands : List Text) :
  (entryLines entry commands).map Line.text = commands
  := by
  rw [entryLines, List.map_map]
  apply List.zipIdx_map_fst

theorem entryLines_map_text (entry : Nat) (commands : List Line) :
  entryLines entry (commands.map Line.text)
    = (commands.zipIdx entry).map fun numbered => entryLine numbered.2 numbered.1.text
  := by
  rw [entryLines, List.zipIdx_map, List.map_map]
  rfl

/-- The commands of a script are those that are read from standard input. -/
theorem inputCommands_inputLines (source : Source) :
  inputCommands (inputLines source.contents) = (commandLines source.lines).map Line.text
  := by
  rw [inputCommands, ← source.map_text_lines_eq_inputLines, map_text_commandLines]

/-- What commands make depends on their texts only. -/
theorem outcomes_eq_filterMap (commands : List Line) :
  outcomes commands
    = (commands.map Line.text).filterMap fun text => (Registry.builtin.outcome text).toOption
  := by
  rw [List.filterMap_map]
  rfl

/-- Whether commands succeed does not depend on where they stand. -/
theorem all_succeeds_eq_all (commands : List Line) :
  commands.all succeeds
    = (commands.map Line.text).all fun text => (Registry.builtin.outcome text).isOk
  := by
  rw [List.all_map]
  rfl

/-- Running a script is running its commands, up to the first failure if the options say so. -/
theorem runFile_eq (options : Options) (source : Source) :
  let commands := commandLines source.lines
  runFile options source
    = (.ofSuccess (commands.all succeeds), outputs options (attempted options commands))
  := by
  rw [runFile, runLines_eq]

/-- Reading commands from an input that is no terminal is running all of them, one entry each. -/
theorem runInput_eq (options : Options) (source : Source) :
  let commands := entryLines 1 ((commandLines source.lines).map Line.text)
  runInput options false source.contents
    = (.ofSuccess (commands.all succeeds), outputs options commands)
  := by
  have hlines : ∀ text ∈ inputLines source.contents, Byte.lineFeed ∉ text :=
    fun text htext => lineFeed_notMem_of_mem_inputLines htext
  rw [runInput, Session.enterAll_eq options .start hlines, inputCommands_inputLines]
  rfl

section CommandLine

variable {args : List Text} {options : Options} {world : World}

/-- With the name of a script that can be opened, the program runs this script. -/
theorem run_eq_runFile (program : Text) {name contents : Text}
    (hargs : Options.ofArgs args = .ok options) (hscript : options.script = some name)
    (hfile : world.file? name = some contents) :
  run program args world = runFile options ⟨name, contents⟩
  := by
  simp only [run, hargs, hscript, hfile]

/-- Without the name of a script, the program reads commands from its input. -/
theorem run_eq_runInput (program : Text) (hargs : Options.ofArgs args = .ok options)
    (hscript : options.script = none) :
  run program args world = runInput options world.terminal world.input
  := by
  simp only [run, hargs, hscript]

/-- A run that keeps going runs all commands of a script. -/
theorem run_keepGoing_script (program : Text) {name contents : Text} {flags : List Text}
    (hflags : ∀ flag ∈ flags, Options.IsDisplayFlag flag)
    (hname : name.head? ≠ some Byte.minus) (hfile : world.file? name = some contents) :
  let commands := commandLines (Source.lines ⟨name, contents⟩)
  run program (utf8 "--keep-going" :: flags ++ [name]) world
    = (.ofSuccess (commands.all succeeds), outputs (.ofFlags flags true (some name)) commands)
  := by
  rw [run_eq_runFile program (Options.ofArgs_keepGoing_script hflags hname) rfl hfile, runFile_eq]
  rfl

end CommandLine

/-- A script is run up to the first command that fails, unless the run keeps going.  What a run
that stops writes is the start of what a run that keeps going writes, and the exit status is the
same: it tells whether some command fails.  Commands that fail write nothing to standard output. -/
theorem run_script_until_failure (program name contents : Text) (flags : List Text)
    (world : World) (hflags : ∀ flag ∈ flags, Options.IsDisplayFlag flag)
    (hname : name.head? ≠ some Byte.minus) (hfile : world.file? name = some contents) :
  let stopping := run program (flags ++ [name]) world
  let going := run program (utf8 "--keep-going" :: flags ++ [name]) world
  let commands := commandLines (Source.lines ⟨name, contents⟩)
  let written := fun made => made.flatMap (outcomeLines (.ofFlags flags true (some name)))
  let reported := reports fun line _ => line
  going.2.out = written (outcomes commands)
    ∧ stopping.2.out = written (outcomes (commands.takeWhile succeeds))
    ∧ going.2.err = reported (failuresFrom 1 commands)
    ∧ stopping.2.err = reported ((failuresFrom 1 commands).take 1)
    ∧ stopping.2.out <+: going.2.out
    ∧ stopping.2.err <+: going.2.err
    ∧ stopping.1 = going.1
    ∧ going.1.code = if commands.all succeeds then 0 else 1
  := by
  intro stopping going commands written reported
  have hstopping : stopping = (.ofSuccess (commands.all succeeds),
      outputs (.ofFlags flags false (some name)) (upToFailure commands)) := by
    have hargs := Options.ofArgs_script hflags hname
    apply (run_eq_runFile program hargs rfl hfile).trans (runFile_eq _ _)
  have hgoing := run_keepGoing_script program hflags hname hfile
  change going = (_, outputs _ commands) at hgoing
  have hstoppingOut : stopping.2.out = written (outcomes (commands.takeWhile succeeds)) := by
    rw [hstopping, ← outcomes_upToFailure]
    rfl
  have hgoingOut : going.2.out = written (outcomes commands) := by
    rw [hgoing]
    rfl
  have hstoppingErr : stopping.2.err = reported ((failuresFrom 1 commands).take 1) := by
    rw [hstopping, ← failuresFrom_upToFailure]
    apply flatMap_complaint_self
  have hgoingErr : going.2.err = reported (failuresFrom 1 commands) := by
    rw [hgoing]
    apply flatMap_complaint_self
  refine ⟨hgoingOut, hstoppingOut, hgoingErr, hstoppingErr, ?_, ?_, ?_, ?_⟩
  · rw [hstoppingOut, hgoingOut]
    apply List.IsPrefix.flatMap
    apply (List.takeWhile_prefix succeeds).filterMap
  · rw [hstoppingErr, hgoingErr]
    apply List.IsPrefix.flatMap
    apply List.take_prefix
  · rw [hstopping, hgoing]
  · rw [hgoing, Status.ofSuccess]
    cases commands.all succeeds with
    | true => rfl
    | false => rfl

theorem run_script_until_failure_points :
  let contents := utf8 "# Two points\npoint(1, 2)\r\npoint(3)\npoint(5, 6)\n"
  let world : World := ⟨fun _ => some contents, [], false⟩
  let stopping := run (utf8 "tikzpaint") [utf8 "--shapes", utf8 "plane"] world
  let going := run (utf8 "tikzpaint") [utf8 "--keep-going", utf8 "--shapes", utf8 "plane"] world
  stopping.2.out = utf8 "point(1, 2)\n  shape point (1, 2)\n"
    ∧ stopping.2.out <+: going.2.out
    ∧ stopping.2.err <+: going.2.err
    ∧ stopping.1 = going.1
    ∧ going.1.code = 1
  := by
  intro contents world stopping going
  obtain ⟨-, hout, -, -, hstart, hstart', hstatus, hcode⟩ :=
    run_script_until_failure (utf8 "tikzpaint") (utf8 "plane") contents [utf8 "--shapes"] world
      (List.forall_mem_singleton.mpr (.inr rfl)) (by decide) rfl
  -- the runs are named first, since comparing what they give would evaluate them
  have hstopping : run (utf8 "tikzpaint") ([utf8 "--shapes"] ++ [utf8 "plane"]) world
      = stopping := rfl
  have hgoing : run (utf8 "tikzpaint") (utf8 "--keep-going" :: [utf8 "--shapes"] ++ [utf8 "plane"])
      world = going := rfl
  rw [hstopping] at hout hstart hstart' hstatus
  rw [hgoing] at hstart hstart' hstatus hcode
  exact ⟨hout.trans (by decide +kernel), hstart, hstart', hstatus, hcode.trans (by decide +kernel)⟩

/-- A script does the same from standard input as from a file, if the run keeps going.  The same
commands fail for the same reasons; only where this happens is said differently. -/
theorem run_input_like_script (program name contents : Text) (flags : List Text)
    (world : World) (files : Text → Option Text)
    (hflags : ∀ flag ∈ flags, Options.IsDisplayFlag flag)
    (hname : name.head? ≠ some Byte.minus) (hfile : world.file? name = some contents) :
  let script := run program (utf8 "--keep-going" :: flags ++ [name]) world
  let input := run program (utf8 "--keep-going" :: flags) ⟨files, contents, false⟩
  let failures := failuresFrom 1 (commandLines (Source.lines ⟨name, contents⟩))
  input.1 = script.1
    ∧ input.2.out = script.2.out
    ∧ script.2.err = reports (fun line _ => line) failures
    ∧ input.2.err = reports (fun line entry => entryLine entry line.text) failures
  := by
  intro script input failures
  let commands := commandLines (Source.lines ⟨name, contents⟩)
  let entries := entryLines 1 (commands.map Line.text)
  have hscript := run_keepGoing_script program hflags hname hfile
  change script = (_, outputs _ commands) at hscript
  have hinput : input = (.ofSuccess (entries.all succeeds),
      outputs (.ofFlags flags true none) entries) := by
    have hargs := Options.ofArgs_keepGoing hflags
    apply (run_eq_runInput program hargs rfl).trans (runInput_eq _ ⟨name, contents⟩)
  -- what is made, and whether a command fails, depends on its text alone
  have htexts : entries.map Line.text = commands.map Line.text := map_text_entryLines 1 _
  refine ⟨?_, ?_, ?_, ?_⟩
  · rw [hinput, hscript, all_succeeds_eq_all, all_succeeds_eq_all commands, htexts]
  · have houtcomes : outcomes entries = outcomes commands := by
      rw [outcomes_eq_filterMap, outcomes_eq_filterMap commands, htexts]
    rw [hinput, hscript, outputs, outputs, houtcomes]
    rfl
  · rw [hscript]
    apply flatMap_complaint_self
  · rw [hinput]
    calc entries.flatMap complaint
        = ((commands.zipIdx 1).map fun numbered =>
            entryLine numbered.2 numbered.1.text).flatMap complaint := by
          rw [← entryLines_map_text]
      _ = reports (fun line entry => entryLine entry line.text) failures :=
          flatMap_complaint (fun line entry => entryLine entry line.text) (fun _ _ => rfl) 1
            commands

theorem run_input_like_script_unended :
  let contents := utf8 "point(1, 2)\r\r\n\n \t# none\npoint(3)"
  let world : World := ⟨fun _ => some contents, [], false⟩
  let script := run (utf8 "tikzpaint") [utf8 "--keep-going", utf8 "--ast", utf8 "plane"] world
  let input := run (utf8 "tikzpaint") [utf8 "--keep-going", utf8 "--ast"]
    ⟨fun _ => none, contents, false⟩
  input.1 = script.1
    ∧ input.2.out = script.2.out
    ∧ script.2.err = utf8 ("error: No drawing command matches point(3)\n"
      ++ "--> plane:4:1\n 4 | point(3)\n   | ^^^^^^^^\n")
    ∧ input.2.err = utf8 ("error: No drawing command matches point(3)\n"
      ++ "--> <stdin:2>:1:1\n 1 | point(3)\n   | ^^^^^^^^\n")
  := by
  intro contents world script input
  obtain ⟨hstatus, hout, hscript, hinput⟩ :=
    run_input_like_script (utf8 "tikzpaint") (utf8 "plane") contents [utf8 "--ast"] world
      (fun _ => none) (List.forall_mem_singleton.mpr (.inl rfl)) (by decide) rfl
  have hrun : run (utf8 "tikzpaint") (utf8 "--keep-going" :: [utf8 "--ast"] ++ [utf8 "plane"]) world
      = script := rfl
  have hrun' : run (utf8 "tikzpaint") [utf8 "--keep-going", utf8 "--ast"]
      ⟨fun _ => none, contents, false⟩ = input := rfl
  rw [hrun] at hstatus hout hscript
  rw [hrun'] at hstatus hout hinput
  exact ⟨hstatus, hout, hscript.trans (by decide +kernel), hinput.trans (by decide +kernel)⟩

end Script

end Sketch
