import FrontLint.CommandLine.Usage
import FrontLint.Run

/-!
# Sessions

A call of the program: its arguments and environment in, exit status and streams out. Flags
replace what the environment sets. A text that the standard output does not take ends the call.
-/

namespace FrontLint

variable [HashSeed]

/-- A standard output: what comes out for a text that is written to it, nothing if its encoding
has no place for some character of the text. -/
abbrev Stream := List Char → Option (List Char)

namespace Stream

/-- The stream that takes every text as it is. -/
def plain : Stream := some

/-- Write texts in order, up to one that is not taken. What comes out, and whether all were
taken. -/
def writeAll (s : Stream) : List (List Char) → List Char × Bool
  | [] => ([], true)
  | text :: rest =>
    match s text with
    | none => ([], false)
    | some shown =>
      let (more, all) := writeAll s rest
      (shown ++ more, all)

end Stream

/-- What a call of the program leaves. -/
structure Session where
  status : Nat
  output : List Char
  /-- The text for the standard error, in whose encoding every character has a place. -/
  errors : String
  /-- Whether an unexpected fault ended the call, of which the errors show the details. -/
  unexpected : Bool
  files : FileTree
  calls : List LinterCall

/-- What surrounds a call of the program. -/
structure Surroundings where
  environment : Environment
  homes : Homes
  linter : Linter
  files : FileTree
  /-- The name for the root of the cache. -/
  rootName : FileName
  console : Console
  stdout : Stream

namespace Session

/-- A call that does not come to linting. -/
def early (files : FileTree) (status : Nat) (output : List Char) (errors : String) : Session :=
  ⟨status, output, errors, false, files, []⟩

/-- A call that an unexpected fault ends before linting. -/
def broken (files : FileTree) (output : List Char) : Session := ⟨1, output, "", true, files, []⟩

/-- A call that only says something. -/
def saying (stdout : Stream) (files : FileTree) (text : String) : Session :=
  match stdout text.toList with
  | some shown => early files 0 shown ""
  | none => broken files []

def ofStop (stdout : Stream) (files : FileTree) : Stop → Session
  | .help => saying stdout files Usage.help
  | .version => saying stdout files Usage.versionText
  | .refused refusal => early files 2 [] (Usage.refusal refusal)

/-- Settings with the flags in place of what was loaded. An empty linter counts as none. -/
def withFlags (settings : Settings) (a : Arguments) : Settings :=
  { settings with
    linter := (a.linter.filter (· ≠ "")).getD settings.linter
    timeout := a.timeout.getD settings.timeout }

def patternsOf (settings : Settings) (a : Arguments) : List String :=
  if a.patterns.isEmpty then [settings.defaultPattern] else a.patterns

/-- The lines that say what will be linted. -/
def announcement (settings : Settings) (a : Arguments) : List String :=
  if !a.verbose then []
  else
    let default :=
      if a.patterns.isEmpty then
        [s!"No patterns provided, using default: {settings.defaultPattern} (current directory)"]
      else []
    let patterns := ", ".intercalate (patternsOf settings a)
    let filter := (a.filter.filter (· ≠ "")).getD "(none)"
    default ++ [s!"Linting files matching: {patterns}", s!"Using Vale filter: {filter}"]

/-- Print the lines that say what will be linted, each followed by its end. -/
def announce (stdout : Stream) (settings : Settings) (a : Arguments) : List Char × Bool :=
  stdout.writeAll ((announcement settings a).flatMap fun line => [line.toList, ['\n']])

/-- The notes that are shown, one a line: warnings and errors, or all. -/
def notesText (verbose : Bool) (notes : List Note) : String :=
  String.join ((notes.filter fun n => verbose || n.level != .debug).map fun n =>
    s!"{n.level.name}: {n.message}\n")

/-- The exit status for a fault. -/
def statusOf : Fault → Nat
  | .linter (.timedOut _ _) => 124
  | .linter _ => 127
  | .interrupted => 130
  | .terminated => 143
  | _ => 1

/-- Whether a fault is one that a user can expect. -/
def isExpected : Fault → Bool
  | .cache _ | .linter _ | .interrupted | .terminated => true
  | _ => false

/-- What is said about a fault behind the notes. -/
def faultText : Fault → String
  | .interrupted => "\nCancelled by user\n"
  | .terminated => ""
  | .linter (.timedOut program seconds) =>
      s!"Error: {(LinterFault.timedOut program seconds).message}\n"
  | .linter fault => s!"Error: {fault.message}\nInstall Vale: https://vale.sh/docs/install\n"
  | fault =>
    if isExpected fault then s!"Error: {fault.message}\n"
    else notesText false [.runFailed fault.message]

/-- A call whose run has ended, behind the lines that say what was linted. A report that the
standard output does not take is an unexpected fault. -/
def ofOutcome (a : Arguments) (stdout : Stream) (announced : List Char) (outcome : Outcome) :
    Session :=
  let printed := announced ++ outcome.printed.flatten
  let notes := notesText a.verbose outcome.notes
  match outcome.result with
  | .ok report =>
    match stdout report.output with
    | some shown =>
      ⟨report.status, printed ++ shown, notes, false, outcome.files, outcome.calls⟩
    | none => ⟨1, printed, notes, true, outcome.files, outcome.calls⟩
  | .error fault =>
    ⟨statusOf fault, printed, notes ++ faultText fault, !isExpected fault, outcome.files,
      outcome.calls⟩

/-- The run that a call asks for, from a base directory. -/
def request (a : Arguments) (settings : Settings) (s : Surroundings) (base : Path) : Request where
  settings := settings
  patterns := patternsOf settings a
  filter := a.filter
  verbose := a.verbose
  base := base
  console := s.console

/-- The run from the current directory. -/
def outcome (a : Arguments) (settings : Settings) (s : Surroundings) : Outcome :=
  match s.files.currentPath? with
  | some base => Run.lint (request a settings s base) s.linter s.rootName s.files
  | none => Run.stranded settings.tempDir s.rootName s.files

def lint (a : Arguments) (settings : Settings) (s : Surroundings) : Session :=
  let settings := withFlags settings a
  match announce s.stdout settings a with
  | (announced, true) => ofOutcome a s.stdout announced (outcome a settings s)
  | (announced, false) => broken s.files announced

/-- Answer a call with arguments. -/
def run (argv : List String) (s : Surroundings) : Session :=
  match Arguments.read argv with
  | .error stop => ofStop s.stdout s.files stop
  | .ok a =>
    match Settings.load s.environment s.homes s.files with
    | .error (.timeout fault) =>
      early s.files 1 [] s!"Error: {(SettingsFault.timeout fault).message}\n"
    | .error _ => broken s.files []
    | .ok settings => lint a settings s

end Session

end FrontLint
