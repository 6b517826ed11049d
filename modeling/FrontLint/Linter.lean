import FrontLint.Files.Tree
import FrontLint.Number.FloatText

/-!
# The linter

How the linter is called on the directory of the projections, and the ways in which a call
can end. A command starts the file that its program names. A name without a slash is looked up
in the search path, on which a file tree has no programs.

The linter names projections by their place below the cache root. The root and the slash
behind it are removed from its output, in the spelling of the run and with all links
followed, so that the paths read as those of the documents.
-/

namespace FrontLint

/-- A program and its arguments. -/
structure Command where
  program : String
  arguments : List String
deriving DecidableEq

namespace Command

def words (c : Command) : List String := c.program :: c.arguments

/-- An empty filter is left out. -/
def filterArgument (filter : Option String) : List String :=
  match filter with
  | none => []
  | some expression => if expression = "" then [] else ["--filter=" ++ expression]

/-- Lint all below a directory, perhaps through a filter. -/
def lint (program : String) (filter : Option String) (root : Path) : Command :=
  ⟨program, filterArgument filter ++ [root.toString]⟩

/-- Ask for the version of the linter. -/
def version (program : String) : Command := ⟨program, ["--version"]⟩

end Command

/-- How the call of a program ends. -/
inductive Ending where
  /-- The program could not be started. -/
  | refused (fault : FileFault)
  | timedOut
  /-- The user interrupted the run. -/
  | interrupted
  /-- The run was asked to terminate. -/
  | terminated
  | exited (status : Nat) (output : Bytes)
  | killed (signal : Nat) (output : Bytes)

/-- A linter answers a command on a file tree. -/
abbrev Linter := Command → FileTree → Ending

/-- Why a linter gives no result. -/
inductive LinterFault where
  | notFound (program : String)
  | notRunnable (program : String)
  | timedOut (program : String) (seconds : Binary64)
deriving DecidableEq

def LinterFault.message : LinterFault → String
  | .notFound program => s!"Linter not found: {program}"
  | .notRunnable program => s!"Linter not executable: {program}"
  | .timedOut program seconds => s!"{program} did not finish within {seconds.roundedText}s"

namespace FileTree

/-- The location of the file that a command starts. No word of a command may hold a NUL. -/
def programAt (t : FileTree) (command : Command) : Except FileFault Location :=
  let path := command.program.toList
  if command.words.any fun word => word.toList.contains '\x00' then .error .nulInPath
  else if !path.contains '/' then .error (.refused .missing path)
  else
    match t.locate true path with
    | .found location (.file _) => .ok location
    | .found _ _ => .error (.refused .notPermitted path)
    | .free _ _ => .error (.refused .missing path)
    | .refused cause => .error (.refused cause path)

end FileTree

namespace Output

/-- Remove a text wherever it stands, from left to right, once `skip` more characters are
gone. -/
def removeFrom (text : List Char) : Nat → List Char → List Char
  | _, [] => []
  | skip + 1, _ :: rest => removeFrom text skip rest
  | 0, c :: rest =>
    if text.isPrefixOf (c :: rest) then removeFrom text (text.length - 1) rest
    else c :: removeFrom text 0 rest

def remove (text output : List Char) : List Char := removeFrom text 0 output

/-- The texts that stand for a cache root, a longer one before a shorter one. -/
def rootTexts (t : FileTree) (root : Path) : List (List Char) :=
  let given := root.text ++ ['/']
  let resolved := (t.resolve root).text ++ ['/']
  if given = resolved then [given]
  else if given.length < resolved.length then [resolved, given]
  else [given, resolved]

/-- The output with paths as those of the documents. -/
def relocate (t : FileTree) (root : Path) (output : List Char) : List Char :=
  (rootTexts t root).foldl (fun out text => remove text out) output

end Output

end FrontLint
