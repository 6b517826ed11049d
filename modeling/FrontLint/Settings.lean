import FrontLint.Files.Tree
import FrontLint.Number.FloatText
import FrontLint.Number.Numeral

/-!
# Settings

The linter, how long it may run, and where projections are kept for it, with the variables
of the environment that replace them. An empty variable counts as none. Projections are kept in
the directory of the system for temporary files unless a variable says otherwise; that
directory is looked for in any case.
-/

namespace FrontLint

/-- Why a text gives no duration for the linter. -/
inductive TimeoutFault where
  | numeral (fault : NumeralFault)
  | notFinite (text : Text)
  | tooLong (text : Text)
deriving DecidableEq

namespace Timeout

/-- The longest duration, in seconds: one week. -/
def longest : Binary64 := .ofRatio false 604800 1

def isAbove (x bound : Binary64) : Bool := x.compare? bound == some .gt

/-- The duration of a finite number of seconds; zero and less stand for no limit. -/
def ofSeconds (x : Binary64) : Option Binary64 :=
  if isAbove x (Binary64.zero false) then some x else none

/-- Read a duration in seconds, `none` if there is no limit. -/
def read (t : Text) : Except TimeoutFault (Option Binary64) :=
  match Numeral.readFloat t with
  | .error fault => .error (.numeral fault)
  | .ok x =>
    if !x.isFinite then .error (.notFinite t)
    else if isAbove x longest then .error (.tooLong t)
    else .ok (ofSeconds x)

end Timeout

def TimeoutFault.message : TimeoutFault → String
  | .numeral fault => fault.message
  | .notFinite text => s!"timeout must be finite: {text.quoted}"
  | .tooLong text => s!"timeout must be at most {Timeout.longest.roundedText}s: {text.quoted}"

/-- The variables that are set, with their values. -/
abbrev Environment := List (String × String)

/-- The value of a variable, if it is set and not empty. -/
def Environment.value? (env : Environment) (name : String) : Option String :=
  (env.lookup name).filter (· ≠ "")

structure Settings where
  linter : String
  /-- The seconds after which the linter is stopped, if it is. -/
  timeout : Option Binary64
  /-- The directory below which projections are kept. -/
  tempDir : Path
  defaultPattern : String

/-- The home directories that the password database has for the names of users. The empty name
is that of the user who calls. -/
abbrev Homes := FileName → Option (List Char)

inductive SettingsFault where
  /-- In none of some directories a temporary file can be made. -/
  | noTempDir (tried : List (List Char))
  /-- The current directory, from which another one is named, is gone. -/
  | currentMissing
  | timeout (fault : TimeoutFault)
  /-- The home directory that a path starts with is not known. -/
  | homeUnknown
deriving DecidableEq

def SettingsFault.message : SettingsFault → String
  | .noTempDir tried =>
    let directories := ", ".intercalate (tried.map fun d => (Text.ofChars d).quoted)
    s!"[Errno 2] No usable temporary directory found in [{directories}]"
  | .currentMissing => FileFault.currentMissingText
  | .timeout fault => "Invalid VALE_FRONTMATTER_TIMEOUT: " ++ fault.message
  | .homeUnknown => "Could not determine home directory."

namespace TempDir

/-- The directories for temporary files in the order in which they are tried: those of the
environment, those of the system, and the current one. -/
def candidates (env : Environment) (t : FileTree) : List (List Char) :=
  (["TMPDIR", "TEMP", "TMP"].filterMap env.value?).map String.toList ++
    ["/tmp", "/var/tmp", "/usr/tmp"].map String.toList ++
      [(t.currentPath?.map Path.text).getD FileName.here]

/-- A candidate as a normal absolute path, if there is a current directory to start from. A dot
stays a dot. -/
def absolute? (t : FileTree) (candidate : List Char) : Option Path :=
  let p := Path.ofText candidate
  if candidate = FileName.here || p.isAbsolute then some p.normal
  else t.currentPath?.map fun current => (current.join p).normal

/-- The number of bytes in the name of a file that tries out a directory. -/
def probeBytes : Nat := 8

/-- Whether a file can be made in a directory. -/
def isUsable (t : FileTree) (directory : List Char) : Bool :=
  match t.locate true directory with
  | .found location .directory =>
    t.find? location == some .directory &&
      (Utf8.encodeChars directory).length + 1 + probeBytes < FileTree.pathBytesBound
  | _ => false

/-- The first of some candidates in which a file can be made. -/
def firstUsable (t : FileTree) : List (List Char) → Except SettingsFault (Option Path)
  | [] => .ok none
  | candidate :: rest =>
    match absolute? t candidate with
    | none => .error .currentMissing
    | some directory =>
      if isUsable t directory.text then .ok (some directory) else firstUsable t rest

/-- The directory of the system for temporary files. -/
def find (env : Environment) (t : FileTree) : Except SettingsFault Path :=
  match firstUsable t (candidates env t) with
  | .ok (some directory) => .ok directory
  | .ok none => .error (.noTempDir (candidates env t))
  | .error fault => .error fault

end TempDir

namespace Settings

/-- The settings without variables, below a directory for temporary files. -/
def default (systemDir : Path) : Settings where
  linter := "vale"
  timeout := some (.ofRatio false 600 1)
  tempDir := ⟨systemDir.anchor, systemDir.names ++ ["vale-frontmatter".toList]⟩
  defaultPattern := "**/*.md"

/-- The text for the home of a user, the empty name standing for the one who calls. -/
def homeText? (env : Environment) (homes : Homes) (user : FileName) : Option (List Char) :=
  if user.isEmpty then (env.lookup "HOME").map String.toList <|> homes user else homes user

/-- The directory that stands for a tilde and the name of a user, read without slashes at its
end. -/
def home? (env : Environment) (homes : Homes) (user : FileName) : Option Path :=
  match homeText? env homes user with
  | none => none
  | some home =>
    let stem := (home.reverse.dropWhile (· == '/')).reverse
    if stem.head? = some '~' then none
    else some (.ofText (if stem.isEmpty then ['/'] else stem))

/-- Replace a tilde that starts the first name of a relative path. -/
def expandHome (env : Environment) (homes : Homes) (p : Path) : Except SettingsFault Path :=
  match p.anchor, p.names with
  | .relative, ('~' :: user) :: rest =>
    match home? env homes user with
    | some home => .ok ⟨home.anchor, home.names ++ rest⟩
    | none => .error .homeUnknown
  | _, _ => .ok p

def loadTimeout (env : Environment) (standard : Option Binary64) :
    Except SettingsFault (Option Binary64) :=
  match env.value? "VALE_FRONTMATTER_TIMEOUT" with
  | some value => (Timeout.read (Text.ofString value)).mapError .timeout
  | none => .ok standard

def loadTempDir (env : Environment) (homes : Homes) (standard : Path) :
    Except SettingsFault Path :=
  match env.value? "VALE_FRONTMATTER_TEMP_DIR" with
  | some value => expandHome env homes (.ofString value)
  | none => .ok standard

/-- The settings under an environment. The directory of the system for temporary files is looked
for first, then the timeout is read and then the directory for projections. -/
def load (env : Environment) (homes : Homes) (t : FileTree) : Except SettingsFault Settings := do
  let standard := default (← TempDir.find env t)
  let timeout ← loadTimeout env standard.timeout
  let tempDir ← loadTempDir env homes standard.tempDir
  return {
    linter := (env.value? "VALE_FRONTMATTER_LINTER").getD standard.linter
    timeout := timeout
    tempDir := tempDir
    defaultPattern := standard.defaultPattern }

end Settings

end FrontLint
