import FrontLint.Text.Quoted

/-!
# File faults

Why the file system refuses an operation on a path, with the number and the wording under
which each cause is reported.
-/

namespace FrontLint

inductive FileCause where
  | missing
  | badFormat
  | notPermitted
  | alreadyThere
  | notDirectory
  | isDirectory
  | nameTooLong
  | tooManyLinks
deriving DecidableEq

namespace FileCause

def number : FileCause → Nat
  | .missing => 2
  | .badFormat => 8
  | .notPermitted => 13
  | .alreadyThere => 17
  | .notDirectory => 20
  | .isDirectory => 21
  | .nameTooLong => 36
  | .tooManyLinks => 40

def wording : FileCause → String
  | .missing => "No such file or directory"
  | .badFormat => "Exec format error"
  | .notPermitted => "Permission denied"
  | .alreadyThere => "File exists"
  | .notDirectory => "Not a directory"
  | .isDirectory => "Is a directory"
  | .nameTooLong => "File name too long"
  | .tooManyLinks => "Too many levels of symbolic links"

/-- Whether a cause is an answer to the question what is there: that nothing is. -/
def isAbsence : FileCause → Bool
  | .missing | .notDirectory | .tooManyLinks => true
  | _ => false

end FileCause

inductive FileFault where
  | refused (cause : FileCause) (path : List Char)
  /-- The path holds the character that would end it. -/
  | nulInPath
deriving DecidableEq

def FileFault.message : FileFault → String
  | .refused cause path =>
      s!"[Errno {cause.number}] {cause.wording}: {(Text.ofChars path).quoted}"
  | .nulInPath => "embedded null byte"

/-- What is said if the current directory is gone. No path is named. -/
def FileFault.currentMissingText : String :=
  s!"[Errno {FileCause.missing.number}] {FileCause.missing.wording}"

end FrontLint
