import FrontLint.Files.Fault
import FrontLint.Files.Path
import FrontLint.Linter
import FrontLint.Projection
import FrontLint.Text.Utf8

/-!
# Faults

Why a run, or a step of it, gives no result. Some faults concern one document only: a run
notes them and goes on with the other documents.
-/

namespace FrontLint

inductive CacheFault where
  /-- No cache can be made below a directory. -/
  | notCreated (directory : Path) (cause : FileFault)
  | notWritten (target : Path) (cause : FileFault)
deriving DecidableEq

def CacheFault.message : CacheFault → String
  | .notCreated directory cause =>
      s!"Cannot create cache directory in {directory.toString}: {cause.message}"
  | .notWritten target cause =>
      s!"Cannot write projection {target.toString}: {cause.message}"

inductive Fault where
  | file (fault : FileFault)
  | decoding (fault : Utf8.DecodeFault)
  | encoding (fault : Utf8.EncodeFault)
  | projection (fault : Projection.Fault)
  | cache (fault : CacheFault)
  | linter (fault : LinterFault)
  /-- The current directory, from which documents are named, is gone. -/
  | currentMissing
  /-- The console refuses the line for a document. -/
  | console (reason : String)
  /-- The user interrupted the run. -/
  | interrupted
  /-- The run was asked to terminate. -/
  | terminated

namespace Fault

def message : Fault → String
  | .file fault => fault.message
  | .decoding fault => fault.message
  | .encoding fault => fault.message
  | .projection fault => fault.message
  | .cache fault => fault.message
  | .linter fault => fault.message
  | .currentMissing => FileFault.currentMissingText
  | .console reason => reason
  | .interrupted | .terminated => ""

/-- Whether a fault concerns one document only. -/
def isOfDocument : Fault → Bool
  | .file (.refused _ _) => true
  | .decoding _ => true
  | .projection (.block fault) => fault.isOfBlock
  | .cache _ => true
  | _ => false

end Fault

end FrontLint
