import FrontLint.Fault
import FrontLint.Files.Glob
import FrontLint.Note

/-!
# Caches

A cache keeps the projections of one run below a root of its own. A document below the base
directory has its projection at the same place below the root; any other one at its absolute
place.
-/

namespace FrontLint

variable [HashSeed]

structure Cache where
  root : Path
  /-- The directory from which documents are named. -/
  base : Path
deriving DecidableEq

/-- A fault in a file operation of the cache; a path with a NUL is not the cache's fault. -/
def CacheFault.ofFile (blame : FileFault → CacheFault) : FileFault → Fault
  | .nulInPath => .file .nulInPath
  | fault => .cache (blame fault)

/-- Read a file as text. Each kind of line end becomes a line feed. -/
def FileTree.readText (t : FileTree) (path : List Char) : Except Fault Text :=
  match t.read path with
  | .error fault => .error (.file fault)
  | .ok content =>
    match Utf8.decode content with
    | .error fault => .error (.decoding fault)
    | .ok chars => .ok (Text.ofChars (unifyLineEnds chars))

namespace Cache

/-- The names below the root under which a document's projection is kept. -/
def namesFor (c : Cache) (source : Path) : List FileName :=
  let place := (c.base.join source).normal
  (c.base.below? place).getD place.namesAfterFirst

def pathFor (c : Cache) (source : Path) : Path := ⟨c.root.anchor, c.root.names ++ c.namesFor source⟩

/-- Make a cache with a root of a fresh name below a directory. -/
def create (directory base : Path) (name : FileName) (t : FileTree) :
    Noted Fault Cache × FileTree :=
  let blame := CacheFault.ofFile (.notCreated directory)
  match t.ensurePath directory with
  | (.error fault, made) => (.fail (blame fault), made)
  | (.ok _, made) =>
    let root := Glob.attach directory.text name
    match made.makeDirectory root with
    | .error fault => (.fail (blame fault), made)
    | .ok made => (⟨[.rootCreated (String.ofList root)], .ok ⟨.ofText root, base⟩⟩, made)

/-- Write the projection of a document. A text that cannot be encoded leaves an empty file. -/
def write (c : Cache) (source : Path) (p : Projection) (t : FileTree) :
    Except Fault Path × FileTree :=
  let target := c.pathFor source
  let blame := CacheFault.ofFile (.notWritten target)
  match t.ensurePath target.parent with
  | (.error fault, made) => (.error (blame fault), made)
  | (.ok _, made) =>
    match Utf8.encode p.text with
    | .ok content =>
      match made.write target.text content with
      | .error fault => (.error (blame fault), made)
      | .ok written => (.ok target, written)
    | .error fault =>
      match made.write target.text [] with
      | .error fault => (.error (blame fault), made)
      | .ok emptied => (.error (.encoding fault), emptied)

/-- The projection of a file of the tree. -/
def project (c : Cache) (file : List Char) (t : FileTree) : Noted Fault (Option Projection) := do
  let text ← Noted.ofExcept (t.readText (c.base.join (.ofText file)).text)
  (Projection.ofText? text).mapFault .projection

/-- Write the projection of a file, `none` if nothing in it is to be linted. -/
def process (c : Cache) (file : List Char) (t : FileTree) :
    Noted Fault (Option Path) × FileTree :=
  let projected := c.project file t
  match projected.result with
  | .error fault => (⟨projected.notes, .error fault⟩, t)
  | .ok none => (⟨projected.notes, .ok none⟩, t)
  | .ok (some p) =>
    let (written, t) := c.write (.ofText file) p t
    (⟨projected.notes, written.map some⟩, t)

/-- Remove the root and all below it. -/
def remove (c : Cache) (t : FileTree) : List Note × FileTree :=
  if t.isThere c.root.text then
    ([.rootRemoved c.root.toString], t.removeDirectory c.root.text)
  else ([], t)

end Cache

end FrontLint
