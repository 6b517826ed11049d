import FrontLint.CommandLine.Session

/-!
# The program

The command line on the documents that are named without wildcards. It has no linter of its
own, so a run that comes to call one reports it as not found, and it knows no home directory but
that of the environment.
-/

namespace FrontLint

/-- The variables that settings are read from. -/
def variableNames : List String :=
  ["VALE_FRONTMATTER_LINTER", "VALE_FRONTMATTER_TIMEOUT", "VALE_FRONTMATTER_TEMP_DIR", "HOME",
    "TMPDIR", "TEMP", "TMP"]

def readEnvironment : IO Environment := do
  let values ← variableNames.mapM fun name => do
    return (← IO.getEnv name).map fun value => (name, value)
  return values.filterMap id

/-- Put a document from the disk into a tree, if it can be read. -/
def addDocument (t : FileTree) (name : String) : IO FileTree := do
  try
    let content ← IO.FS.readBinFile name
    let path := (Path.mk .slash t.current).join (.ofString name)
    let made := (t.ensurePath path.parent).2
    return (made.write path.text content.toList).toOption.getD made
  catch _ => return t

/-- The tree of the current directory with the documents that arguments may name. -/
def readFiles (args : List String) : IO FileTree := do
  let current := Path.ofString ((← IO.getEnv "PWD").getD "/")
  let t := ((FileTree.mk [] []).ensurePath current).2
  args.foldlM addDocument { t with current := current.names }

/-- A key that no other process has, except by chance. -/
def drawKey : IO SipHash.Key := do
  let first ← IO.rand 0 (UInt64.size - 1)
  let second ← IO.rand 0 (UInt64.size - 1)
  return ⟨first.toUInt64, second.toUInt64⟩

def noLinter : Linter := fun command _ => .refused (.refused .missing command.program.toList)

end FrontLint

def main (args : List String) : IO UInt32 := do
  let _ : FrontLint.HashSeed := ⟨← FrontLint.drawKey, 0, 0⟩
  let session := FrontLint.Session.run args {
    environment := ← FrontLint.readEnvironment
    homes := fun _ => none
    linter := FrontLint.noLinter
    files := ← FrontLint.readFiles args
    rootName := (toString (← IO.rand 100000 999999)).toList
    console := .plain
    stdout := .plain }
  IO.print (String.ofList session.output)
  IO.eprint session.errors
  return session.status.toUInt32
