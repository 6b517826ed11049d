import FrontLint.Files.Glob

/-!
# Selections

The files that a list of patterns selects: pattern by pattern the matches that are regular
files, in the order of their code points, each at its first match only.
-/

namespace FrontLint

/-- The files listed so far, and the matches that are seen and not looked at again. -/
structure Selection where
  files : List (List Char)
  seen : List (List Char)
  mem_seen_iff : ∀ file, file ∈ seen ↔ file ∈ files

namespace Selection

def empty : Selection := ⟨[], [], fun _ => Iff.rfl⟩

/-- List one more file, which is seen by that. -/
def insert (s : Selection) (file : List Char) : Selection where
  files := s.files ++ [file]
  seen := file :: s.seen
  mem_seen_iff other := by simp [s.mem_seen_iff, or_comm]

/-- List a match, unless it is seen or is no regular file. -/
def offer (regular : List Char → Except FileFault Bool) (s : Selection) (file : List Char) :
    Except FileFault Selection :=
  if s.seen.contains file then .ok s
  else do return if ← regular file then s.insert file else s

/-- Whether a match, seen from a directory, is a regular file. -/
def isRegular (t : FileTree) (base : Path) (file : List Char) : Except FileFault Bool :=
  t.isFile (base.join (Path.ofText file)).text

/-- Whether a text comes before another one by code points, or equals it. -/
def inOrder (a b : List Char) : Bool := !List.lex b a fun x y => x.toNat < y.toNat

def ordered (found : List (List Char)) : List (List Char) := found.mergeSort inOrder

/-- List the files that a pattern matches. -/
def addPattern (t : FileTree) (base : Path) (s : Selection) (pattern : List Char) :
    Except FileFault Selection := do
  let found ← Glob.matchesOf t base.text pattern
  (ordered found).foldlM (offer (isRegular t base)) s

/-- The files that patterns select, seen from a directory. -/
def ofPatterns (t : FileTree) (base : Path) (patterns : List (List Char)) :
    Except FileFault (List (List Char)) := do
  let selection ← patterns.foldlM (addPattern t base) empty
  return selection.files

end Selection

end FrontLint
