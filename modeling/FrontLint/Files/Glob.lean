import FrontLint.Files.Tree
import FrontLint.Files.Wildcard

/-!
# Glob patterns

A glob is a text without wildcards to start from, and the segments behind it. A segment is a
name, a pattern for names, or two stars for any number of directories. A match is spelled as
the pattern is: it keeps the text that the glob starts from. Names that start with a dot are
matched only by a segment that does.
-/

namespace FrontLint

inductive Segment where
  /-- A name without wildcards; the empty one, behind a last slash, asks for a directory. -/
  | name (name : FileName)
  /-- Two stars. -/
  | depth
  | pattern (wildcards : List Wildcard) (dotted : Bool)

structure Glob where
  start : List Char
  segments : List Segment

namespace Glob

def isDotted (name : FileName) : Bool := name.head? == some '.'

def segmentOf (text : FileName) : Segment :=
  if text = ['*', '*'] then .depth
  else if Wildcard.occurIn text then .pattern (Wildcard.ofText text) (isDotted text)
  else .name text

/-- A text without the slashes at its end, unless it has nothing else. -/
def dropSlashes (t : List Char) : List Char :=
  let kept := (t.reverse.dropWhile (· == '/')).reverse
  if kept.isEmpty then t else kept

/-- Names and, if the last one is empty, the empty name behind them. -/
def segmentNames (names : List FileName) : List FileName :=
  names.filter (· ≠ []) ++ (if names.getLast? = some [] then [[]] else [])

/-- Read a pattern that holds a wildcard. -/
def ofText (t : List Char) : Glob :=
  let names := t.splitOn '/'
  let plain := names.takeWhile fun n => !Wildcard.occurIn n
  ⟨dropSlashes (plain.flatMap fun n => n ++ ['/']),
    (segmentNames (names.drop plain.length)).map segmentOf⟩

/-- A text of a path behind another one; a text that starts with a slash stays alone. -/
def attach (a b : List Char) : List Char :=
  if b.head? = some '/' then b
  else if a.isEmpty || a.getLast? = some '/' then a ++ b
  else a ++ '/' :: b

/-- As `attach`, but without a slash at the end if one of the texts is empty. -/
def within (a b : List Char) : List Char :=
  if a.isEmpty then b else if b.isEmpty then a else attach a b

/-- The names in a directory, or only those that lead to directories. What is no directory
has none. -/
def listing (t : FileTree) (directories : Bool) (path : List Char) :
    Except FileFault (List FileName) :=
  match t.list path with
  | .ok names =>
    .ok (if directories then names.filter fun n => t.isDirectory (attach path n) else names)
  | .error .nulInPath => .error .nulInPath
  | .error (.refused _ _) => .ok []

/-- All below a directory, down to a depth. -/
def below (t : FileTree) (directories : Bool) :
    Nat → List Char → Except FileFault (List (List Char))
  | 0, _ => .ok []
  | depth + 1, path => do
    let names ← listing t directories path
    let found ← (names.filter fun n => !isDotted n).mapM fun n => do
      let inner ← below t directories depth (within path n)
      return n :: inner.map (within n)
    return found.flatten

/-- No path is deeper than this. -/
def depthBound : Nat := FileTree.pathBytesBound

/-- What a segment matches in a directory. Two stars match all below it and the directory itself,
whether or not it is one: a pattern of a file and two stars behind it matches the file, with a
slash. This is what release 3.11.8 of the matcher does; releases from 3.11.10 on ask for a
directory there. -/
def segmentMatches (t : FileTree) (directories : Bool) (path : List Char) :
    Segment → Except FileFault (List (List Char))
  | .name [] => .ok (if t.isDirectory path then [[]] else [])
  | .name name => .ok (if t.isNamed (within path name) then [name] else [])
  | .depth => do return [] :: (← below t directories depthBound path)
  | .pattern wildcards dotted => do
    let names ← listing t directories path
    return names.filter fun n => (dotted || !isDotted n) && Wildcard.matchesAll wildcards n

/-- Extend matches by segments. All but the last segment match directories only. -/
def extend (t : FileTree) (root : List Char) :
    List Segment → List (List Char) → Except FileFault (List (List Char))
  | [], found => .ok found
  | segment :: rest, found => do
    let next ← found.mapM fun path => do
      let names ← segmentMatches t (!rest.isEmpty) (within root path) segment
      return names.map (attach path)
    extend t root rest next.flatten

/-- What a text without wildcards matches: itself. -/
def plainMatches (t : FileTree) (root text : List Char) : List (List Char) :=
  let there :=
    if text.getLast? = some '/' then t.isDirectory (within root (dropSlashes text))
    else t.isNamed (within root text)
  if there then [text] else []

/-- The matches of a pattern seen from a directory, without an empty one in the first place. -/
def matchesOf (t : FileTree) (root text : List Char) : Except FileFault (List (List Char)) := do
  let found ←
    if Wildcard.occurIn text then
      let glob := ofText text
      extend t root glob.segments [glob.start]
    else if text.isEmpty then .ok []
    else .ok (plainMatches t root text)
  return if found.head? = some [] then found.tail else found

end Glob

end FrontLint
