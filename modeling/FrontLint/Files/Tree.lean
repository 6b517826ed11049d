import FrontLint.Files.Fault
import FrontLint.Files.Path
import FrontLint.Text.Utf8

/-!
# File trees

A tree maps locations, the names from its top down, to files, directories and links. A path
is followed name by name from the top or from the current directory; links on the way are
followed too, and two dots lead to the directory above the one that was reached.
-/

namespace FrontLint

abbrev Location := List FileName

inductive Entry where
  | file (content : Bytes)
  | directory
  | link (target : List Char)
deriving DecidableEq

structure FileTree where
  entries : List (Location × Entry)
  /-- The directory from which relative paths start. It may have been removed. -/
  current : Location
deriving DecidableEq

/-- Where a path leads. -/
inductive Place where
  | found (location : Location) (entry : Entry)
  /-- A name that is free in a directory. -/
  | free (directory : Location) (name : FileName)
  | refused (cause : FileCause)

namespace FileTree

/-- What stands at a location. The top is a directory. -/
def find? (t : FileTree) (location : Location) : Option Entry :=
  if location = [] then some .directory else t.entries.lookup location

/-- Put an entry at a location, in place of the one that may be there. -/
def put (t : FileTree) (location : Location) (entry : Entry) : FileTree :=
  { t with entries :=
      if (t.entries.lookup location).isSome then
        t.entries.map fun e => if e.1 = location then (location, entry) else e
      else t.entries ++ [(location, entry)] }

/-- Remove a location and all below it. -/
def removeBelow (t : FileTree) (location : Location) : FileTree :=
  { t with entries := t.entries.filter fun e => !location.isPrefixOf e.1 }

theorem lookup_map_replace [BEq α] [LawfulBEq α] [DecidableEq α] (l : List (α × β)) (a k : α)
    (b : β) :
    (l.map fun e => if e.1 = a then (a, b) else e).lookup k =
      if k = a then (l.lookup a).map fun _ => b else l.lookup k := by
  induction l with
  | nil => simp
  | cons e l ih =>
    obtain ⟨x, y⟩ := e
    by_cases hx : x = a
    · subst hx
      by_cases hk : k = x
      · simp [hk]
      · simp [List.lookup_cons, hk, ih, beq_eq_false_iff_ne.2 hk]
    · by_cases hk : k = a
      · subst hk
        simpa [List.lookup_cons, hx, beq_eq_false_iff_ne.2 (Ne.symm hx)] using ih
      · by_cases hkx : k = x <;> simp [List.lookup_cons, hx, hk, hkx, ih]

theorem lookup_filter_key [BEq α] [LawfulBEq α] (p : α → Bool) (l : List (α × β)) (k : α) :
    (l.filter fun e => p e.1).lookup k = if p k then l.lookup k else none := by
  induction l with
  | nil => simp
  | cons e l ih =>
    obtain ⟨x, y⟩ := e
    by_cases hk : k = x
    · subst hk
      cases hp : p k <;> simp [hp, ih]
    · cases hp : p x <;> simp [List.lookup_cons, hp, ih, beq_eq_false_iff_ne.2 hk]

@[simp] theorem find?_nil (t : FileTree) : t.find? [] = some .directory := by
  simp [find?]

theorem find?_put (t : FileTree) {location : Location} (h : location ≠ []) (entry : Entry)
    (other : Location) :
    (t.put location entry).find? other =
      if other = location then some entry else t.find? other := by
  by_cases ho : other = []
  · simp [find?, ho, Ne.symm h]
  · cases hl : t.entries.lookup location with
    | none =>
      by_cases he : other = location
      · simp [find?, put, hl, he, h, List.lookup_append]
      · cases hother : t.entries.lookup other <;>
          simp [find?, put, hl, he, ho, hother, List.lookup_append, List.lookup_cons,
            beq_eq_false_iff_ne.2 he]
    | some old =>
      have := lookup_map_replace t.entries location other entry
      by_cases he : other = location <;> simp_all [find?, put]

theorem find?_removeBelow (t : FileTree) {location : Location} (h : location ≠ [])
    (other : Location) :
    (t.removeBelow location).find? other =
      if location <+: other then none else t.find? other := by
  by_cases ho : other = []
  · simp [find?, ho, h]
  · simp only [find?, if_neg ho]
    refine (lookup_filter_key (fun k => !location.isPrefixOf k) t.entries other).trans ?_
    by_cases hp : location.isPrefixOf other = true
    · simp [hp, List.isPrefixOf_iff_prefix.1 hp]
    · simp [hp, mt List.isPrefixOf_iff_prefix.2 hp]

/-- The names in a directory. -/
def namesIn (t : FileTree) (directory : Location) : List FileName :=
  t.entries.filterMap fun e =>
    if e.1.dropLast = directory then e.1.getLast? else none

/-- The names of a text of a path. A slash at its end asks for a directory, as a dot does. -/
def stepsOf (path : List Char) : List FileName :=
  (path.splitOn '/').filter (· ≠ []) ++
    (if path.getLast? = some '/' then [FileName.here] else [])

/-- The directory from which the names of a path or of a link are followed. -/
def startOf (directory : Location) (path : List Char) : Location :=
  if path.head? = some '/' then [] else directory

/-- The greatest number of bytes in a name. -/
def maxNameBytes : Nat := 255

/-- The number of bytes that a path does not reach. -/
def pathBytesBound : Nat := 4096

/-- The greatest number of links that are followed on a path. -/
def maxLinks : Nat := 40

/-- Follow names from a directory. `onLink` goes on from a link; a link under the last name
is followed only if `last` says so. -/
def walk (t : FileTree) (last : Bool) (onLink : Location → List FileName → Place) :
    Location → List FileName → Place
  | directory, [] => .found directory .directory
  | directory, name :: rest =>
    if name = FileName.here then walk t last onLink directory rest
    else if name = FileName.above then walk t last onLink directory.dropLast rest
    else if maxNameBytes < (Utf8.encodeChars name).length then .refused .nameTooLong
    else
      match t.find? (directory ++ [name]) with
      | none => if rest.isEmpty then .free directory name else .refused .missing
      | some .directory => walk t last onLink (directory ++ [name]) rest
      | some (.file content) =>
        if rest.isEmpty then .found (directory ++ [name]) (.file content)
        else .refused .notDirectory
      | some (.link target) =>
        if rest.isEmpty && !last then .found (directory ++ [name]) (.link target)
        else onLink (startOf directory target) (stepsOf target ++ rest)

/-- Follow names and a number of links. -/
def follow (t : FileTree) (last : Bool) : Nat → Location → List FileName → Place
  | 0 => walk t last fun _ _ => .refused .tooManyLinks
  | links + 1 => walk t last (follow t last links)

/-- Where the text of a path leads. -/
def locate (t : FileTree) (last : Bool) (path : List Char) : Place :=
  if path.isEmpty then .refused .missing
  else if pathBytesBound ≤ (Utf8.encodeChars path).length then .refused .nameTooLong
  else follow t last maxLinks (startOf t.current path) (stepsOf path)

/-- What a path leads to. A path that holds a NUL leads nowhere. -/
def entryAt? (t : FileTree) (last : Bool) (path : List Char) : Option Entry :=
  if path.contains '\x00' then none
  else
    match t.locate last path with
    | .found _ entry => some entry
    | _ => none

/-- Whether a path leads to a file. A path that is too long, or becomes so behind a link, is
refused an answer. -/
def isFile (t : FileTree) (path : List Char) : Except FileFault Bool :=
  if path.contains '\x00' then .ok false
  else
    match t.locate true path with
    | .found _ (.file _) => .ok true
    | .found _ _ | .free _ _ => .ok false
    | .refused cause => if cause.isAbsence then .ok false else .error (.refused cause path)

def isDirectory (t : FileTree) (path : List Char) : Bool :=
  match t.entryAt? true path with
  | some .directory => true
  | _ => false

def isThere (t : FileTree) (path : List Char) : Bool := (t.entryAt? true path).isSome

/-- Whether something, be it a link to nothing, has a path. -/
def isNamed (t : FileTree) (path : List Char) : Bool := (t.entryAt? false path).isSome

/-- The current directory as a path, if it is still there. -/
def currentPath? (t : FileTree) : Option Path :=
  if t.find? t.current = some .directory then some ⟨.slash, t.current⟩ else none

/-- The names in the directory to which a path leads. -/
def list (t : FileTree) (path : List Char) : Except FileFault (List FileName) :=
  if path.contains '\x00' then .error .nulInPath
  else
    match t.locate true path with
    | .found location .directory => .ok (t.namesIn location)
    | .found _ _ => .error (.refused .notDirectory path)
    | .free _ _ => .error (.refused .missing path)
    | .refused cause => .error (.refused cause path)

def read (t : FileTree) (path : List Char) : Except FileFault Bytes :=
  if path.contains '\x00' then .error .nulInPath
  else
    match t.locate true path with
    | .found _ (.file content) => .ok content
    | .found _ _ => .error (.refused .isDirectory path)
    | .free _ _ => .error (.refused .missing path)
    | .refused cause => .error (.refused cause path)

/-- Put an entry at the free name to which a path leads. A directory that is gone, as the
current one may be, takes none. -/
def add (t : FileTree) (path : List Char) (directory : Location) (name : FileName)
    (entry : Entry) : Except FileFault FileTree :=
  if t.find? directory = some .directory then .ok (t.put (directory ++ [name]) entry)
  else .error (.refused .missing path)

/-- Write a file, new or in place of an older one. -/
def write (t : FileTree) (path : List Char) (content : Bytes) : Except FileFault FileTree :=
  if path.contains '\x00' then .error .nulInPath
  else
    match t.locate true path with
    | .found location (.file _) => .ok (t.put location (.file content))
    | .found _ _ => .error (.refused .isDirectory path)
    | .free directory name => t.add path directory name (.file content)
    | .refused cause => .error (.refused cause path)

def makeDirectory (t : FileTree) (path : List Char) : Except FileFault FileTree :=
  if path.contains '\x00' then .error .nulInPath
  else
    match t.locate false path with
    | .found _ _ => .error (.refused .alreadyThere path)
    | .free directory name => t.add path directory name .directory
    | .refused cause => .error (.refused cause path)

/-- Make a directory unless it is there. -/
def ensureDirectory (t : FileTree) (path : List Char) : Except FileFault FileTree :=
  match t.makeDirectory path with
  | .error (.refused cause blamed) =>
    if t.isDirectory path then .ok t else .error (.refused cause blamed)
  | result => result

/-- Make the directory of an anchor and names, the lowest one first, and those above it
that are missing. The tree keeps what was made before a fault. -/
def ensureNames (anchor : Anchor) : List FileName → FileTree → Except FileFault Unit × FileTree
  | names, t =>
    let path := (Path.mk anchor names.reverse).text
    match t.makeDirectory path, names with
    | .ok made, _ => (.ok (), made)
    | .error (.refused .missing _), _ :: above =>
      match ensureNames anchor above t with
      | (.ok _, made) =>
        match made.ensureDirectory path with
        | .ok made => (.ok (), made)
        | .error fault => (.error fault, made)
      | stopped => stopped
    | .error (.refused cause blamed), _ =>
      (if t.isDirectory path then .ok () else .error (.refused cause blamed), t)
    | .error .nulInPath, _ => (.error .nulInPath, t)

def ensurePath (t : FileTree) (p : Path) : Except FileFault Unit × FileTree :=
  ensureNames p.anchor p.names.reverse t

/-- Remove a directory and all below it. Anything else stays. -/
def removeDirectory (t : FileTree) (path : List Char) : FileTree :=
  match t.locate false path with
  | .found location .directory => t.removeBelow location
  | _ => t

/-- Follow names as far as there are links; names of nothing stay. -/
def resolveNames (t : FileTree) (onLink : Location → List FileName → Location) :
    Location → List FileName → Location
  | directory, [] => directory
  | directory, name :: rest =>
    if name = FileName.here then resolveNames t onLink directory rest
    else if name = FileName.above then resolveNames t onLink directory.dropLast rest
    else
      match t.find? (directory ++ [name]) with
      | some (.link target) => onLink (startOf directory target) (stepsOf target ++ rest)
      | _ => resolveNames t onLink (directory ++ [name]) rest

def resolveLinks (t : FileTree) : Nat → Location → List FileName → Location
  | 0 => resolveNames t fun directory names => directory ++ names
  | links + 1 => resolveNames t (resolveLinks t links)

/-- The absolute path without links and dots to which a path leads. Behind the last link that
is followed names stay as they are. A path that runs in a circle of links has none, which is
left out: the root of a cache, which is resolved here, has just been made. -/
def resolve (t : FileTree) (p : Path) : Path :=
  let start := if p.isAbsolute then [] else t.current
  ⟨.slash, t.resolveLinks maxLinks start p.names⟩

end FileTree

end FrontLint
