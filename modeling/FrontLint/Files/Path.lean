/-!
# Paths

A path is an anchor and the names below it. Reading a text drops empty names and names of a
single dot; two dots stay, since the directory above depends on links. Normalising takes
two dots as the removal of the name before them.
-/

namespace FrontLint

/-- A name between slashes. -/
abbrev FileName := List Char

def FileName.here : FileName := ['.']

def FileName.above : FileName := ['.', '.']

/-- Where a path starts. A start of exactly two slashes is told apart from one of one slash
or of three and more. -/
inductive Anchor where
  | relative
  | slash
  | twoSlashes
deriving DecidableEq

namespace Anchor

def ofText : List Char → Anchor
  | '/' :: '/' :: '/' :: _ => .slash
  | '/' :: '/' :: _ => .twoSlashes
  | '/' :: _ => .slash
  | _ => .relative

def text : Anchor → List Char
  | .relative => []
  | .slash => ['/']
  | .twoSlashes => ['/', '/']

end Anchor

structure Path where
  anchor : Anchor
  names : List FileName
deriving DecidableEq

/-- Names with a slash between each and the next. -/
def slashed : List FileName → List Char
  | [] => []
  | [name] => name
  | name :: next :: rest => name ++ '/' :: slashed (next :: rest)

namespace Path

/-- Whether a name stays when a path is read. -/
def isName (name : FileName) : Bool := name != [] && name != FileName.here

def ofText (t : List Char) : Path :=
  ⟨Anchor.ofText t, (t.splitOn '/').filter isName⟩

def ofString (s : String) : Path := ofText s.toList

/-- The text of a path; the relative path without names is a dot. -/
def text (p : Path) : List Char :=
  match p.anchor, p.names with
  | .relative, [] => FileName.here
  | anchor, names => anchor.text ++ slashed names

def toString (p : Path) : String := String.ofList p.text

def isAbsolute (p : Path) : Bool := p.anchor != .relative

/-- A path seen from another one: an absolute path stays as it is. -/
def join (p q : Path) : Path :=
  match q.anchor with
  | .relative => ⟨p.anchor, p.names ++ q.names⟩
  | _ => q

def parent (p : Path) : Path := ⟨p.anchor, p.names.dropLast⟩

/-- Put a name below names that lie above it, the nearest first. Two dots remove the
nearest name. Above an anchor there is nothing; above the start of a relative path they
stay. -/
def descend (absolute : Bool) (above : List FileName) (name : FileName) : List FileName :=
  if name = FileName.above then
    match above with
    | [] => if absolute then [] else [name]
    | nearest :: rest => if nearest = FileName.above then name :: above else rest
  else name :: above

def normalNames (absolute : Bool) (names : List FileName) : List FileName :=
  (names.foldl (descend absolute) []).reverse

def normal (p : Path) : Path := ⟨p.anchor, normalNames p.isAbsolute p.names⟩

/-- The names of a path below a base with the same anchor. -/
def below? (base p : Path) : Option (List FileName) :=
  if p.anchor = base.anchor ∧ base.names <+: p.names then some (p.names.drop base.names.length)
  else none

/-- The names of a path without its first part, which is the anchor if there is one. -/
def namesAfterFirst (p : Path) : List FileName :=
  if p.isAbsolute then p.names else p.names.drop 1

@[simp] theorem join_anchor_relative (p : Path) (names : List FileName) :
    p.join ⟨.relative, names⟩ = ⟨p.anchor, p.names ++ names⟩ := rfl

theorem join_of_isAbsolute (p : Path) {q : Path} (h : q.isAbsolute = true) : p.join q = q := by
  cases q with
  | mk anchor names => cases anchor <;> simp_all [join, isAbsolute]

theorem below?_eq_some_iff {base p : Path} {rest : List FileName} :
    base.below? p = some rest ↔ p = ⟨base.anchor, base.names ++ rest⟩ := by
  cases p with
  | mk anchor names =>
    constructor
    · intro h
      simp only [below?] at h
      split at h
      · rename_i hb
        obtain ⟨ha, tail, rfl⟩ := hb
        simp_all
      · simp at h
    · intro h
      simp_all [below?]

/-- Names that are not two dots are put below those above them, the last one nearest. -/
theorem foldl_descend_of_not_mem (absolute : Bool) {names : List FileName}
    (h : FileName.above ∉ names) (above : List FileName) :
    names.foldl (descend absolute) above = names.reverse ++ above := by
  induction names generalizing above with
  | nil => rfl
  | cons name names ih =>
    simp only [List.mem_cons, not_or] at h
    simp [descend, Ne.symm h.1, ih h.2]

theorem normalNames_append (absolute : Bool) (names : List FileName) {rest : List FileName}
    (h : FileName.above ∉ rest) :
    normalNames absolute (names ++ rest) = normalNames absolute names ++ rest := by
  rw [normalNames, List.foldl_append, foldl_descend_of_not_mem absolute h, List.reverse_append,
    List.reverse_reverse, normalNames]

theorem normalNames_of_not_mem (absolute : Bool) {names : List FileName}
    (h : FileName.above ∉ names) : normalNames absolute names = names :=
  normalNames_append absolute [] h

end Path

end FrontLint
