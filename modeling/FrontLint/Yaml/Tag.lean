import FrontLint.Text.Quoted

/-!
# Tags

A tag names the type of a node. The tags of the core schema share a common beginning; every
other tag is known by its name only.
-/

namespace FrontLint.Yaml

inductive Tag where
  | null
  | bool
  | int
  | float
  | binary
  | timestamp
  | omap
  | pairs
  | set
  | str
  | seq
  | map
  | merge
  | value
  | yaml
  | other (name : List Char)
deriving DecidableEq

namespace Tag

/-- The beginning of the names of the core tags. -/
def coreStem : List Char := "tag:yaml.org,2002:".toList

/-- The core tags with what follows the stem in their names. -/
def coreEndings : List (Tag × String) :=
  [(.null, "null"), (.bool, "bool"), (.int, "int"), (.float, "float"), (.binary, "binary"),
    (.timestamp, "timestamp"), (.omap, "omap"), (.pairs, "pairs"), (.set, "set"),
    (.str, "str"), (.seq, "seq"), (.map, "map"), (.merge, "merge"), (.value, "value"),
    (.yaml, "yaml")]

def name : Tag → List Char
  | .other name => name
  | tag => coreStem ++ ((coreEndings.lookup tag).getD "").toList

def ofName (name : List Char) : Tag :=
  match coreEndings.find? fun entry => entry.1.name = name with
  | some (tag, _) => tag
  | none => .other name

/-- The name in quotes. -/
def quoted (tag : Tag) : String := (Text.ofChars tag.name).quoted

end Tag

end FrontLint.Yaml
