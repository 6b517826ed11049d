import FrontLint.Yaml.Fault

/-!
# Graphs

The nodes of a block, numbered in the order in which they begin. Collections refer to their
parts by number, so a node with an anchor can be part of several others, or of itself.
-/

namespace FrontLint.Yaml

inductive Node where
  | scalar (tag : Tag) (text : Text)
  | sequence (tag : Tag) (items : List Nat)
  | mapping (tag : Tag) (entries : List (Nat × Nat))
deriving DecidableEq

namespace Node

instance : Inhabited Node := ⟨.scalar .null []⟩

def tag : Node → Tag
  | .scalar tag _ | .sequence tag _ | .mapping tag _ => tag

def kind : Node → Kind
  | .scalar _ _ => .scalar
  | .sequence _ _ => .sequence
  | .mapping _ _ => .mapping

end Node

abbrev Graph := Array Node

namespace Graph

def node (g : Graph) (n : Nat) : Node := g[n]?.getD default

def tagOf (g : Graph) (n : Nat) : Tag := (g.node n).tag

def setEntries (g : Graph) (n : Nat) (entries : List (Nat × Nat)) : Graph :=
  g.setIfInBounds n (.mapping (g.tagOf n) entries)

/-- Give a scalar another tag. -/
def retag (g : Graph) (n : Nat) (tag : Tag) : Graph :=
  match g.node n with
  | .scalar _ text => g.setIfInBounds n (.scalar tag text)
  | .sequence _ items => g.setIfInBounds n (.sequence tag items)
  | .mapping _ entries => g.setIfInBounds n (.mapping tag entries)

end Graph

end FrontLint.Yaml
