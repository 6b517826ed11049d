import FrontLint.Yaml.Graph.Basic

/-!
# Merge keys

A mapping takes over the entries of the mappings that its merge keys refer to, in front of
its own, so that its own entries win. Of the mappings in one list the first one wins. The
mappings referred to take over theirs first. A key that is a lone equals sign becomes a
plain string on the way.
-/

namespace FrontLint.Yaml.Graph

/-- The graph is changed in place, since other nodes refer to the changed mappings. -/
abbrev Edit := StateT Graph (Except Fault)

def entriesOf (g : Graph) (n : Nat) : List (Nat × Nat) :=
  match g.node n with
  | .mapping _ entries => entries
  | _ => []

/-- Make the keys with the value tag strings. -/
def retagKeys (g : Graph) (entries : List (Nat × Nat)) : Graph :=
  entries.foldl (fun g e => if g.tagOf e.1 = .value then g.retag e.1 .str else g) g

/-- The number of entries of all mappings. -/
def entryCount (g : Graph) : Nat :=
  g.foldl (fun count node =>
    match node with
    | .mapping _ entries => count + entries.length
    | _ => count) 0

mutual

/-- Merge into the mapping `n` what the merge keys from position `start` on refer to, given
the entries taken over so far. Each step removes a merge key, and between two removals lies
at most the way along the items of one sequence. -/
def mergeFrom : Nat → Nat → Nat → List (Nat × Nat) → Edit Unit
  | 0, _, _, _ => throw .exhausted
  | fuel + 1, n, start, taken => do
    let g ← get
    let entries := g.entriesOf n
    let before := (entries.drop start).takeWhile fun e => g.tagOf e.1 != .merge
    set (g.retagKeys before)
    let position := start + before.length
    match entries[position]? with
    | none => modify fun g => g.setEntries n (taken ++ entries)
    | some (_, source) =>
      modify fun g => g.setEntries n (entries.eraseIdx position)
      let more ←
        match (← get).node source with
        | .mapping _ _ =>
          mergeFrom fuel source 0 []
          pure ((← get).entriesOf source)
        | .sequence _ items => pure ((← mergeItems fuel items).reverse.flatten)
        | .scalar _ _ => throw (.assembly .mapping)
      mergeFrom fuel n position (taken ++ more)

/-- The entries of each mapping in a list, after what it merges itself. -/
def mergeItems : Nat → List Nat → Edit (List (List (Nat × Nat)))
  | _, [] => return []
  | 0, _ => throw .exhausted
  | fuel + 1, item :: rest => do
    match (← get).node item with
    | .mapping _ _ =>
      mergeFrom fuel item 0 []
      let entries := (← get).entriesOf item
      return entries :: (← mergeItems fuel rest)
    | _ => throw (.assembly .mapping)

end

/-- The number of items of all sequences. -/
def itemCount (g : Graph) : Nat :=
  g.foldl (fun count node =>
    match node with
    | .sequence _ items => count + items.length
    | _ => count) 0

/-- Merge into a mapping what its merge keys refer to. -/
def merge (n : Nat) : Edit Unit := do
  let g ← get
  mergeFrom (g.entryCount * (g.itemCount + 1) + 1) n 0 []

end FrontLint.Yaml.Graph
