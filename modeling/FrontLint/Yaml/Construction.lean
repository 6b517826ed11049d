import FrontLint.Yaml.Graph.Grammar
import FrontLint.Yaml.Graph.Merge
import FrontLint.Yaml.Scalar

/-!
# Construction

The value of a graph. Scalars are made where they are met; a collection is made empty and
filled when all collections met before it are filled, so a fault further out is found before
one further in, and a node that several others share is made once.
-/

namespace FrontLint.Yaml

/-- What a node has become. -/
inductive Made where
  /-- A scalar, and whether it is a key unlike every other, even an equal one. -/
  | scalar (v : Value) (unlike : Bool)
  /-- A collection that is not filled yet. -/
  | unfilled
  | list (items : List Nat)
  | pairs (entries : List (Nat × Nat))
  | map (entries : List (Nat × Nat))
  | set (elements : List Nat)

namespace Construction

structure State where
  graph : Graph
  made : Array (Option Made)
  /-- The collections to be filled, in order. -/
  waiting : List Nat

abbrev Build := StateT State (Except Fault)

/-- The text of a scalar node. A mapping with a key for its value has the text of that
value. -/
def scalarText (g : Graph) : Nat → Nat → Except Fault Text
  | 0, _ => .error .endlessScalar
  | fuel + 1, n =>
    match g.node n with
    | .scalar _ text => .ok text
    | .sequence _ _ => .error (.kind .scalar .sequence)
    | .mapping _ entries =>
      match entries.find? fun e => g.tagOf e.1 = .value with
      | some (_, v) => scalarText g fuel v
      | none => .error (.kind .scalar .mapping)

def textOf (g : Graph) (n : Nat) : Except Fault Text := scalarText g (g.size + 1) n

/-- The scalar with the tag of the schema, and whether it is a key unlike every other. -/
def scalarOf (g : Graph) (n : Nat) : Except Fault (Value × Bool) := do
  let text ← textOf g n
  match g.tagOf n with
  | .null => return (.null, false)
  | .bool => return (.bool (← Scalar.bool text), false)
  | .int => return (.int (← Scalar.int text), false)
  | .float =>
    let x ← Scalar.float text
    return (.float x, x == .nan && !Scalar.isNanConstant text)
  | .binary => return (.bytes (← Scalar.binary text), false)
  | .timestamp =>
    if (g.node n).kind == .mapping then throw .timestampOfMapping
    return (← Scalar.timestamp text, false)
  | _ => return (.text text, false)

/-- Make a node, unless it has been met before. -/
def make (n : Nat) : Build Unit := do
  let s ← get
  if ((s.made[n]?).getD none).isSome then return
  let record (m : Made) (waiting : List Nat) : Build Unit :=
    set { s with made := s.made.setIfInBounds n (some m), waiting := waiting }
  match s.graph.tagOf n with
  | .seq | .map | .set | .omap | .pairs => record .unfilled (s.waiting ++ [n])
  | .null | .bool | .int | .float | .binary | .timestamp | .str =>
    let (v, unlike) ← scalarOf s.graph n
    record (.scalar v unlike) s.waiting
  | tag => throw (.unknownTag tag)

def isScalar (s : State) (n : Nat) : Bool :=
  match s.made[n]? with
  | some (some (.scalar _ _)) => true
  | _ => false

/-- Make the keys and the values of a mapping; only scalars can be keys. -/
def makeEntries : List (Nat × Nat) → Build Unit
  | [] => return ()
  | (k, v) :: rest => do
    make k
    if !isScalar (← get) k then throw (.assembly .mapping)
    make v
    makeEntries rest

/-- The entries of a mapping with what it merges, made. -/
def mappingEntries (n : Nat) : Build (List (Nat × Nat)) := do
  let s ← get
  match s.graph.node n with
  | .mapping _ _ =>
    let (_, g) ← ((Graph.merge n).run s.graph : Except Fault _)
    set { s with graph := g }
    let entries := g.entriesOf n
    makeEntries entries
    return entries
  | other => throw (.kind .mapping other.kind)

/-- The pairs of a sequence of mappings with one entry each, made. -/
def pairEntries (assembly : Assembly) : List Nat → Build (List (Nat × Nat))
  | [] => return []
  | n :: rest => do
    match (← get).graph.node n with
    | .mapping _ [(k, v)] =>
      make k
      make v
      return (k, v) :: (← pairEntries assembly rest)
    | _ => throw (.assembly assembly)

/-- What fills a collection. -/
def contents (n : Nat) : Build Made := do
  let node := (← get).graph.node n
  match node.tag, node with
  | .omap, .sequence _ items => return .pairs (← pairEntries .orderedMap items)
  | .omap, _ => throw (.assembly .orderedMap)
  | .pairs, .sequence _ items => return .pairs (← pairEntries .pairs items)
  | .pairs, _ => throw (.assembly .pairs)
  | .set, _ => return .set ((← mappingEntries n).map Prod.fst)
  | .map, _ => return .map (← mappingEntries n)
  | _, .sequence _ items =>
    items.forM make
    return .list items
  | _, _ => throw (.kind .sequence node.kind)

/-- Fill the collections that wait. Each node waits at most once. -/
def fill : Nat → Build Unit
  | 0 => throw .exhausted
  | fuel + 1 => do
    let s ← get
    match s.waiting with
    | [] => return ()
    | n :: rest =>
      set { s with waiting := rest }
      let m ← contents n
      modify fun s => { s with made := s.made.setIfInBounds n (some m) }
      fill fuel

/-- Make a node and all that belongs to it. -/
def run (g : Graph) (root : Nat) : Except Fault State := do
  let start : State := ⟨g, Array.replicate g.size none, []⟩
  let (_, s) ← (make root *> fill (g.size + 1)).run start
  return s

/-! ## Reading the value out

Values that hold no reference to a collection around them are kept, so that a shared node
is read once. -/

abbrev Readout := StateT (Array (Option Value)) (Except Fault)

/-- A key, whether it is unlike every other, and its value. -/
abbrev KeyedEntry := Value × Bool × Value

/-- Set the value of a key. The place and the form of the first equal key are kept. -/
def insertEntry (e : KeyedEntry) : List KeyedEntry → List KeyedEntry
  | [] => [e]
  | f :: rest =>
    if !e.2.1 && !f.2.1 && e.1.identity? == f.1.identity? then (f.1, f.2.1, e.2.2) :: rest
    else f :: insertEntry e rest

def isUnlike (made : Array (Option Made)) (n : Nat) : Bool :=
  match made[n]? with
  | some (some (.scalar _ unlike)) => unlike
  | _ => false

mutual

/-- The value of a node inside the collections of `path`, innermost first, and whether it
refers to none of them. -/
def read (made : Array (Option Made)) : Nat → List (Option Nat) → Nat → Readout (Value × Bool)
  | 0, _, _ => throw .exhausted
  | depth + 1, path, n => do
    match path.idxOf? (some n) with
    | some i => return (.enclosing (i + 1), false)
    | none =>
      match (← get)[n]? with
      | some (some v) => return (v, true)
      | _ =>
        let inner := some n :: path
        let (v, closed) ←
          match (made[n]?).getD none with
          | some (.scalar v _) => pure (v, true)
          | some (.list items) => do
            let (items, closed) ← readItems made depth inner items
            pure (.list items, closed)
          | some (.pairs entries) => do
            let (entries, closed) ← readEntries made depth (none :: inner) entries
            pure (.list (entries.map fun e => .pair e.1 e.2.2), closed)
          | some (.map entries) => do
            let (entries, closed) ← readEntries made depth inner entries
            let unique := entries.foldl (fun kept e => insertEntry e kept) []
            pure (.map (unique.map fun e => (e.1, e.2.2)), closed)
          | some (.set elements) => do
            let (entries, closed) ← readEntries made depth inner (elements.map fun k => (k, k))
            let unique := entries.foldl (fun kept e => insertEntry e kept) []
            pure (.set (unique.map (·.1)), closed)
          | _ => pure (.null, true)
        if closed then modify fun kept => kept.setIfInBounds n (some v)
        return (v, closed)

def readItems (made : Array (Option Made)) :
    Nat → List (Option Nat) → List Nat → Readout (List Value × Bool)
  | _, _, [] => return ([], true)
  | 0, _, _ => throw .exhausted
  | depth + 1, path, n :: rest => do
    let (v, closed) ← read made depth path n
    let (vs, others) ← readItems made depth path rest
    return (v :: vs, closed && others)

def readEntries (made : Array (Option Made)) :
    Nat → List (Option Nat) → List (Nat × Nat) → Readout (List KeyedEntry × Bool)
  | _, _, [] => return ([], true)
  | 0, _, _ => throw .exhausted
  | depth + 1, path, (k, v) :: rest => do
    let (key, keyClosed) ← read made depth path k
    let (value, closed) ← read made depth path v
    let (entries, others) ← readEntries made depth path rest
    return ((key, isUnlike made k, value) :: entries, keyClosed && closed && others)

end

/-- The number of parts of all collections. -/
def partCount (made : Array (Option Made)) : Nat :=
  made.foldl (fun count m =>
    match m with
    | some (.list items) => count + items.length
    | some (.pairs entries) | some (.map entries) => count + entries.length
    | some (.set elements) => count + elements.length
    | _ => count) 0

end Construction

/-- The value of a node with all that belongs to it. -/
def Graph.value (g : Graph) (root : Nat) : Except Fault Value := do
  let s ← Construction.run g root
  let depth := 2 * (Construction.partCount s.made + s.made.size) + 2
  let ((v, _), _) ←
    (Construction.read s.made depth [] root).run (Array.replicate s.made.size none)
  return v

/-- The value of a block, `none` if the block is empty. -/
def valueOfText (t : Text) : Except Fault (Option Value) := do
  let cs ← blockChars t
  let (g, root) ← Graph.ofTokens (TokenStream.ofChars cs)
  match root with
  | some n => return some (← g.value n)
  | none => return none

end FrontLint.Yaml
