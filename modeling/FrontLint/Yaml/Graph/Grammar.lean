import FrontLint.Yaml.Graph.Basic
import FrontLint.Yaml.Schema
import FrontLint.Yaml.Token.Stream

/-!
# Grammar

The graph of a token stream. Nodes are read by recursive descent with one token of
look-ahead; a fault of the stream arises when the token behind its last one is looked at.
The functions take a depth that bounds their nesting, and every token admits only a bounded
number of nested calls.
-/

namespace FrontLint.Yaml

/-- A reader's state: the tokens to come, the nodes so far, and the nodes with anchors. -/
structure Reader where
  tokens : List Token
  /-- The fault behind the last token. -/
  fault : Option Fault
  nodes : Graph
  anchors : List (List Char × Nat)

abbrev Read := StateT Reader (Except Fault)

/-- What each tag handle stands for. -/
abbrev Handles := List (List Char × List Char)

def defaultHandles : Handles := [(['!'], ['!']), (['!', '!'], Tag.coreStem)]

namespace Grammar

/-- The next token. -/
def peek : Read Token := do
  let r ← get
  match r.tokens, r.fault with
  | t :: _, _ => return t
  | [], some fault => throw fault
  | [], none => return .streamEnd

/-- Go on behind the next token. -/
def drop : Read Unit := modify fun r => { r with tokens := r.tokens.tail }

/-- Go on behind the next token if it satisfies `p`. -/
def accept (p : Token → Bool) : Read Bool := do
  if p (← peek) then
    drop
    return true
  else return false

def addNode (n : Node) : Read Nat := do
  let r ← get
  set { r with nodes := r.nodes.push n }
  return r.nodes.size

def setNode (i : Nat) (n : Node) : Read Unit :=
  modify fun r => { r with nodes := r.nodes.setIfInBounds i n }

/-- What is written before a node: an anchor and a tag, in either order. -/
structure Properties where
  anchor : Option (List Char)
  tag : Option (Option (List Char) × List Char)

def anchorPart : Read (Option (List Char)) := do
  match ← peek with
  | .anchor name =>
    drop
    return some name
  | _ => return none

def tagPart : Read (Option (Option (List Char) × List Char)) := do
  match ← peek with
  | .tag handle suffix =>
    drop
    return some (handle, suffix)
  | _ => return none

def properties : Read Properties := do
  match ← anchorPart with
  | some name => return ⟨some name, ← tagPart⟩
  | none =>
    match ← tagPart with
    | some tag => return ⟨← anchorPart, some tag⟩
    | none => return ⟨none, none⟩

/-- The name of a tag, its handle replaced by what that stands for. -/
def tagName (handles : Handles) : Option (List Char) × List Char → Except Fault (List Char)
  | (none, suffix) => .ok suffix
  | (some handle, suffix) =>
    match handles.lookup handle with
    | some expansion => .ok (expansion ++ suffix)
    | none => .error (.ungrammatical .taggedNode)

/-- The tag that asks for the schema's choice. -/
def openTag : List Char := ['!']

def collectionTag (standard : Tag) (name : Option (List Char)) : Tag :=
  match name with
  | none => standard
  | some name => if name = openTag then standard else .ofName name

def scalarTag (name : Option (List Char)) (text : Text) (plain : Bool) : Tag :=
  match name with
  | none => if plain then Schema.tagOf text else .str
  | some name => if name = openTag then Schema.tagOf text else .ofName name

/-- A node begins; an anchor must not be in use already. -/
def beginNode (anchor : Option (List Char)) (n : Node) : Read Nat := do
  match anchor with
  | none => addNode n
  | some name =>
    if ((← get).anchors.lookup name).isSome then throw (.repeatedAnchor name)
    let i ← addNode n
    modify fun r => { r with anchors := (name, i) :: r.anchors }
    return i

/-- The node that stands where none is written. -/
def emptyNode : Read Nat := addNode (.scalar .null [])

/-- Where a node stands: block collections are allowed or not, and a sequence may be
without indentation of its own. -/
inductive Place where
  | block
  | blockEntry
  | flow
deriving DecidableEq

def Place.misfit : Place → Fault
  | .block | .blockEntry => .ungrammatical .blockNode
  | .flow => .ungrammatical .flowNode

def isBlockEntry (t : Token) : Bool := t == .blockEntry

/-- Whether an entry of a block mapping is empty before a token. -/
def endsBlockEntry (t : Token) : Bool := t == .key || t == .value || t == .blockEnd

mutual

/-- A node with its properties. -/
def node (handles : Handles) : Nat → Place → Read Nat
  | 0, place => throw place.misfit
  | depth + 1, place => do
    match ← peek with
    | .alias name =>
      drop
      match (← get).anchors.lookup name with
      | some i => return i
      | none => throw (.undefinedAlias name)
    | _ =>
      let p ← properties
      let name ← (p.tag.mapM (tagName handles) : Except Fault _)
      let sequence (items : Read (List Nat)) : Read Nat := do
        let tag := collectionTag .seq name
        let i ← beginNode p.anchor (.sequence tag [])
        setNode i (.sequence tag (← items))
        return i
      let mapping (entries : Read (List (Nat × Nat))) : Read Nat := do
        let tag := collectionTag .map name
        let i ← beginNode p.anchor (.mapping tag [])
        setNode i (.mapping tag (← entries))
        return i
      match place, ← peek with
      | .blockEntry, .blockEntry => sequence (indentlessEntries handles depth)
      | _, .scalar text plain =>
        drop
        beginNode p.anchor (.scalar (scalarTag name text plain) text)
      | _, .flowSequenceStart =>
        sequence do
          drop
          flowItems handles depth true
      | _, .flowMappingStart =>
        mapping do
          drop
          flowEntries handles depth true
      | .block, .blockSequenceStart | .blockEntry, .blockSequenceStart =>
        sequence do
          drop
          blockItems handles depth
      | .block, .blockMappingStart | .blockEntry, .blockMappingStart =>
        mapping do
          drop
          blockEntries handles depth
      | place, _ =>
        if p.anchor.isSome || name.isSome then
          beginNode p.anchor (.scalar (scalarTag name [] true) [])
        else throw place.misfit

/-- The entries of a block sequence, to its end. -/
def blockItems (handles : Handles) : Nat → Read (List Nat)
  | 0 => throw (.ungrammatical .blockCollection)
  | depth + 1 => do
    if ← accept isBlockEntry then
      let next ← peek
      let i ←
        if next == .blockEntry || next == .blockEnd then emptyNode
        else node handles depth .block
      return i :: (← blockItems handles depth)
    else if ← accept (· == .blockEnd) then return []
    else throw (.ungrammatical .blockCollection)

/-- The entries of a sequence without indentation of its own. -/
def indentlessEntries (handles : Handles) : Nat → Read (List Nat)
  | 0 => throw (.ungrammatical .blockCollection)
  | depth + 1 => do
    if ← accept isBlockEntry then
      let next ← peek
      let i ←
        if isBlockEntry next || endsBlockEntry next then emptyNode
        else node handles depth .block
      return i :: (← indentlessEntries handles depth)
    else return []

/-- The entries of a block mapping, to its end. -/
def blockEntries (handles : Handles) : Nat → Read (List (Nat × Nat))
  | 0 => throw (.ungrammatical .blockMapping)
  | depth + 1 => do
    if ← accept (· == .key) then
      let k ← blockPart handles depth
      let v ←
        if ← accept (· == .value) then blockPart handles depth
        else emptyNode
      return (k, v) :: (← blockEntries handles depth)
    else if ← accept (· == .blockEnd) then return []
    else throw (.ungrammatical .blockMapping)

/-- A key or a value of a block mapping, perhaps empty. -/
def blockPart (handles : Handles) : Nat → Read Nat
  | 0 => throw (.ungrammatical .blockMapping)
  | depth + 1 => do
    if endsBlockEntry (← peek) then emptyNode else node handles depth .blockEntry

/-- The items of a flow sequence, to its end. -/
def flowItems (handles : Handles) : Nat → Bool → Read (List Nat)
  | 0, _ => throw (.ungrammatical .flowSequence)
  | depth + 1, isFirst => do
    if ← accept (· == .flowSequenceEnd) then return []
    if !isFirst then
      if !(← accept (· == .flowEntry)) then throw (.ungrammatical .flowSequence)
    match ← peek with
    | .key =>
      let i ← flowPair handles depth
      return i :: (← flowItems handles depth false)
    | .flowSequenceEnd =>
      drop
      return []
    | _ =>
      let i ← node handles depth .flow
      return i :: (← flowItems handles depth false)

/-- A single pair that is an item of a flow sequence: a mapping of one entry. -/
def flowPair (handles : Handles) : Nat → Read Nat
  | 0 => throw (.ungrammatical .flowSequence)
  | depth + 1 => do
    let i ← addNode (.mapping .map [])
    drop
    let next ← peek
    let k ←
      if next == .value || next == .flowEntry || next == .flowSequenceEnd then emptyNode
      else node handles depth .flow
    let v ←
      if ← accept (· == .value) then
        let next ← peek
        if next == .flowEntry || next == .flowSequenceEnd then emptyNode
        else node handles depth .flow
      else emptyNode
    let _ ← peek
    setNode i (.mapping .map [(k, v)])
    return i

/-- The entries of a flow mapping, to its end. -/
def flowEntries (handles : Handles) : Nat → Bool → Read (List (Nat × Nat))
  | 0, _ => throw (.ungrammatical .flowMapping)
  | depth + 1, isFirst => do
    if ← accept (· == .flowMappingEnd) then return []
    if !isFirst then
      if !(← accept (· == .flowEntry)) then throw (.ungrammatical .flowMapping)
    match ← peek with
    | .key =>
      drop
      let next ← peek
      let k ←
        if next == .value || next == .flowEntry || next == .flowMappingEnd then emptyNode
        else node handles depth .flow
      let v ←
        if ← accept (· == .value) then
          let next ← peek
          if next == .flowEntry || next == .flowMappingEnd then emptyNode
          else node handles depth .flow
        else emptyNode
      return (k, v) :: (← flowEntries handles depth false)
    | .flowMappingEnd =>
      drop
      return []
    | _ =>
      let k ← node handles depth .flow
      let _ ← peek
      let v ← emptyNode
      return (k, v) :: (← flowEntries handles depth false)

end

/-- The handles that directives define before a document. -/
def directives : Nat → Bool → Handles → Read Handles
  | 0, _, handles => return handles
  | fuel + 1, versioned, handles => do
    match ← peek with
    | .directive (.version major) =>
      drop
      if versioned then throw .repeatedVersion
      if major ≠ 1 then throw .version
      directives fuel true handles
    | .directive (.handle name expansion) =>
      drop
      if (handles.lookup name).isSome then throw (.repeatedHandle name)
      directives fuel versioned (handles ++ [(name, expansion)])
    | .directive .other =>
      drop
      directives fuel versioned handles
    | _ => return handles

/-- Skip the tokens that end a document. -/
def skipDocumentEnds : Nat → Read Unit
  | 0 => return ()
  | fuel + 1 => do
    if ← accept (· == .documentEnd) then skipDocumentEnds fuel

/-- The handles of a document that begins explicitly, `none` at the end of the block. -/
def documentStart? (fuel : Nat) : Read (Option Handles) := do
  skipDocumentEnds fuel
  if (← peek) == .streamEnd then return none
  let handles ← directives fuel false []
  let found ← peek
  if found == .documentStart then
    drop
    return some (handles ++ defaultHandles)
  else throw (.documentStart found)

def isDirective : Token → Bool
  | .directive _ => true
  | _ => false

/-- The first node of a document behind its start. -/
def documentContent (handles : Handles) (fuel : Nat) : Read Nat := do
  let next ← peek
  if isDirective next || next == .documentStart || next == .documentEnd || next == .streamEnd
  then emptyNode
  else node handles fuel .block

/-- The first node of a block, unless the block is empty. There is only one document. -/
def root? (fuel : Nat) : Read (Option Nat) := do
  let next ← peek
  let root ←
    if isDirective next || next == .documentStart || next == .streamEnd then
      match ← documentStart? fuel with
      | some handles => some <$> documentContent handles fuel
      | none => pure none
    else some <$> node defaultHandles fuel .block
  if root.isSome then
    let _ ← accept (· == .documentEnd)
    if (← documentStart? fuel).isSome then throw .secondDocument
  return root

end Grammar

/-- The graph of a token stream and its first node. -/
def Graph.ofTokens (s : TokenStream) : Except Fault (Graph × Option Nat) := do
  let fuel := 4 * s.tokens.length + 8
  let (root, r) ← (Grammar.root? fuel).run ⟨s.tokens, s.fault, #[], []⟩
  return (r.nodes, root)

end FrontLint.Yaml
