import FrontLint.Yaml.Token.Flow

/-!
# Token stream

The tokens of a block, in order, up to its end or to the first fault.

Whether a token is a key is known only when its colon is found, so the reader keeps
candidates: places where a key may have begun, at most one for each depth of flow
collections. A token waits until no candidate can put anything before it.
-/

namespace FrontLint.Yaml

/-- A place where a key may have begun. -/
structure Candidate where
  /-- The number of its first token, counted from the beginning of the block. -/
  number : Nat
  /-- Whether the block is malformed if this is no key. -/
  required : Bool
  index : Nat
  line : Nat
  column : Nat
deriving DecidableEq

/-- The tokens of a block, and the fault behind the last of them unless the block ends. -/
structure TokenStream where
  tokens : List Token
  fault : Option Fault

namespace TokenStream

structure State where
  cursor : Cursor
  /-- The columns of the open block collections, innermost first, ending with -1. -/
  indents : List Int
  /-- The depth of flow collections; ends without a beginning make it negative. -/
  depth : Int
  keyAllowed : Bool
  /-- The candidates by depth. -/
  candidates : List (Int × Candidate)
  /-- The tokens that wait, and the number of those that do not wait any more. -/
  waiting : List Token
  delivered : Nat
  finished : Bool

namespace State

def start (cs : List Char) : State :=
  ⟨.start cs, [-1], 0, true, [], [], 0, false⟩

def indent (s : State) : Int := s.indents.headD (-1)

def inFlow (s : State) : Bool := s.depth != 0

def push (s : State) (t : Token) : State := { s with waiting := s.waiting ++ [t] }

/-- Whether a candidate is out of reach: a key lies on one line and within 1024
characters. -/
def isStale (s : State) (k : Candidate) : Bool :=
  k.line != s.cursor.line || k.index + 1024 < s.cursor.index

/-- Drop the candidates that are out of reach. -/
def dropStale (s : State) : Except Fault State :=
  if s.candidates.any fun k => s.isStale k.2 && k.2.required then .error (.misread .simpleKey)
  else .ok { s with candidates := s.candidates.filter fun k => !s.isStale k.2 }

/-- Drop the candidate at the present depth. -/
def dropCandidate (s : State) : Except Fault State :=
  match s.candidates.lookup s.depth with
  | some k =>
    if k.required then .error (.misread .simpleKey)
    else .ok { s with candidates := s.candidates.filter (·.1 != s.depth) }
  | none => .ok s

/-- Let a key begin here, where one is allowed. -/
def addCandidate (s : State) : Except Fault State := do
  if s.keyAllowed then
    let required := !s.inFlow && s.indent == s.cursor.column
    let s ← s.dropCandidate
    let k : Candidate :=
      ⟨s.delivered + s.waiting.length, required, s.cursor.index, s.cursor.line, s.cursor.column⟩
    return { s with candidates := (s.depth, k) :: s.candidates }
  else return s

/-- The columns up to and including `column`, and the number of those beyond it. -/
def unwound (column : Int) : List Int → List Int × Nat
  | [] => ([], 0)
  | i :: rest =>
    if column < i then
      let (kept, n) := unwound column rest
      (kept, n + 1)
    else (i :: rest, 0)

/-- End the block collections indented beyond a column. -/
def unwind (s : State) (column : Int) : State :=
  if s.inFlow then s
  else
    let (kept, n) := unwound column s.indents
    { s with indents := kept, waiting := s.waiting ++ List.replicate n .blockEnd }

/-- Begin a block collection at a column beyond the present one, before the tokens from
number `at` on. -/
def openBlock (s : State) (column : Int) (t : Token) (position : Nat) : State :=
  if s.indent < column then
    { s with
      indents := column :: s.indents
      waiting := s.waiting.take position ++ t :: s.waiting.drop position }
  else s

def openBlockHere (s : State) (t : Token) : State :=
  if s.inFlow then s else s.openBlock s.cursor.column t s.waiting.length

/-- Take `n` characters as one token. -/
def take (s : State) (n : Nat) (t : Token) : State :=
  { s with cursor := .advance n s.cursor, waiting := s.waiting ++ [t] }

/-- A new entry of a block collection begins only where a key may. -/
def requireEntry (s : State) (entry : Entry) : Except Fault Unit :=
  if s.inFlow || s.keyAllowed then .ok () else .error (.misplaced entry)

/-- Spaces, comments and line breaks between tokens; a break outside of flow collections
allows a key. -/
def skipBlankLines : Nat → State → State
  | 0, s => s
  | fuel + 1, s =>
    let c := s.cursor.skipSpaces.skipComment
    match c.lineBreak? with
    | some (_, c) =>
      skipBlankLines fuel { s with cursor := c, keyAllowed := s.keyAllowed || !s.inFlow }
    | none => { s with cursor := c }

def skipToToken (s : State) : State :=
  let c := s.cursor
  let c := if c.index == 0 && c.head == '\uFEFF' then c.next else c
  skipBlankLines (c.rest.length + 1) { s with cursor := c }

/-- The end of the block. -/
def fetchEnd (s : State) : Except Fault State := do
  let s ← (s.unwind (-1)).dropCandidate
  return { s.push .streamEnd with keyAllowed := false, candidates := [], finished := true }

def fetchDirective (s : State) : Except Fault State := do
  let s ← (s.unwind (-1)).dropCandidate
  let (t, c) ← s.cursor.directive
  return { s.push t with keyAllowed := false, cursor := c }

def fetchDocumentMark (s : State) (t : Token) : Except Fault State := do
  let s ← (s.unwind (-1)).dropCandidate
  return { s.take 3 t with keyAllowed := false }

def fetchFlowStart (s : State) (t : Token) : Except Fault State := do
  let s ← s.addCandidate
  return { s.take 1 t with depth := s.depth + 1, keyAllowed := true }

def fetchFlowEnd (s : State) (t : Token) : Except Fault State := do
  let s ← s.dropCandidate
  return { s.take 1 t with depth := s.depth - 1, keyAllowed := false }

def fetchFlowEntry (s : State) : Except Fault State := do
  let s ← s.dropCandidate
  return { s.take 1 .flowEntry with keyAllowed := true }

def fetchBlockEntry (s : State) : Except Fault State := do
  s.requireEntry .sequenceEntry
  let s ← (s.openBlockHere .blockSequenceStart).dropCandidate
  return { s.take 1 .blockEntry with keyAllowed := true }

def fetchKey (s : State) : Except Fault State := do
  s.requireEntry .key
  let s ← (s.openBlockHere .blockMappingStart).dropCandidate
  return { s.take 1 .key with keyAllowed := !s.inFlow }

/-- Put a key token before the tokens from a candidate on, and begin a mapping there if its
column is beyond the present one. -/
def insertKey (s : State) (k : Candidate) : State :=
  let position := k.number - s.delivered
  let t : State :=
    { s with
      candidates := s.candidates.filter (·.1 != s.depth)
      waiting := s.waiting.take position ++ .key :: s.waiting.drop position }
  if s.inFlow then t else t.openBlock k.column .blockMappingStart position

/-- A colon makes the candidate at this depth a key; without one, the key is missing. -/
def fetchValue (s : State) : Except Fault State := do
  match s.candidates.lookup s.depth with
  | some k => return { (s.insertKey k).take 1 .value with keyAllowed := false }
  | none =>
    s.requireEntry .value
    let s ← (s.openBlockHere .blockMappingStart).dropCandidate
    return { s.take 1 .value with keyAllowed := !s.inFlow }

/-- A token that may begin a key, read by `read`. -/
def fetchNodePart (s : State) (read : Cursor → Except Fault (Token × Cursor)) :
    Except Fault State := do
  let s ← s.addCandidate
  let (t, c) ← read s.cursor
  return { s.push t with cursor := c, keyAllowed := false }

def fetchBlockScalar (s : State) (folded : Bool) : Except Fault State := do
  let s ← s.dropCandidate
  let (t, c) ← s.cursor.blockScalar folded s.indent
  return { s.push t with cursor := c, keyAllowed := true }

def fetchPlain (s : State) : Except Fault State := do
  let s ← s.addCandidate
  let (t, crossed, c) := s.cursor.plainScalar s.inFlow s.indent
  return { s.push t with cursor := c, keyAllowed := crossed }

/-- The marks that never begin a plain scalar, and those that do so before a text. -/
def isIndicator (a : Char) : Bool := "-?:,[]\x7b\x7d#&*!|>'\"%@`".toList.contains a

def isAtPlain (s : State) : Bool :=
  let a := s.cursor.head
  !(isSeparator a || isIndicator a) ||
    (!isSeparator (s.cursor.peek 1) && (a == '-' || (!s.inFlow && (a == '?' || a == ':'))))

/-- The token that begins here. -/
def fetchToken (s : State) : Except Fault State :=
  let a := s.cursor.head
  let atColumn0 := s.cursor.column == 0
  let beforeSeparator := isSeparator (s.cursor.peek 1)
  if a == endMark then s.fetchEnd
  else if a == '%' && atColumn0 then s.fetchDirective
  else if atColumn0 && s.cursor.isAtRule '-' then s.fetchDocumentMark .documentStart
  else if atColumn0 && s.cursor.isAtRule '.' then s.fetchDocumentMark .documentEnd
  else if a == '[' then s.fetchFlowStart .flowSequenceStart
  else if a == '\x7b' then s.fetchFlowStart .flowMappingStart
  else if a == ']' then s.fetchFlowEnd .flowSequenceEnd
  else if a == '\x7d' then s.fetchFlowEnd .flowMappingEnd
  else if a == ',' then s.fetchFlowEntry
  else if a == '-' && beforeSeparator then s.fetchBlockEntry
  else if a == '?' && (s.inFlow || beforeSeparator) then s.fetchKey
  else if a == ':' && (s.inFlow || beforeSeparator) then s.fetchValue
  else if a == '*' then s.fetchNodePart fun c => do
    let (name, c) ← c.anchorName .alias
    return (.alias name, c)
  else if a == '&' then s.fetchNodePart fun c => do
    let (name, c) ← c.anchorName .anchor
    return (.anchor name, c)
  else if a == '!' then s.fetchNodePart Cursor.tag
  else if a == '|' && !s.inFlow then s.fetchBlockScalar false
  else if a == '>' && !s.inFlow then s.fetchBlockScalar true
  else if a == '\x27' then s.fetchNodePart (Cursor.quotedScalar false)
  else if a == '\x22' then s.fetchNodePart (Cursor.quotedScalar true)
  else if s.isAtPlain then s.fetchPlain
  else .error (.misread .token)

def fetch (s : State) : Except Fault State := do
  let s ← s.skipToToken.dropStale
  (s.unwind s.cursor.column).fetchToken

/-- Whether some candidate may still put a token before the first one that waits. -/
def isUndecided (s : State) : Bool := s.candidates.any fun k => k.2.number ≤ s.delivered

/-- The next state, in which the first token that waits need not wait any more. -/
def settle : Nat → State → Except Fault State
  | 0, _ => .error .exhausted
  | fuel + 1, s => do
    if s.finished then return s
    if s.waiting.isEmpty then settle fuel (← s.fetch)
    else
      let s ← s.dropStale
      if s.isUndecided then settle fuel (← s.fetch) else return s

/-- The tokens from a state on. -/
def deliver : Nat → State → TokenStream
  | 0, _ => ⟨[], some .exhausted⟩
  | fuel + 1, s =>
    match s.settle (s.cursor.rest.length + 2) with
    | .error fault => ⟨[], some fault⟩
    | .ok s =>
      match s.waiting with
      | [] => ⟨[], none⟩
      | t :: rest =>
        let later := deliver fuel { s with waiting := rest, delivered := s.delivered + 1 }
        ⟨t :: later.tokens, later.fault⟩

end State

/-- The tokens of a block. Each character gives rise to at most five of them. -/
def ofChars (cs : List Char) : TokenStream :=
  (State.start cs).deliver (5 * cs.length + 8)

end TokenStream

end FrontLint.Yaml
