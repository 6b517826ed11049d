import FrontLint.Yaml.Token.Block

/-!
# Flow scalars

Quoted and plain scalars. A single line break inside them reads as a space, and of several
all but the first are kept.
-/

namespace FrontLint.Yaml

/-- The characters that stand for themselves or for another one behind a backslash. -/
def escapes : List (Char × Char) :=
  [('0', '\x00'), ('a', '\x07'), ('b', '\x08'), ('t', '\x09'), ('\t', '\x09'), ('n', '\x0a'),
    ('v', '\x0b'), ('f', '\x0c'), ('r', '\x0d'), ('e', '\x1b'), (' ', ' '), ('\x22', '\x22'),
    ('\\', '\\'), ('/', '/'), ('N', '\x85'), ('_', '\xa0'), ('L', '\u2028'), ('P', '\u2029')]

/-- The number of hexadecimal digits that a character behind a backslash announces. -/
def escapeWidth? (c : Char) : Option Nat :=
  if c == 'x' then some 2 else if c == 'u' then some 4 else if c == 'U' then some 8 else none

/-- The code point of a number in an escape. -/
def escapedCode (n : Nat) : Except Fault Code :=
  if n < 0x110000 then .ok (.ofPoint n)
  else if n < Nat.pow 2 31 then .error .codePoint
  else .error .codePointSize

/-- A line break and the empty lines behind it, folded. -/
def foldBreaks (first : Char) (others : List Char) : List Char :=
  if first != '\n' then first :: others else if others.isEmpty then [' '] else others

namespace Cursor

/-- The breaks of the empty lines inside a quoted scalar, where no document mark may
stand, and the place of the next text. -/
def quotedBreaks : Nat → Cursor → Except Fault (List Char × Cursor)
  | 0, c => .ok ([], c)
  | fuel + 1, c => do
    if c.isAtDocumentMark then throw (.misread .quotedScalar)
    let c := c.skip fun a => a == ' ' || a == '\t'
    match c.lineBreak? with
    | some (b, c) =>
      let (breaks, c) ← quotedBreaks fuel c
      return (b :: breaks, c)
    | none => return ([], c)

/-- An escape behind its backslash. -/
def escape (c : Cursor) : Except Fault (Text × Cursor) := do
  match escapes.lookup c.head, escapeWidth? c.head with
  | some a, _ => return ([.char a], c.next)
  | none, some width =>
    let digits := c.next.rest.take width
    if digits.length = width ∧ digits.all isHexDigit then
      return ([← escapedCode (Numeral.valueIn 16 digits)], advance (width + 1) c)
    else throw (.misread .escape)
  | none, none =>
    match c.lineBreak? with
    | some (_, c) =>
      let (breaks, c) ← c.quotedBreaks (c.rest.length + 1)
      return (Text.ofChars breaks, c)
    | none => throw (.misread .escape)

/-- Blanks inside a quoted scalar, folded when a line ends with them. -/
def quotedBlanks (c : Cursor) : Except Fault (Text × Cursor) := do
  let blanks := c.run fun a => a == ' ' || a == '\t'
  let c := advance blanks.length c
  match c.lineBreak? with
  | some (b, c) =>
    let (breaks, c) ← c.quotedBreaks (c.rest.length + 1)
    return (Text.ofChars (foldBreaks b breaks), c)
  | none =>
    if c.head == endMark then throw (.misread .quotedScalar)
    else return (Text.ofChars blanks, c)

/-- The text of a quoted scalar up to its closing quote. -/
def quotedText (double : Bool) : Nat → Cursor → Except Fault (Text × Cursor)
  | 0, _ => .error (.misread .quotedScalar)
  | fuel + 1, c => do
    let (piece, c) ←
      if isSeparator c.head then c.quotedBlanks
      else if double && c.head == '\x22' then return ([], c.next)
      else if double && c.head == '\\' then c.next.escape
      else if !double && c.head == '\x27' then
        if c.peek 1 == '\x27' then pure ([.char '\x27'], advance 2 c) else return ([], c.next)
      else pure ([.char c.head], c.next)
    let (rest, c) ← quotedText double fuel c
    return (piece ++ rest, c)

/-- A quoted scalar. -/
def quotedScalar (double : Bool) (c : Cursor) : Except Fault (Token × Cursor) := do
  let (text, c) ← quotedText double (c.rest.length + 1) c.next
  return (.scalar text false, c)

/-- The marks that end a plain scalar inside a flow collection. -/
def isFlowMark (a : Char) : Bool := a == ',' || a == '[' || a == ']' || a == '\x7b' || a == '\x7d'

/-- Whether a colon before `a` ends a plain scalar. -/
def endsPlainKey (inFlow : Bool) (a : Char) : Bool := isSeparator a || (inFlow && isFlowMark a)

/-- The characters of a plain scalar up to the next blank or the end of the scalar. -/
def plainWord (inFlow : Bool) : List Char → List Char
  | [] => []
  | a :: rest =>
    if isSeparator a || (a == ':' && endsPlainKey inFlow (rest.headD endMark)) ||
        (inFlow && (isFlowMark a || a == '?')) then []
    else a :: plainWord inFlow rest

/-- The breaks of the empty lines inside a plain scalar, `none` at a document mark. -/
def plainBreaks : Nat → Cursor → Option (List Char) × Cursor
  | 0, c => (some [], c)
  | fuel + 1, c =>
    if c.head == ' ' then plainBreaks fuel c.next
    else
      match c.lineBreak? with
      | some (b, c) =>
        if c.isAtDocumentMark then (none, c)
        else
          let (breaks, c) := plainBreaks fuel c
          (breaks.map (b :: ·), c)
      | none => (some [], c)

/-- What stands between two words of a plain scalar, and whether a line ends there. -/
def plainGap (c : Cursor) : List Char × Bool × Cursor :=
  let blanks := c.run (· == ' ')
  let c := advance blanks.length c
  match c.lineBreak? with
  | some (b, c) =>
    if c.isAtDocumentMark then ([], true, c)
    else
      match c.plainBreaks (c.rest.length + 1) with
      | (some breaks, c) => (foldBreaks b breaks, true, c)
      | (none, c) => ([], true, c)
  | none => (blanks, false, c)

/-- The words of a plain scalar behind a gap, and whether a line ended behind the last. -/
def plainWords (inFlow : Bool) (indent : Int) :
    Nat → List Char → Bool → Cursor → List Char × Bool × Cursor
  | 0, _, crossed, c => ([], crossed, c)
  | fuel + 1, gap, crossed, c =>
    let word := plainWord inFlow c.rest
    if c.head == '#' || word.isEmpty then ([], crossed, c)
    else
      let (next, crossed, c) := (advance word.length c).plainGap
      if next.isEmpty || c.head == '#' || (!inFlow && c.column ≤ indent) then
        (gap ++ word, crossed, c)
      else
        let (rest, crossed, c) := plainWords inFlow indent fuel next crossed c
        (gap ++ word ++ rest, crossed, c)

/-- A plain scalar, and whether a line ends behind it. -/
def plainScalar (inFlow : Bool) (indent : Int) (c : Cursor) : Token × Bool × Cursor :=
  let (text, crossed, c) := plainWords inFlow indent (c.rest.length + 1) [] false c
  (.scalar (Text.ofChars text) true, crossed, c)

end Cursor

end FrontLint.Yaml
