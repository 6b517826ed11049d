import FrontLint.Yaml.Cursor

/-!
# Names

The tokens that name something: directives, anchors, aliases and tags.
-/

namespace FrontLint.Yaml

/-- Where a tag is written: in a directive that defines a handle, or before a node. -/
inductive TagSite where
  | directive
  | node
deriving DecidableEq

def TagSite.misread : TagSite → Fault
  | .directive => .misread .directive
  | .node => .misread .tag

def TagSite.missing : TagSite → Fault
  | .directive => .ungrammatical .directive
  | .node => .ungrammatical .tag

/-- A character of a tag that needs no escape. -/
def isTagChar (c : Char) : Bool :=
  c.isAlphanum || "-;/?:@&=+$,_.!~*'()[]".toList.contains c

namespace Cursor

/-- The bytes of a run of escapes, a percent sign and two digits each. -/
def escapedBytes (site : TagSite) : List Char → Except Fault Bytes
  | '%' :: a :: b :: rest =>
    if isHexDigit a && isHexDigit b then
      (escapedBytes site rest).map (UInt8.ofNat (Numeral.valueIn 16 [a, b]) :: ·)
    else .error site.misread
  | '%' :: _ => .error site.misread
  | _ => .ok []

/-- The text of a tag, at most `fuel` runs of plain characters and of escapes. -/
def tagText (site : TagSite) : Nat → Cursor → Except Fault (List Char × Cursor)
  | 0, c => .ok ([], c)
  | fuel + 1, c => do
    let plain := c.run isTagChar
    let c := advance plain.length c
    if c.head == '%' then
      let bytes ← escapedBytes site c.rest
      match Utf8.decode bytes with
      | .error _ => .error site.misread
      | .ok chars =>
        let (rest, c) ← tagText site fuel (advance (3 * bytes.length) c)
        return (plain ++ chars ++ rest, c)
    else return (plain, c)

/-- The text of a tag, which is not missing. -/
def tagSuffix (site : TagSite) (c : Cursor) : Except Fault (List Char × Cursor) :=
  if isTagChar c.head || c.head == '%' then tagText site (c.rest.length + 1) c
  else .error site.missing

/-- A tag handle: an exclamation mark alone, or two of them around a name. -/
def tagHandle (site : TagSite) (c : Cursor) : Except Fault (List Char × Cursor) :=
  if c.head != '!' then .error site.misread
  else if c.peek 1 == ' ' then .ok (['!'], c.next)
  else
    let name := c.next.run isNameChar
    if c.peek (name.length + 1) == '!' then
      .ok ('!' :: name ++ ['!'], advance (name.length + 2) c)
    else .error site.misread

/-- The handle and the text of a tag that is not in angle brackets. -/
def shorthandTag (c : Cursor) : Except Fault (Token × Cursor) := do
  let word := c.next.run fun a => !isSpaceOrBreak a
  let (handle, c) ← if word.contains '!' then tagHandle .node c else pure (['!'], c.next)
  let (suffix, c) ← tagSuffix .node c
  return (.tag (some handle) suffix, c)

/-- A tag before a node. -/
def tag (c : Cursor) : Except Fault (Token × Cursor) := do
  let (token, c) ←
    if c.peek 1 == '<' then do
      let (suffix, c) ← tagSuffix .node (advance 2 c)
      if c.head == '>' then pure (Token.tag none suffix, c.next)
      else throw (.ungrammatical .tag)
    else if isSeparator (c.peek 1) then pure (.tag none ['!'], c.next)
    else c.shorthandTag
  if isSpaceOrBreak c.head then return (token, c) else throw (.misread .tag)

/-- What may follow the name of an anchor or an alias. -/
def endsAnchor (a : Char) : Bool := isSeparator a || "?:,]\x7d%@`".toList.contains a

/-- The name behind the mark of an anchor or an alias. -/
def anchorName (part : Part) (c : Cursor) : Except Fault (List Char × Cursor) :=
  let name := c.next.run isNameChar
  let c := advance name.length c.next
  if name.isEmpty || !endsAnchor c.head then .error (.misread part) else .ok (name, c)

/-- A whole number in a version. -/
def versionNumber (c : Cursor) : Except Fault (Nat × Cursor) :=
  let digits := c.run Char.isDigit
  if digits.isEmpty then .error (.misread .directive)
  else if maxDecimalDigits < digits.length then
    .error (.numeral (.tooLongToRead digits.length))
  else .ok (Numeral.valueIn 10 digits, advance digits.length c)

/-- The two numbers of a version, of which the first one counts. -/
def versionDirective (c : Cursor) : Except Fault (Directive × Cursor) := do
  let (major, c) ← c.skipSpaces.versionNumber
  if c.head != '.' then throw (.misread .directive)
  let (_, c) ← c.next.versionNumber
  if isSpaceOrBreak c.head then return (.version major, c) else throw (.misread .directive)

/-- A handle and what it stands for. -/
def handleDirective (c : Cursor) : Except Fault (Directive × Cursor) := do
  let (handle, c) ← tagHandle .directive c.skipSpaces
  if c.head != ' ' then throw (.misread .directive)
  let (expansion, c) ← tagSuffix .directive c.skipSpaces
  if isSpaceOrBreak c.head then return (.handle handle expansion, c)
  else throw (.misread .directive)

/-- Blanks and a comment up to the end of the line, and the break there. -/
def restOfLine (part : Part) (c : Cursor) : Except Fault Cursor :=
  let c := c.skipSpaces.skipComment
  if isBreakOrEnd c.head then
    match c.lineBreak? with
    | some (_, c) => .ok c
    | none => .ok c
  else .error (.misread part)

/-- A directive behind its percent sign. -/
def directive (c : Cursor) : Except Fault (Token × Cursor) := do
  let name := c.next.run isNameChar
  let c := advance name.length c.next
  if name.isEmpty || !isSpaceOrBreak c.head then throw (.misread .directive)
  let (d, c) ←
    if name = ['Y', 'A', 'M', 'L'] then c.versionDirective
    else if name = ['T', 'A', 'G'] then c.handleDirective
    else pure (.other, c.skip fun a => !isBreakOrEnd a)
  return (.directive d, ← c.restOfLine .directive)

end Cursor

end FrontLint.Yaml
