import FrontLint.Yaml.Token.Name

/-!
# Block scalars

The text of a block scalar: the lines indented as far as its first one, with line breaks
kept or, when folded, turned into spaces between lines of text.
-/

namespace FrontLint.Yaml

/-- What becomes of the line breaks at the end of a block scalar. -/
inductive Chomping where
  | strip
  | clip
  | keep
deriving DecidableEq

/-- The header of a block scalar: the chomping, and the indentation if it is given. -/
structure BlockHeader where
  chomping : Chomping
  indentation : Option Nat
deriving DecidableEq

namespace Cursor

def chomping? (c : Cursor) : Option Chomping :=
  if c.head == '+' then some .keep else if c.head == '-' then some .strip else none

/-- An indentation digit, which is not zero. -/
def indentation? (c : Cursor) : Except Fault (Option Nat × Cursor) :=
  if c.head == '0' then .error (.misread .blockScalar)
  else if c.head.isDigit then .ok (some (c.head.toNat - 48), c.next)
  else .ok (none, c)

/-- The header behind the mark of a block scalar, its two parts in either order. -/
def blockHeader (c : Cursor) : Except Fault (BlockHeader × Cursor) := do
  let (header, c) ←
    match c.chomping? with
    | some chomping => do
      let (indentation, c) ← c.next.indentation?
      pure (BlockHeader.mk chomping indentation, c)
    | none => do
      let (indentation, c) ← c.indentation?
      match indentation, c.chomping? with
      | some _, some chomping => pure (⟨chomping, indentation⟩, c.next)
      | _, _ => pure (⟨.clip, indentation⟩, c)
  if isSpaceOrBreak c.head then return (header, c) else throw (.misread .blockScalar)

/-- The line breaks before the first text, and the widest indentation on the way to it. -/
def detectIndentation : Nat → Nat → Cursor → List Char × Nat × Cursor
  | 0, widest, c => ([], widest, c)
  | fuel + 1, widest, c =>
    if c.head == ' ' then detectIndentation fuel (max widest c.next.column) c.next
    else
      match c.lineBreak? with
      | some (b, c) =>
        let (breaks, widest, c) := detectIndentation fuel widest c
        (b :: breaks, widest, c)
      | none => ([], widest, c)

/-- Skip spaces as far as a column. -/
def skipIndentation (indentation : Nat) (c : Cursor) : Cursor :=
  advance (min (indentation - c.column) (c.run (· == ' ')).length) c

/-- The line breaks of empty lines. -/
def emptyLines (indentation : Nat) : Nat → Cursor → List Char × Cursor
  | 0, c => ([], c)
  | fuel + 1, c =>
    let c := c.skipIndentation indentation
    match c.lineBreak? with
    | some (b, c) =>
      let (breaks, c) := emptyLines indentation fuel c
      (b :: breaks, c)
    | none => ([], c)

def isAtBlank (c : Cursor) : Bool := c.head == ' ' || c.head == '\t'

/-- Whether a line of a block scalar begins here. -/
def isAtBlockLine (indentation : Nat) (c : Cursor) : Bool :=
  c.column == indentation && c.head != endMark

/-- The lines of a block scalar up to the last one, its line break, and the breaks of the
empty lines behind it. -/
def blockLines (folded : Bool) (indentation : Nat) :
    Nat → Cursor → List Char × List Char × List Char × Cursor
  | 0, c => ([], [], [], c)
  | fuel + 1, c =>
    let plain := !c.isAtBlank
    let line := c.run fun a => !isBreakOrEnd a
    let c := advance line.length c
    let (lineEnd, c) :=
      match c.lineBreak? with
      | some (b, c) => ([b], c)
      | none => ([], c)
    let (breaks, c) := c.emptyLines indentation (c.rest.length + 1)
    if c.isAtBlockLine indentation then
      let joint :=
        if folded && lineEnd == ['\n'] && plain && !c.isAtBlank then
          if breaks.isEmpty then [' '] else []
        else lineEnd
      let (text, lineEnd, trailing, c) := blockLines folded indentation fuel c
      (line ++ joint ++ breaks ++ text, lineEnd, trailing, c)
    else (line, lineEnd, breaks, c)

/-- The line breaks before the first text of a block scalar, and its indentation, given in
its header or detected. -/
def leadingBreaks (least : Nat) (given : Option Nat) (c : Cursor) :
    List Char × Nat × Cursor :=
  match given with
  | some n =>
    let (breaks, c) := c.emptyLines (least + n - 1) (c.rest.length + 1)
    (breaks, least + n - 1, c)
  | none =>
    let (breaks, widest, c) := c.detectIndentation (c.rest.length + 1) 0
    (breaks, max least widest, c)

/-- The text of a block scalar behind the breaks before it, the last line break, and the
breaks of the empty lines at the end. -/
def blockText (folded : Bool) (indentation : Nat) (breaks : List Char) (c : Cursor) :
    List Char × List Char × List Char × Cursor :=
  if c.isAtBlockLine indentation then
    let (text, lineEnd, trailing, c) := c.blockLines folded indentation (c.rest.length + 1)
    (breaks ++ text, lineEnd, trailing, c)
  else ([], [], breaks, c)

/-- A block scalar behind its mark, inside collections indented to a column. -/
def blockScalar (folded : Bool) (indent : Int) (c : Cursor) :
    Except Fault (Token × Cursor) := do
  let (header, c) ← c.next.blockHeader
  let c ← c.restOfLine .blockScalar
  let (breaks, indentation, c) := c.leadingBreaks (max 1 (indent + 1).toNat) header.indentation
  let (text, lineEnd, trailing, c) := c.blockText folded indentation breaks
  let tail :=
    match header.chomping with
    | .strip => []
    | .clip => lineEnd
    | .keep => lineEnd ++ trailing
  return (.scalar (Text.ofChars (text ++ tail)) false, c)

end Cursor

end FrontLint.Yaml
