import FrontLint.Yaml.Fault

/-!
# Cursor

A place in the characters of a block. Beyond the last character every look-ahead finds the
end mark U+0000, which no block contains.
-/

namespace FrontLint.Yaml

/-- The mark that stands behind the last character. -/
def endMark : Char := '\x00'

/-- A character that ends a line, or the end mark. -/
def isBreakOrEnd (c : Char) : Bool :=
  c == endMark || c == '\r' || c == '\n' || c == '\x85' || c == '\u2028' || c == '\u2029'

def isBreak (c : Char) : Bool := isBreakOrEnd c && c != endMark

/-- A space, or what ends a line. -/
def isSpaceOrBreak (c : Char) : Bool := c == ' ' || isBreakOrEnd c

/-- What may follow a token: a space, a tab, or what ends a line. -/
def isSeparator (c : Char) : Bool := c == '\t' || isSpaceOrBreak c

/-- A character of a name: an ASCII letter or digit, a hyphen or an underscore. -/
def isNameChar (c : Char) : Bool := c.isAlphanum || c == '-' || c == '_'

def isHexDigit (c : Char) : Bool := Numeral.isDigitIn 16 c

/-- The characters that a block may hold. -/
def acceptableRanges : List (Nat × Nat) :=
  [(0x9, 0xa), (0xd, 0xd), (0x20, 0x7e), (0x85, 0x85), (0xa0, 0xd7ff), (0xe000, 0xfffd),
    (0x10000, 0x10ffff)]

def isAcceptable (c : Code) : Bool := inRanges acceptableRanges c.point

/-- The characters of a block, if all are acceptable. -/
def blockChars : Text → Except Fault (List Char)
  | [] => .ok []
  | c :: rest =>
    match c with
    | .char a =>
      if isAcceptable (.char a) then (blockChars rest).map (a :: ·)
      else .error (.character a.toNat)
    | .half h => .error (.character (Code.half h).point)

/-- A place in a text: what follows, and how many characters, lines and columns precede. -/
structure Cursor where
  rest : List Char
  index : Nat
  line : Nat
  column : Nat

namespace Cursor

def start (cs : List Char) : Cursor := ⟨cs, 0, 0, 0⟩

/-- The character `n` places ahead. -/
def peek (c : Cursor) (n : Nat) : Char := c.rest.getD n endMark

def head (c : Cursor) : Char := c.rest.headD endMark

/-- The place behind one character. A carriage return before a line feed does not end the
line yet, and a byte order mark takes no column. -/
def next (c : Cursor) : Cursor :=
  match c.rest with
  | [] => c
  | a :: rest =>
    if isBreak a && !(a == '\r' && rest.headD endMark == '\n') then
      ⟨rest, c.index + 1, c.line + 1, 0⟩
    else ⟨rest, c.index + 1, c.line, if a == '\uFEFF' then c.column else c.column + 1⟩

def advance : Nat → Cursor → Cursor
  | 0, c => c
  | n + 1, c => advance n c.next

/-- The characters ahead that satisfy `p`. -/
def run (c : Cursor) (p : Char → Bool) : List Char := c.rest.takeWhile p

def skip (c : Cursor) (p : Char → Bool) : Cursor := advance (c.run p).length c

def skipSpaces (c : Cursor) : Cursor := c.skip (· == ' ')

/-- The place behind a comment, if one begins here. -/
def skipComment (c : Cursor) : Cursor :=
  if c.head == '#' then c.skip fun a => !isBreakOrEnd a else c

/-- The line break here, in the form in which it is kept, and the place behind it. -/
def lineBreak? (c : Cursor) : Option (Char × Cursor) :=
  match c.rest with
  | '\r' :: '\n' :: _ => some ('\n', advance 2 c)
  | a :: _ =>
    if a == '\u2028' || a == '\u2029' then some (a, c.next)
    else if isBreak a then some ('\n', c.next)
    else none
  | [] => none

/-- Whether a line of three equal characters begins here, with nothing glued to it. -/
def isAtRule (c : Cursor) (a : Char) : Bool :=
  c.peek 0 == a && c.peek 1 == a && c.peek 2 == a && isSeparator (c.peek 3)

/-- Whether a document begins or ends here, at the beginning of a line. -/
def isAtDocumentMark (c : Cursor) : Bool := c.isAtRule '-' || c.isAtRule '.'

end Cursor

end FrontLint.Yaml
