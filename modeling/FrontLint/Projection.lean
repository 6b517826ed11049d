import FrontLint.Document.Block
import FrontLint.Document.KeyIndex
import FrontLint.Value.Text

/-!
# Projections

A projection has the lines of a block, all of them blank but those that declare prose
fields: the title stands as a heading on its line, and the description, or else the summary,
on its own. So what is found in the projection is found on the same line of the document.
-/

namespace FrontLint

variable [HashSeed]

structure Projection where
  lines : List Text
deriving DecidableEq

namespace Projection

def text (p : Projection) : Text := joinLines p.lines

def isBlank (p : Projection) : Bool := p.text.isBlank

/-- Why a document has no projection. -/
inductive Fault where
  | block (fault : Yaml.Fault)
  | numeral (fault : NumeralFault)
  /-- A line of the block lies outside of the document. -/
  | lineMissing
  /-- A key stands on a line outside of the projection. -/
  | lineOutside
deriving DecidableEq

def Fault.message : Fault → String
  | .block fault => blockFaultText fault
  | .numeral fault => fault.message
  | .lineMissing => "list index out of range"
  | .lineOutside => "list assignment index out of range"

end Projection

/-- A text without a line feed at its end. -/
def dropFinalLineFeed (t : Text) : Text :=
  if t.getLast? = some lineFeed then t.dropLast else t

namespace Fields

/-- The text of a field that fits on one line. -/
def lineText? (fields : Fields) (key : Text) : Noted NumeralFault (Option Text) := do
  match fields.get? key with
  | none => return none
  | some value =>
    if value.isVoid then return none
    match ← Noted.ofExcept value.text? with
    | none => return none
    | some text =>
      let line := dropFinalLineFeed text
      if line.contains lineFeed then
        Noted.note (.multiLine key)
        return none
      else return if line.isEmpty then none else some line

end Fields

namespace Projection

def titleField : Text := Text.ofChars ['t', 'i', 't', 'l', 'e']

def descriptionField : Text :=
  Text.ofChars ['d', 'e', 's', 'c', 'r', 'i', 'p', 't', 'i', 'o', 'n']

def summaryField : Text := Text.ofChars ['s', 'u', 'm', 'm', 'a', 'r', 'y']

/-- The fields for the body, of which the first one that has a text and a line is taken. -/
def bodyFields : List Text := [descriptionField, summaryField]

def headingMark : Text := Text.ofChars ['#', ' ']

def blankLines (block : Block) : List Text :=
  List.replicate (block.lineCount + 1).toNat []

/-- Put a text on the line of a document on which a block begins `opening` lines down. -/
def place (opening number : Int) (line : Text) (lines : List Text) :
    Noted Fault (List Text) :=
  match setLine? lines (number - opening) line with
  | some lines => return lines
  | none => Noted.fail .lineOutside

/-- The line of a field, and the text that stands there. -/
def slot? (block : Block) (index : KeyIndex) (key : Text) :
    Noted Fault (Option (Int × Text)) := do
  let text ← (block.fields.lineText? key).mapFault .numeral
  return text.bind fun t => (index.line? key).map fun i => (i, t)

def placeTitle (block : Block) (index : KeyIndex) (lines : List Text) :
    Noted Fault (List Text) := do
  match ← slot? block index titleField with
  | some (i, text) => place block.opening i (headingMark ++ text) lines
  | none => return lines

def placeBody (block : Block) (index : KeyIndex) :
    List Text → List Text → Noted Fault (List Text)
  | [], lines => return lines
  | key :: rest, lines => do
    match ← slot? block index key with
    | some (i, text) => place block.opening i text lines
    | none => placeBody block index rest lines

/-- The projection of a block whose keys stand on the lines of an index. -/
def ofBlock (block : Block) (index : KeyIndex) : Noted Fault Projection := do
  let lines ← placeTitle block index (blankLines block)
  let lines ← placeBody block index bodyFields lines
  return ⟨lines⟩

/-- The index of a block's lines. -/
def indexOf (lines : List Text) (block : Block) : Noted Fault KeyIndex :=
  match KeyIndex.ofLines? lines block.opening block.closing with
  | some index => return index
  | none => Noted.fail .lineMissing

/-- The projection of a document, `none` if nothing in it is to be linted. -/
def ofText? (document : Text) : Noted Fault (Option Projection) := do
  let lines := splitLines document
  match ← (Block.ofLines? lines).mapFault .block with
  | none => return none
  | some block =>
    let projection ← ofBlock block (← indexOf lines block)
    return if projection.isBlank then none else some projection

end Projection

end FrontLint
