import FrontLint.Document.Lines
import FrontLint.Note
import FrontLint.Value.Basic
import FrontLint.Yaml.Construction

/-!
# Blocks

The metadata block of a document lies between its first two delimiters, the first of which
is the first line. Its text is a mapping of fields; a block of anything else, and an empty
one, has no fields.
-/

namespace FrontLint

/-- A located block: the numbers of its two delimiter lines, and its fields. -/
structure Block where
  opening : Int
  closing : Int
  fields : Fields

/-- The number of lines, delimiters included. -/
def Block.lineCount (block : Block) : Int := block.closing - block.opening + 1

/-- The lines behind the first one up to a line number. -/
def interiorLines (lines : List Text) (closing : Int) : List Text :=
  let count := if closing < 0 then closing + lines.length else closing
  (lines.take count.toNat).drop 1

namespace Fields

/-- The fields of a value. -/
def ofValue : Option Value → Noted Yaml.Fault Fields
  | some (.map entries) => return entries
  | none | some .null => return []
  | some _ => do
    Noted.note .notMapping
    return []

/-- The fields between two delimiter lines. -/
def ofLines (lines : List Text) (opening closing : Int) : Noted Yaml.Fault Fields :=
  if opening ≠ 0 then return []
  else do
    let value ← Noted.ofExcept (Yaml.valueOfText (joinLines (interiorLines lines closing)))
    ofValue value

end Fields

/-- The block of a document given by its lines, if it has fields. -/
def Block.ofLines? (lines : List Text) : Noted Yaml.Fault (Option Block) :=
  match Span.find? lines with
  | none => return none
  | some span => do
    let fields ← Fields.ofLines lines span.opening span.closing
    return if fields.isEmpty then none else some ⟨span.opening, span.closing, fields⟩

def Block.ofText? (document : Text) : Noted Yaml.Fault (Option Block) :=
  Block.ofLines? (splitLines document)

/-- The fault of a document whose block has no value. -/
def blockFaultText (fault : Yaml.Fault) : String :=
  if fault.isOfBlock then "Invalid YAML front matter: " ++ fault.message else fault.message

end FrontLint
