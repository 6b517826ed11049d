import FrontLint.Calendar
import FrontLint.Number.Numeral
import FrontLint.Text.Base64
import FrontLint.Text.Utf8
import FrontLint.Yaml.Tag
import FrontLint.Yaml.Token.Basic

/-!
# Faults of a metadata block

Why a block has no value. Most faults mean that the block is malformed or holds an invalid
value; a few arise where a value's text is taken apart without a check, and are reported as
faults of the program.
-/

namespace FrontLint.Yaml

/-- The three kinds of nodes. -/
inductive Kind where
  | scalar
  | sequence
  | mapping
deriving DecidableEq

def Kind.name : Kind → String
  | .scalar => "scalar"
  | .sequence => "sequence"
  | .mapping => "mapping"

/-- What was being read when a character did not fit. -/
inductive Part where
  | simpleKey
  | token
  | directive
  | tag
  | anchor
  | alias
  | blockScalar
  | quotedScalar
  | escape
deriving DecidableEq

def Part.message : Part → String
  | .simpleKey => "while scanning a simple key"
  | .token => "while scanning for the next token"
  | .directive => "while scanning a directive"
  | .tag => "while scanning a tag"
  | .anchor => "while scanning an anchor"
  | .alias => "while scanning an alias"
  | .blockScalar => "while scanning a block scalar"
  | .quotedScalar => "while scanning a quoted scalar"
  | .escape => "while scanning a double-quoted scalar"

/-- What was being put together when a token did not fit. -/
inductive Phrase where
  | blockMapping
  | blockCollection
  | flowSequence
  | flowMapping
  | blockNode
  | flowNode
  /-- A node whose tag has an unknown handle. -/
  | taggedNode
  /-- A directive or tag that lacks its text. -/
  | directive
  | tag
deriving DecidableEq

def Phrase.message : Phrase → String
  | .blockMapping => "while parsing a block mapping"
  | .blockCollection => "while parsing a block collection"
  | .flowSequence => "while parsing a flow sequence"
  | .flowMapping => "while parsing a flow mapping"
  | .blockNode => "while parsing a block node"
  | .flowNode => "while parsing a flow node"
  | .taggedNode => "while parsing a node"
  | .directive => "while parsing a directive"
  | .tag => "while parsing a tag"

/-- What may stand only where a new entry can begin. -/
inductive Entry where
  | sequenceEntry
  | key
  | value
deriving DecidableEq

def Entry.message : Entry → String
  | .sequenceEntry => "sequence entries are not allowed here"
  | .key => "mapping keys are not allowed here"
  | .value => "mapping values are not allowed here"

/-- Which collection had unfit contents. -/
inductive Assembly where
  | mapping
  | orderedMap
  | pairs
deriving DecidableEq

def Assembly.message : Assembly → String
  | .mapping => "while constructing a mapping"
  | .orderedMap => "while constructing an ordered map"
  | .pairs => "while constructing pairs"

inductive Fault where
  | character (point : Nat)
  | misread (part : Part)
  | misplaced (entry : Entry)
  | ungrammatical (phrase : Phrase)
  | repeatedVersion
  | version
  | repeatedHandle (handle : List Char)
  | documentStart (found : Token)
  | undefinedAlias (name : List Char)
  | repeatedAnchor (name : List Char)
  | secondDocument
  | kind (expected found : Kind)
  | unknownTag (tag : Tag)
  | assembly (a : Assembly)
  | base64 (fault : Base64.Fault)
  /-- Binary data with characters above ASCII. -/
  | notAscii (run : Text) (position : Nat)
  | numeral (fault : NumeralFault)
  | calendar (fault : CalendarFault)
  /-- An escape beyond the last code point. -/
  | codePoint
  /-- An escape beyond the numbers of 31 bits. -/
  | codePointSize
  | emptyNumber
  | notTruthValue (lowered : Text)
  | notTimestamp
  | timestampOfMapping
  | numberSize
  /-- A scalar that takes its text from itself. -/
  | endlessScalar
  /-- A reader's bound, which is taken from the size of what it reads, is used up. -/
  | exhausted
deriving DecidableEq

namespace Fault

/-- The first line of what is said about a fault. The lines behind it are left out: the problem,
if the first line says only what was being read, the places in the block, and a snippet of it. -/
def message : Fault → String
  | .character point =>
      s!"unacceptable character #x{String.ofList (hexDigits 4 point)}: special characters are not allowed"
  | .misread part => part.message
  | .misplaced entry => entry.message
  | .ungrammatical phrase => phrase.message
  | .repeatedVersion => "found duplicate YAML directive"
  | .version => "found incompatible YAML document (version 1.* is required)"
  | .repeatedHandle handle => s!"duplicate tag handle {(Text.ofChars handle).quoted}"
  | .documentStart found =>
      s!"expected '<document start>', but found {quotedString found.kindName}"
  | .undefinedAlias name => s!"found undefined alias {(Text.ofChars name).quoted}"
  | .repeatedAnchor name =>
      s!"found duplicate anchor {(Text.ofChars name).quoted}; first occurrence"
  | .secondDocument => "expected a single document in the stream"
  | .kind expected found => s!"expected a {expected.name} node, but found {found.name}"
  | .unknownTag tag => s!"could not determine a constructor for the tag {tag.quoted}"
  | .assembly a => a.message
  | .base64 fault => s!"failed to decode base64 data: {fault.message}"
  | .notAscii run position =>
      s!"failed to convert base64 data into ascii: 'ascii' codec can't encode {Utf8.describeRun run position}: ordinal not in range(128)"
  | .numeral fault => fault.message
  | .calendar fault => fault.message
  | .codePoint => "chr() arg not in range(0x110000)"
  | .codePointSize => "Python int too large to convert to C int"
  | .emptyNumber => "string index out of range"
  | .notTruthValue lowered => lowered.quoted
  | .notTimestamp => "'NoneType' object has no attribute 'groupdict'"
  | .timestampOfMapping => "expected string or bytes-like object, got 'list'"
  | .numberSize => "int too large to convert to float"
  | .endlessScalar => "maximum recursion depth exceeded"
  | .exhausted => "bound exceeded"

/-- Whether a fault is one of the block, and not of the program. -/
def isOfBlock : Fault → Bool
  | .codePointSize | .emptyNumber | .notTruthValue _ | .notTimestamp | .timestampOfMapping
  | .numberSize | .endlessScalar | .exhausted => false
  | _ => true

end Fault

end FrontLint.Yaml
