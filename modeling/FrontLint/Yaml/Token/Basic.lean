import FrontLint.Text.Basic

/-!
# Tokens

The tokens of a metadata block. The structure that indentation gives is made explicit by
tokens that begin and end collections and that mark keys.
-/

namespace FrontLint.Yaml

inductive Directive where
  /-- The major version that a document asks for. -/
  | version (major : Nat)
  /-- What a tag handle stands for. -/
  | handle (name expansion : List Char)
  | other
deriving DecidableEq

inductive Token where
  | directive (d : Directive)
  | documentStart
  | documentEnd
  | streamEnd
  | blockSequenceStart
  | blockMappingStart
  | blockEnd
  | flowSequenceStart
  | flowSequenceEnd
  | flowMappingStart
  | flowMappingEnd
  | blockEntry
  | flowEntry
  | key
  | value
  | alias (name : List Char)
  | anchor (name : List Char)
  /-- A tag as written: its handle, if it has one, and the rest. -/
  | tag (handle : Option (List Char)) (suffix : List Char)
  | scalar (text : Text) (plain : Bool)
deriving DecidableEq

/-- The kind of a token, as messages name it. -/
def Token.kindName : Token → String
  | .directive _ => "<directive>"
  | .documentStart => "<document start>"
  | .documentEnd => "<document end>"
  | .streamEnd => "<stream end>"
  | .blockSequenceStart => "<block sequence start>"
  | .blockMappingStart => "<block mapping start>"
  | .blockEnd => "<block end>"
  | .flowSequenceStart => "["
  | .flowSequenceEnd => "]"
  | .flowMappingStart => "\x7b"
  | .flowMappingEnd => "\x7d"
  | .blockEntry => "-"
  | .flowEntry => ","
  | .key => "?"
  | .value => ":"
  | .alias _ => "<alias>"
  | .anchor _ => "<anchor>"
  | .tag _ _ => "<tag>"
  | .scalar _ _ => "<scalar>"

end FrontLint.Yaml
