import FrontLint.Calendar
import FrontLint.Number.Binary64
import FrontLint.Text.Utf8

/-!
# Values

The values of a metadata block. Mappings keep the order of their entries. A collection that
contains itself is written with a reference to the enclosing collection.
-/

namespace FrontLint

inductive Value where
  | null
  | bool (b : Bool)
  | int (n : Int)
  | float (x : Binary64)
  | text (t : Text)
  | date (d : Date)
  | moment (m : Moment)
  | bytes (content : Bytes)
  | list (items : List Value)
  | pair (first second : Value)
  | map (entries : List (Value × Value))
  | set (elements : List Value)
  /-- The collection this many levels up; one level up is the one directly around. -/
  | enclosing (levels : Nat)

instance : Inhabited Value := ⟨.null⟩

abbrev Fields := List (Value × Value)

namespace Value

/-- What makes two keys the same key: numbers and truth values count by their numeric
value, moments with an offset by the instant. -/
inductive Identity where
  | null
  | whole (n : Int)
  | float (x : Binary64)
  | text (t : Text)
  | date (d : Date)
  | moment (m : Moment)
  | instant (microseconds : Int)
  | bytes (content : Bytes)
deriving DecidableEq

/-- The identity of a value that can be a key; collections cannot. -/
def identity? : Value → Option Identity
  | .null => some .null
  | .bool b => some (.whole (if b then 1 else 0))
  | .int n => some (.whole n)
  | .float x => some (match x.toInt? with | some n => .whole n | none => .float x)
  | .text t => some (.text t)
  | .date d => some (.date d)
  | .moment m => some (match m.instant? with | some i => .instant i | none => .moment m)
  | .bytes content => some (.bytes content)
  | _ => none

/-- Null, false, zero, and whatever is empty. -/
def isVoid : Value → Bool
  | .null => true
  | .bool b => !b
  | .int n => n == 0
  | .float x => x.isZero
  | .text t => t.isEmpty
  | .bytes content => content.isEmpty
  | .list items => items.isEmpty
  | .map entries => entries.isEmpty
  | .set elements => elements.isEmpty
  | .date _ | .moment _ | .pair _ _ | .enclosing _ => false

end Value

/-- The value of the first entry with a text as its key. -/
def Fields.get? (fields : Fields) (key : Text) : Option Value :=
  (fields.find? fun entry => entry.1.identity? = some (.text key)).map Prod.snd

end FrontLint
