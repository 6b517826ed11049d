import FrontLint.Document.Lines
import FrontLint.Text.Blank
import FrontLint.Text.Word

/-!
# Key index

The lines of a block on which its top-level keys stand. A line declares a key if it begins
with a run of word characters and a colon; a key that is declared more than once stands on
the last of its lines, at the place of its first.
-/

namespace FrontLint

def colon : Code := .char ':'

/-- The key that a line declares. Indented lines declare none. -/
def declaredKey? (line : Text) : Option Text :=
  if (line.head?.map Code.isBlank).getD false then none
  else
    let body := line.stripEnd
    let key := body.takeWhile Code.isWord
    if key ≠ [] ∧ body[key.length]? = some colon then some key else none

abbrev KeyIndex := List (Text × Int)

namespace KeyIndex

def line? : KeyIndex → Text → Option Int
  | [], _ => none
  | (k, i) :: rest, key => if k = key then some i else line? rest key

/-- Let a key stand on a line. -/
def declare (key : Text) (line : Int) : KeyIndex → KeyIndex
  | [] => [(key, line)]
  | (k, i) :: rest => if k = key then (k, line) :: rest else (k, i) :: declare key line rest

/-- The numbers strictly between the two ends of a block. -/
def interior (opening closing : Int) : List Int :=
  (List.range (closing - opening - 1).toNat).map fun (k : Nat) => opening + 1 + k

/-- Index the numbered lines, `none` if some number names no line. -/
def ofNumbers? (lines : List Text) : List Int → KeyIndex → Option KeyIndex
  | [], index => some index
  | i :: rest, index => do
    let line ← lineAt? lines i
    match declaredKey? line with
    | some key => ofNumbers? lines rest (index.declare key i)
    | none => ofNumbers? lines rest index

/-- The key index of the block between two lines. -/
def ofLines? (lines : List Text) (opening closing : Int) : Option KeyIndex :=
  ofNumbers? lines (interior opening closing) []

theorem line?_declare (key : Text) (i : Int) (index : KeyIndex) (k : Text) :
    (index.declare key i).line? k = if k = key then some i else index.line? k := by
  induction index with
  | nil => simp [declare, line?, eq_comm]
  | cons entry rest ih =>
    obtain ⟨k', j⟩ := entry
    by_cases h : k' = key
    · subst h
      by_cases hk : k = k' <;> simp [declare, line?, hk, eq_comm]
    · by_cases hk : k' = k
      · subst hk
        simp [declare, line?, h]
      · simp [declare, line?, h, hk, ih]

end KeyIndex

end FrontLint
