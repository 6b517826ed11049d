import FrontLint.Text.Basic

/-!
# Blank characters and stripping

Blank are the characters of Unicode's White_Space property and the four information
separators U+001C to U+001F.
-/

namespace FrontLint

def blankRanges : List (Nat × Nat) :=
  [(0x9, 0xd), (0x1c, 0x20), (0x85, 0x85), (0xa0, 0xa0), (0x1680, 0x1680), (0x2000, 0x200a),
    (0x2028, 0x2029), (0x202f, 0x202f), (0x205f, 0x205f), (0x3000, 0x3000)]

def Code.isBlank (c : Code) : Bool := inRanges blankRanges c.point

/-- Every blank character that the core library knows is blank here. -/
theorem Code.isBlank_of_isWhitespace {c : Char} (h : c.isWhitespace = true) :
    (Code.char c).isBlank = true := by
  simp only [Char.isWhitespace, Bool.or_eq_true, decide_eq_true_eq] at h
  rcases h with ((rfl | rfl) | rfl) | rfl <;> decide

namespace Text

/-- Drops the longest end of a text in which all satisfy `p`. -/
def dropEndWhile (p : Code → Bool) : Text → Text
  | [] => []
  | c :: rest =>
    match dropEndWhile p rest with
    | [] => if p c then [] else [c]
    | kept => c :: kept

def stripEnd (t : Text) : Text := dropEndWhile Code.isBlank t

/-- A text without the blanks at its two ends. -/
def strip (t : Text) : Text := stripEnd (t.dropWhile Code.isBlank)

def isBlank (t : Text) : Bool := t.all Code.isBlank

theorem dropEndWhile_eq_nil_iff {p : Code → Bool} {t : Text} :
    dropEndWhile p t = [] ↔ t.all p = true := by
  induction t with
  | nil => simp [dropEndWhile]
  | cons c t ih =>
    cases h : dropEndWhile p t with
    | nil => by_cases hc : p c = true <;> simp_all [dropEndWhile]
    | cons d u => simp_all [dropEndWhile]

theorem strip_eq_nil_iff {t : Text} : t.strip = [] ↔ t.isBlank = true := by
  rw [strip, stripEnd, dropEndWhile_eq_nil_iff, isBlank]
  induction t with
  | nil => rfl
  | cons c t ih => by_cases hc : c.isBlank = true <;> simp_all

end Text

end FrontLint
