import FrontLint.Text.Basic
import FrontLint.Text.Blank

/-!
# Lines and delimiters

Only a line feed ends a line, so a text has one line more than line feeds. Splitting and
joining are inverse to each other. Lines are numbered from zero, and numbers below zero
count from the end.

A delimiter is a line of three hyphens, among blanks and behind byte order marks. The first
two delimiters of a document are the two ends of its block.
-/

namespace FrontLint

def lineFeed : Code := .char '\n'

/-- What stands between the line feeds of a text. -/
def splitLines : Text → List Text
  | [] => [[]]
  | c :: rest =>
    if c = lineFeed then [] :: splitLines rest
    else
      match splitLines rest with
      | [] => [[c]]
      | line :: lines => (c :: line) :: lines

/-- The lines with a line feed between each and the next. -/
def joinLines : List Text → Text
  | [] => []
  | [line] => line
  | line :: next :: rest => line ++ lineFeed :: joinLines (next :: rest)

theorem splitLines_ne_nil (t : Text) : splitLines t ≠ [] := by
  cases t with
  | nil => simp [splitLines]
  | cons c t =>
    by_cases hc : c = lineFeed
    · simp [splitLines, hc]
    · cases h : splitLines t <;> simp [splitLines, hc, h]

theorem not_mem_of_mem_splitLines {t line : Text} (h : line ∈ splitLines t) :
    lineFeed ∉ line := by
  induction t generalizing line with
  | nil => simp_all [splitLines]
  | cons c t ih =>
    by_cases hc : c = lineFeed
    · simp only [splitLines, hc, if_true, List.mem_cons] at h
      rcases h with rfl | h
      · simp
      · exact ih h
    · cases hs : splitLines t with
      | nil => exact absurd hs (splitLines_ne_nil t)
      | cons first lines =>
        simp only [splitLines, hc, if_false, hs, List.mem_cons] at h
        rcases h with rfl | h
        · have := @ih first (by simp [hs])
          simp [this, Ne.symm hc]
        · exact ih (by simp [hs, h])

theorem joinLines_cons (line : Text) {lines : List Text} (h : lines ≠ []) :
    joinLines (line :: lines) = line ++ lineFeed :: joinLines lines := by
  cases lines with
  | nil => exact absurd rfl h
  | cons next rest => rfl

@[simp] theorem joinLines_splitLines (t : Text) : joinLines (splitLines t) = t := by
  induction t with
  | nil => rfl
  | cons c t ih =>
    by_cases hc : c = lineFeed
    · simp [splitLines, hc, joinLines_cons _ (splitLines_ne_nil t), ih]
    · cases hs : splitLines t with
      | nil => exact absurd hs (splitLines_ne_nil t)
      | cons first lines =>
        simp only [splitLines, hc, if_false, hs]
        rw [hs] at ih
        cases lines with
        | nil => simpa [joinLines] using ih
        | cons next rest => simpa [joinLines] using ih

theorem splitLines_of_not_mem {line : Text} (h : lineFeed ∉ line) :
    splitLines line = [line] := by
  induction line with
  | nil => rfl
  | cons c line ih =>
    simp only [List.mem_cons, not_or] at h
    simp [splitLines, Ne.symm h.1, ih h.2]

theorem splitLines_append (line rest : Text) (h : lineFeed ∉ line) :
    splitLines (line ++ lineFeed :: rest) = line :: splitLines rest := by
  induction line with
  | nil => simp [splitLines]
  | cons c line ih =>
    simp only [List.mem_cons, not_or] at h
    simp [splitLines, Ne.symm h.1, ih h.2]

theorem splitLines_joinLines {lines : List Text} (hne : lines ≠ [])
    (h : ∀ line ∈ lines, lineFeed ∉ line) : splitLines (joinLines lines) = lines := by
  induction lines with
  | nil => exact absurd rfl hne
  | cons line lines ih =>
    cases lines with
    | nil => simpa [joinLines] using splitLines_of_not_mem (h line (by simp))
    | cons next rest =>
      rw [joinLines_cons _ (by simp), splitLines_append _ _ (h line (by simp)),
        ih (by simp) fun l hl => h l (by simp [hl])]

/-- The position in a list of `count` lines that a line number names. -/
def linePosition? (count : Nat) (number : Int) : Option Nat :=
  let position := if number < 0 then number + count else number
  if 0 ≤ position ∧ position < count then some position.toNat else none

def lineAt? (lines : List Text) (number : Int) : Option Text :=
  (linePosition? lines.length number).bind (lines[·]?)

def setLine? (lines : List Text) (number : Int) (line : Text) : Option (List Text) :=
  (linePosition? lines.length number).map (lines.set · line)

@[simp] theorem linePosition?_natCast (count i : Nat) :
    linePosition? count (i : Int) = if i < count then some i else none := by
  have h : ¬ (i : Int) < 0 := by omega
  simp [linePosition?, h]

@[simp] theorem lineAt?_natCast (lines : List Text) (i : Nat) : lineAt? lines i = lines[i]? := by
  by_cases h : i < lines.length
  · simp [lineAt?, h]
  · simp [lineAt?, h]

def byteOrderMark : Code := .char '\uFEFF'

def hyphens : Text := [.char '-', .char '-', .char '-']

def isDelimiter (line : Text) : Bool :=
  line.strip.dropWhile (· = byteOrderMark) = hyphens

/-- The numbers of two delimiter lines. -/
structure Span where
  opening : Nat
  closing : Nat
deriving DecidableEq

/-- The first two delimiters. -/
def Span.find? (lines : List Text) : Option Span := do
  let opening ← lines.findIdx? isDelimiter
  let distance ← (lines.drop (opening + 1)).findIdx? isDelimiter
  return ⟨opening, opening + 1 + distance⟩

end FrontLint
