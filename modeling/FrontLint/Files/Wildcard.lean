/-!
# Wildcards

Patterns for one name: a star for any run of characters, a question mark for any character,
brackets for a choice of characters or, behind an exclamation mark, for all others. A bracket
that is not closed stands for itself. There are no escapes.
-/

namespace FrontLint

/-- A closed range of characters. -/
structure CharSpan where
  low : Char
  high : Char
deriving DecidableEq

namespace CharSpan

def single (c : Char) : CharSpan := ⟨c, c⟩

def contains (s : CharSpan) (c : Char) : Bool := s.low ≤ c && c ≤ s.high

end CharSpan

inductive Wildcard where
  /-- Any run of characters. -/
  | run
  /-- Any character. -/
  | any
  | literal (c : Char)
  | within (spans : List CharSpan)
  | outside (spans : List CharSpan)
deriving DecidableEq

namespace Wildcard

/-- Whether a text holds a character with a meaning in patterns. -/
def occurIn (t : List Char) : Bool := t.any fun c => c == '*' || c == '?' || c == '['

/-- The spans between brackets. A hyphen between two characters makes a range of them. -/
def spansOf : List Char → List CharSpan
  | low :: '-' :: high :: rest => ⟨low, high⟩ :: spansOf rest
  | c :: rest => .single c :: spansOf rest
  | [] => []

/-- Spans of which those without characters count for nothing. -/
def inhabited (spans : List CharSpan) : List CharSpan :=
  spans.filter fun s => decide (s.low ≤ s.high)

/-- The choice that stands between brackets. An exclamation mark in the first place turns it
around. So does one that comes first when the spans without characters are gone; if it
begins a range, the hyphen and the end of the range are characters then. -/
def choice : List Char → Wildcard
  | '!' :: inner => .outside (inhabited (spansOf inner))
  | inner =>
    match inhabited (spansOf inner) with
    | ⟨'!', high⟩ :: rest =>
      if high = '!' then .outside rest
      else .outside (.single '-' :: .single high :: rest)
    | spans => .within spans

/-- What stands behind an opening bracket and cannot be the closing one: an exclamation
mark, and a closing bracket in the first place or behind it. -/
def bracketHead : List Char → List Char
  | '!' :: ']' :: _ => ['!', ']']
  | '!' :: _ => ['!']
  | ']' :: _ => [']']
  | _ => []

/-- Split behind an opening bracket: what stands up to the closing one, and the rest. -/
def splitBracket? (t : List Char) : Option (List Char × List Char) :=
  let head := bracketHead t
  let rest := t.drop head.length
  match rest.dropWhile (· != ']') with
  | _ :: after => some (head ++ rest.takeWhile (· != ']'), after)
  | [] => none

theorem length_of_splitBracket? {t inner after : List Char}
    (h : splitBracket? t = some (inner, after)) : after.length < t.length := by
  have hle := (List.dropWhile_sublist (l := t.drop (bracketHead t).length) (· != ']')).length_le
  simp only [splitBracket?] at h
  split at h
  · rename_i heq
    simp only [Option.some.injEq, Prod.mk.injEq] at h
    obtain ⟨-, rfl⟩ := h
    rw [heq] at hle
    simp only [List.length_cons, List.length_drop] at hle
    omega
  · simp at h

/-- Read a pattern. -/
def ofText : List Char → List Wildcard
  | [] => []
  | '*' :: rest => .run :: ofText rest
  | '?' :: rest => .any :: ofText rest
  | '[' :: rest =>
    match h : splitBracket? rest with
    | some (inner, after) =>
      have := length_of_splitBracket? h
      choice inner :: ofText after
    | none => .literal '[' :: ofText rest
  | c :: rest => .literal c :: ofText rest
termination_by t => t.length
decreasing_by all_goals simp_wf <;> omega

def accepts : Wildcard → Char → Bool
  | .run, _ => true
  | .any, _ => true
  | .literal a, c => a == c
  | .within spans, c => spans.any (·.contains c)
  | .outside spans, c => !spans.any (·.contains c)

/-- Whether some end of a text satisfies `p`. -/
def anyEnd (p : List Char → Bool) : List Char → Bool
  | [] => p []
  | c :: rest => p (c :: rest) || anyEnd p rest

/-- Whether a pattern matches the whole of a text. -/
def matchesAll : List Wildcard → List Char → Bool
  | [], t => t.isEmpty
  | .run :: pattern, t => anyEnd (matchesAll pattern) t
  | _ :: _, [] => false
  | w :: pattern, c :: t => w.accepts c && matchesAll pattern t

end Wildcard

end FrontLint
