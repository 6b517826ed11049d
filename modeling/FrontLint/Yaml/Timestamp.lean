import FrontLint.Calendar
import FrontLint.Number.Numeral

/-!
# Timestamps

The form of a timestamp: a date, and perhaps a time of day with a fraction of a second and
an offset. The form is checked here, the ranges of the parts are not.
-/

namespace FrontLint.Yaml

/-- The time of day of a timestamp. The offset counts minutes east of universal time. -/
structure TimePart where
  hour : Nat
  minute : Nat
  second : Nat
  microsecond : Nat
  offset : Option Int
deriving DecidableEq

structure Timestamp where
  date : Date
  /-- Whether month and day have two digits each. -/
  padded : Bool
  time : Option TimePart
deriving DecidableEq

namespace Timestamp

/-- Between `least` and `most` digits, as many as there are, with their number. -/
def digits? (least most : Nat) (cs : List Char) : Option (Nat × Nat × List Char) :=
  let run := (cs.takeWhile Char.isDigit).take most
  if least ≤ run.length then
    some (Numeral.valueIn 10 run, run.length, cs.drop run.length)
  else none

def expect? (c : Char) : List Char → Option (List Char)
  | a :: rest => if a = c then some rest else none
  | [] => none

def isBlank (c : Char) : Bool := c == ' ' || c == '\t'

/-- The digits of a fraction as microseconds. -/
def microseconds (digits : List Char) : Nat :=
  Numeral.valueIn 10 ((digits ++ List.replicate 6 '0').take 6)

/-- An offset up to the end of the text: none, universal time, or hours and minutes. -/
def offset? (cs : List Char) : Option (Option Int) :=
  match cs, cs.dropWhile isBlank with
  | [], _ => some none
  | _, ['Z'] => some (some 0)
  | _, sign :: rest =>
    if sign = '+' || sign = '-' then do
      let (hours, _, rest) ← digits? 1 2 rest
      let minutes ←
        match rest with
        | [] => some 0
        | rest => do
          let (minutes, _, rest) ← digits? 2 2 (← expect? ':' rest)
          if rest.isEmpty then some minutes else none
      let total : Int := (hours * 60 + minutes : Nat)
      return some (if sign = '-' then -total else total)
    else none
  | _, [] => none

/-- A time of day up to the end of the text. -/
def time? (cs : List Char) : Option TimePart := do
  let (hour, _, cs) ← digits? 1 2 cs
  let (minute, _, cs) ← digits? 2 2 (← expect? ':' cs)
  let (second, _, cs) ← digits? 2 2 (← expect? ':' cs)
  let (fraction, cs) :=
    match cs with
    | '.' :: cs => (cs.takeWhile Char.isDigit, cs.dropWhile Char.isDigit)
    | cs => ([], cs)
  return ⟨hour, minute, second, microseconds fraction, ← offset? cs⟩

/-- What separates a date from the time behind it. -/
def dropSeparator? : List Char → Option (List Char)
  | 'T' :: rest | 't' :: rest => some rest
  | cs => if (cs.takeWhile isBlank).isEmpty then none else some (cs.dropWhile isBlank)

/-- A whole text as a timestamp. -/
def ofChars? (cs : List Char) : Option Timestamp := do
  let (year, _, cs) ← digits? 4 4 cs
  let (month, monthWidth, cs) ← digits? 1 2 (← expect? '-' cs)
  let (day, dayWidth, cs) ← digits? 1 2 (← expect? '-' cs)
  let date : Date := ⟨year, month, day⟩
  let padded := monthWidth == 2 && dayWidth == 2
  match cs with
  | [] => return ⟨date, padded, none⟩
  | cs => return ⟨date, padded, some (← time? (← dropSeparator? cs))⟩

end Timestamp

end FrontLint.Yaml
