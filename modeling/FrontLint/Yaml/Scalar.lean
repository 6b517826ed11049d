import FrontLint.Text.LowerCase
import FrontLint.Value.Basic
import FrontLint.Yaml.Fault
import FrontLint.Yaml.Schema

/-!
# Scalar values

The values of scalar texts under the tags of the core schema. Numbers may hold underscores
and may be written in base sixty, with colons between the places.
-/

namespace FrontLint.Yaml.Scalar

def truthWords : List (List Char × Bool) :=
  [(['y', 'e', 's'], true), (['n', 'o'], false), (['t', 'r', 'u', 'e'], true),
    (['f', 'a', 'l', 's', 'e'], false), (['o', 'n'], true), (['o', 'f', 'f'], false)]

def bool (t : Text) : Except Fault Bool :=
  let lowered := t.toLower
  match truthWords.find? fun entry => Text.ofChars entry.1 = lowered with
  | some (_, b) => .ok b
  | none => .error (.notTruthValue lowered)

def dropUnderscores (t : Text) : Text := t.filter (· != .char '_')

/-- The sign of a number, true for minus, and the text behind it. -/
def splitSign : Text → Except Fault (Bool × Text)
  | [] => .error .emptyNumber
  | c :: rest =>
    if c = .char '-' then .ok (true, rest)
    else if c = .char '+' then .ok (false, rest)
    else .ok (false, c :: rest)

/-- What stands between the colons of a text. -/
def places (t : Text) : List Text := t.splitOn (.char ':')

def readInt (base : Nat) (t : Text) : Except Fault Int :=
  (Numeral.readInt base t).mapError .numeral

def readFloat (t : Text) : Except Fault Binary64 := (Numeral.readFloat t).mapError .numeral

/-- The whole number of a text without sign: binary, hexadecimal, octal, in base sixty or
decimal, by its beginning. -/
def magnitude (t : Text) : Except Fault Int :=
  match t with
  | [] => .error .emptyNumber
  | .char '0' :: rest =>
    match rest with
    | [] => .ok 0
    | .char 'b' :: digits => readInt 2 digits
    | .char 'x' :: digits => readInt 16 digits
    | _ => readInt 8 t
  | _ =>
    if t.contains (.char ':') then do
      let digits ← (places t).mapM (readInt 10)
      return digits.foldl (fun n d => n * 60 + d) 0
    else readInt 10 t

def int (t : Text) : Except Fault Int := do
  let (negative, body) ← splitSign (dropUnderscores t)
  let n ← magnitude body
  return if negative then -n else n

/-- The sum of places in base sixty, the last place first and `weight` being what it
counts for. Each product and each sum is rounded. -/
def sumPlaces (sum : Binary64) (weight : Int) : List Binary64 → Except Fault Binary64
  | [] => .ok sum
  | d :: rest =>
    match Binary64.ofInt? weight with
    | some w => sumPlaces (sum.add (d.mul w)) (weight * 60) rest
    | none => .error .numberSize

/-- The floating point number of a text without sign. -/
def floatMagnitude (t : Text) : Except Fault Binary64 :=
  if t = Text.ofChars ['.', 'i', 'n', 'f'] then .ok (.infinite false)
  else if t = Text.ofChars ['.', 'n', 'a', 'n'] then .ok .nan
  else if t.contains (.char ':') then do
    let digits ← (places t).mapM readFloat
    sumPlaces (.zero false) 1 digits.reverse
  else readFloat t

def float (t : Text) : Except Fault Binary64 := do
  let (negative, body) ← splitSign (dropUnderscores t).toLower
  let x ← floatMagnitude body
  return if negative then x.neg else x

/-- Whether a text writes the constant that is not a number, which equals itself as a key;
any other such number is a key of its own. -/
def isNanConstant (t : Text) : Bool :=
  match splitSign (dropUnderscores t).toLower with
  | .ok (_, body) => body == Text.ofChars ['.', 'n', 'a', 'n']
  | .error _ => false

def timestamp (t : Text) : Except Fault Value :=
  match (t.chars?.map Schema.dropLineFeed).bind Timestamp.ofChars? with
  | none => .error .notTimestamp
  | some ts =>
    match ts.time with
    | none => (ts.date.check.map .date).mapError .calendar
    | some p =>
      let m : Moment := ⟨ts.date, p.hour, p.minute, p.second, p.microsecond, p.offset⟩
      (m.check.map .moment).mapError .calendar

/-- The first run of code points above ASCII, `position` being the number of those
before it. -/
def firstNotAscii? (position : Nat) : Text → Option (Text × Nat)
  | [] => none
  | c :: rest =>
    if c.point < 128 then firstNotAscii? (position + 1) rest
    else some (c :: rest.takeWhile (128 ≤ ·.point), position)

def binary (t : Text) : Except Fault Bytes :=
  match firstNotAscii? 0 t with
  | some (run, position) => .error (.notAscii run position)
  | none => (Base64.decode t.toChars).mapError .base64

end FrontLint.Yaml.Scalar
