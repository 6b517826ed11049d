import FrontLint.Yaml.Tag
import FrontLint.Yaml.Timestamp

/-!
# Schema

The tag of a plain scalar follows from its text. The first character selects the tags that
are tried, and the first one whose form fits the whole text is taken. A line feed at the end
of the text is not looked at.
-/

namespace FrontLint.Yaml.Schema

def words (texts : List String) : List (List Char) := texts.map String.toList

def boolWords : List (List Char) :=
  words ["yes", "Yes", "YES", "no", "No", "NO", "true", "True", "TRUE", "false", "False",
    "FALSE", "on", "On", "ON", "off", "Off", "OFF"]

def nullWords : List (List Char) := words ["~", "null", "Null", "NULL", ""]

def infinityWords : List (List Char) := words [".inf", ".Inf", ".INF"]

def nanWords : List (List Char) := words [".nan", ".NaN", ".NAN"]

def dropSign : List Char → List Char
  | '-' :: rest | '+' :: rest => rest
  | cs => cs

def isDigitOrLine (c : Char) : Bool := c.isDigit || c == '_'

/-- A digit, and then digits and underscores. -/
def isNumeral : List Char → Bool
  | d :: rest => d.isDigit && rest.all isDigitOrLine
  | [] => false

/-- An exponent with its sign, or nothing. -/
def isExponent : List Char → Bool
  | [] => true
  | e :: sign :: digits =>
    (e == 'e' || e == 'E') && (sign == '+' || sign == '-') && !digits.isEmpty &&
      digits.all Char.isDigit
  | _ => false

/-- Split at the first `c`. -/
def splitAt? (c : Char) (cs : List Char) : Option (List Char × List Char) :=
  let before := cs.takeWhile (· != c)
  if before.length < cs.length then some (before, cs.drop (before.length + 1)) else none

/-- Digits behind a point, and an exponent. -/
def isFraction (cs : List Char) : Bool := isExponent (cs.dropWhile isDigitOrLine)

/-- One or more places in base sixty, each behind a colon. -/
def isSexagesimal : List Char → Bool
  | [':', d] => d.isDigit
  | [':', d, e] => '0' ≤ d && d ≤ '5' && e.isDigit
  | ':' :: d :: ':' :: rest => d.isDigit && isSexagesimal (':' :: rest)
  | ':' :: d :: e :: ':' :: rest =>
    '0' ≤ d && d ≤ '5' && e.isDigit && isSexagesimal (':' :: rest)
  | _ => false

/-- A numeral with places in base sixty behind it. -/
def isSexagesimalNumeral (cs : List Char) : Bool :=
  isNumeral (cs.takeWhile (· != ':')) && isSexagesimal (cs.dropWhile (· != ':'))

def isFloat (cs : List Char) : Bool :=
  let body := dropSign cs
  infinityWords.contains body || nanWords.contains cs ||
    match splitAt? '.' body with
    | none => false
    | some (whole, places) =>
      (isNumeral whole && isFraction places) ||
        (cs.head? == some '.' && isNumeral (places.takeWhile isDigitOrLine) &&
          isFraction places) ||
        (isSexagesimalNumeral whole && places.all isDigitOrLine)

def isBinary (c : Char) : Bool := c == '0' || c == '1' || c == '_'

def isOctal (c : Char) : Bool := ('0' ≤ c && c ≤ '7') || c == '_'

def isHex (c : Char) : Bool := Numeral.isDigitIn 16 c || c == '_'

def isInt (cs : List Char) : Bool :=
  match dropSign cs with
  | ['0'] => true
  | '0' :: 'b' :: rest => !rest.isEmpty && rest.all isBinary
  | '0' :: 'x' :: rest => !rest.isEmpty && rest.all isHex
  | '0' :: rest => rest.all isOctal
  | body => isNumeral body || isSexagesimalNumeral body

def isTimestamp (cs : List Char) : Bool :=
  (Timestamp.ofChars? cs).any fun t => t.padded || t.time.isSome

/-- The tags that are tried for texts with a first character, in order. -/
def candidates (first : Option Char) : List (Tag × (List Char → Bool)) :=
  match first with
  | none => [(.null, nullWords.contains)]
  | some c =>
    (if "yYnNtTfFoO".toList.contains c then [(.bool, boolWords.contains)] else []) ++
    (if c.isDigit || "-+.".toList.contains c then [(.float, isFloat)] else []) ++
    (if c.isDigit || "-+".toList.contains c then [(.int, isInt)] else []) ++
    (if c == '<' then [(.merge, (· == ['<', '<']))] else []) ++
    (if "~nN".toList.contains c then [(.null, nullWords.contains)] else []) ++
    (if c.isDigit then [(.timestamp, isTimestamp)] else []) ++
    (if c == '=' then [(.value, (· == ['=']))] else []) ++
    (if "!&*".toList.contains c then [(.yaml, (·.length == 1))] else [])

/-- The text without a line feed at its end. -/
def dropLineFeed (cs : List Char) : List Char :=
  if cs.getLast? = some '\n' then cs.dropLast else cs

/-- The tag of a plain scalar. -/
def tagOf (t : Text) : Tag :=
  match t.chars? with
  | none => .str
  | some cs =>
    let body := dropLineFeed cs
    match (candidates cs.head?).find? fun entry => entry.2 body with
    | some (tag, _) => tag
    | none => .str

end FrontLint.Yaml.Schema
