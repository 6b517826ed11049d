import FrontLint.Number.Binary64
import FrontLint.Text.Blank
import FrontLint.Text.Quoted

/-!
# Numerals

Readers of whole numbers in a base and of binary floating point numbers. Both allow blanks
around the numeral and decimal digits of every script. Each script's ten digits stand in order,
so a table of the zeros is enough.
-/

namespace FrontLint

/-- The digit zero of each script with decimal digits. -/
def decimalZeros : List Nat :=
  [0x30, 0x660, 0x6f0, 0x7c0, 0x966, 0x9e6, 0xa66, 0xae6, 0xb66, 0xbe6, 0xc66, 0xce6, 0xd66,
   0xde6, 0xe50, 0xed0, 0xf20, 0x1040, 0x1090, 0x17e0, 0x1810, 0x1946, 0x19d0, 0x1a80, 0x1a90,
   0x1b50, 0x1bb0, 0x1c40, 0x1c50, 0xa620, 0xa8d0, 0xa900, 0xa9d0, 0xa9f0, 0xaa50, 0xabf0,
   0xff10, 0x104a0, 0x10d30, 0x11066, 0x110f0, 0x11136, 0x111d0, 0x112f0, 0x11450, 0x114d0,
   0x11650, 0x116c0, 0x11730, 0x118e0, 0x11950, 0x11c50, 0x11d50, 0x11da0, 0x16a60, 0x16ac0,
   0x16b50, 0x1d7ce, 0x1d7d8, 0x1d7e2, 0x1d7ec, 0x1d7f6, 0x1e140, 0x1e2f0, 0x1e950, 0x1fbf0]

namespace Code

/-- The value of a decimal digit of any script. -/
def decimalValue? (c : Code) : Option Nat :=
  (decimalZeros.find? fun first => first ≤ c.point && c.point ≤ first + 9).map (c.point - ·)

end Code

/-- Why a text is no number, or a number has no text. -/
inductive NumeralFault where
  | notInteger (base : Nat) (text : Text)
  | notFloat (text : Text)
  /-- A decimal numeral of this many digits is too long to be read. -/
  | tooLongToRead (digits : Nat)
  | tooLongToWrite
deriving DecidableEq

/-- The greatest number of decimal digits that is read or written. -/
def maxDecimalDigits : Nat := 4300

def NumeralFault.message : NumeralFault → String
  | .notInteger base text =>
      s!"invalid literal for int() with base {base}: {text.quoted.take 200}"
  | .notFloat text => s!"could not convert string to float: {text.quoted}"
  | .tooLongToRead digits =>
      s!"Exceeds the limit ({maxDecimalDigits} digits) for integer string conversion: value has {digits} digits; use sys.set_int_max_str_digits() to increase the limit"
  | .tooLongToWrite =>
      s!"Exceeds the limit ({maxDecimalDigits} digits) for integer string conversion; use sys.set_int_max_str_digits() to increase the limit"

namespace Numeral

/-- A numeral in ASCII: a blank above ASCII becomes a space, a digit of any script the
ASCII one, any other code point above ASCII a character that no numeral holds. -/
def asciiOf (t : Text) : List Char :=
  t.map fun c =>
    match c with
    | .char a =>
      if a.toNat < 127 then a
      else if c.isBlank then ' '
      else match c.decimalValue? with
        | some d => Nat.digitChar d
        | none => '?'
    | .half _ => '?'

/-- The blanks that may stand around a numeral: the space and U+0009 to U+000D. -/
def isPadding (c : Char) : Bool := c == ' ' || (9 ≤ c.toNat && c.toNat ≤ 13)

def dropPadding (cs : List Char) : List Char := cs.dropWhile isPadding

def stripPadding (cs : List Char) : List Char := (dropPadding (dropPadding cs).reverse).reverse

/-- The sign of a numeral, true for minus, and what follows it. -/
def splitSign : List Char → Bool × List Char
  | '-' :: rest => (true, rest)
  | '+' :: rest => (false, rest)
  | cs => (false, cs)

/-- The value of a digit in bases up to 36. -/
def digitValue? (c : Char) : Option Nat :=
  if c.isDigit then some (c.toNat - 48)
  else if c.isLower then some (c.toNat - 87)
  else if c.isUpper then some (c.toNat - 55)
  else none

def isDigitIn (base : Nat) (c : Char) : Bool := (digitValue? c).any (· < base)

def valueIn (base : Nat) (digits : List Char) : Nat :=
  digits.foldl (fun n c => n * base + (digitValue? c).getD 0) 0

/-- The letter that marks a base after a leading zero. -/
def baseMark? : Nat → Option Char
  | 2 => some 'b'
  | 8 => some 'o'
  | 16 => some 'x'
  | _ => none

def dropBaseMark (base : Nat) : List Char → List Char
  | '0' :: m :: rest =>
      if baseMark? base = some m.toLower then rest else '0' :: m :: rest
  | cs => cs

/-- Read a whole number in a base. In base ten the length of the numeral is limited. -/
def readInt (base : Nat) (t : Text) : Except NumeralFault Int :=
  let (negative, body) := splitSign (dropPadding (asciiOf t))
  let body := dropBaseMark base body
  let digits := body.takeWhile (isDigitIn base)
  if base = 10 && maxDecimalDigits < digits.length then .error (.tooLongToRead digits.length)
  else if digits.isEmpty || !((body.drop digits.length).all isPadding) then
    .error (.notInteger base t)
  else
    let n := valueIn base digits
    .ok (if negative then -(n : Int) else n)

/-- Underscores stand only between two digits. -/
def underscoresFit (previous : Char) : List Char → Bool
  | [] => previous != '_'
  | c :: rest =>
    (if c == '_' then previous.isDigit else previous != '_' || c.isDigit) &&
      underscoresFit c rest

/-- An exponent with its mark, or nothing; anything else is no exponent. -/
def readExponent? : List Char → Option Int
  | [] => some 0
  | c :: rest =>
    if c.toLower == 'e' then
      let (negative, digits) := splitSign rest
      if digits.isEmpty || !digits.all Char.isDigit then none
      else
        let n := valueIn 10 digits
        some (if negative then -(n : Int) else n)
    else none

/-- Read a decimal fraction without sign and blanks. -/
def readDecimal? (negative : Bool) (cs : List Char) : Option Binary64 :=
  let whole := cs.takeWhile Char.isDigit
  let rest := cs.dropWhile Char.isDigit
  let (places, rest) :=
    match rest with
    | '.' :: rest => (rest.takeWhile Char.isDigit, rest.dropWhile Char.isDigit)
    | rest => ([], rest)
  if whole.isEmpty && places.isEmpty then none
  else (readExponent? rest).map fun e =>
    .ofDecimal negative (valueIn 10 (whole ++ places)) (e - places.length)

/-- Read a floating point number, an infinity or a number that is not one. -/
def readFloat (t : Text) : Except NumeralFault Binary64 :=
  let cs := stripPadding (asciiOf t)
  if !underscoresFit ' ' cs then .error (.notFloat t)
  else
    let (negative, body) := splitSign (cs.filter (· != '_'))
    let word := body.map Char.toLower
    if word = ['i', 'n', 'f'] || word = ['i', 'n', 'f', 'i', 'n', 'i', 't', 'y'] then
      .ok (.infinite negative)
    else if word = ['n', 'a', 'n'] then .ok .nan
    else
      match readDecimal? negative body with
      | some x => .ok x
      | none => .error (.notFloat t)

/-- The decimal text of a whole number. -/
def writeInt (n : Int) : Except NumeralFault String :=
  if maxDecimalDigits < (Nat.toDigits 10 n.natAbs).length then .error .tooLongToWrite
  else .ok (toString n)

end Numeral

end FrontLint
