import FrontLint.Text.Printable

/-!
# Quoted form

The form in which messages show a text or a byte string: single quotes, unless the content
holds a single quote and no double quote; printable characters as they are, the others as
escapes of the smallest width that fits.
-/

namespace FrontLint

/-- The digits of `n` in base 16, in lower case, filled up with zeros to a width. -/
def hexDigits (width n : Nat) : List Char :=
  let digits := Nat.toDigits 16 n
  List.replicate (width - digits.length) '0' ++ digits

namespace Quoted

/-- A character as `\x..`, `\u....` or `\U........`. -/
def numericEscape (point : Nat) : List Char :=
  if point < 0x100 then '\\' :: 'x' :: hexDigits 2 point
  else if point < 0x10000 then '\\' :: 'u' :: hexDigits 4 point
  else '\\' :: 'U' :: hexDigits 8 point

/-- The escapes that a text and a byte string share. -/
def commonEscape? (quote c : Char) : Option (List Char) :=
  if c = quote || c = '\\' then some ['\\', c]
  else if c = '\n' then some ['\\', 'n']
  else if c = '\r' then some ['\\', 'r']
  else if c = '\t' then some ['\\', 't']
  else none

def escapeCode (quote : Char) : Code → List Char
  | .char c =>
      (commonEscape? quote c).getD
        (if (Code.char c).isPrintable then [c] else numericEscape c.toNat)
  | c@(.half _) => numericEscape c.point

def escapeByte (quote : Char) (b : UInt8) : List Char :=
  let c := Char.ofNat b.toNat
  (commonEscape? quote c).getD
    (if 32 ≤ b.toNat && b.toNat < 127 then [c] else numericEscape b.toNat)

def quoteFor (hasSingle hasDouble : Bool) : Char :=
  if hasSingle && !hasDouble then '\x22' else '\''

end Quoted

/-- The quoted form of a text. -/
def Text.quoted (t : Text) : String :=
  let quote := Quoted.quoteFor (t.contains (.char '\'')) (t.contains (.char '\x22'))
  String.ofList (quote :: t.flatMap (Quoted.escapeCode quote) ++ [quote])

/-- The quoted form of a byte string, marked by a leading `b`. -/
def quotedBytes (bytes : List UInt8) : String :=
  let quote := Quoted.quoteFor (bytes.contains 39) (bytes.contains 34)
  String.ofList ('b' :: quote :: bytes.flatMap (Quoted.escapeByte quote) ++ [quote])

/-- The quoted form of a string. -/
def quotedString (s : String) : String := (Text.ofString s).quoted

end FrontLint
