import FrontLint.Text.Quoted

/-!
# Base64

Characters outside the alphabet are skipped. The input ends with its last character, or with
the padding that completes a group of four.
-/

namespace FrontLint.Base64

/-- Why data is not decoded. -/
inductive Fault where
  | padding
  /-- One character is left over after this many complete ones less one. -/
  | leftOver (characters : Nat)
deriving DecidableEq

def Fault.message : Fault → String
  | .padding => "Incorrect padding"
  | .leftOver characters =>
      s!"Invalid base64-encoded string: number of data characters ({characters}) cannot be 1 more than a multiple of 4"

/-- The six bits that a character stands for. -/
def sextet? (c : Char) : Option Nat :=
  if c.isUpper then some (c.toNat - 65)
  else if c.isLower then some (c.toNat - 71)
  else if c.isDigit then some (c.toNat + 4)
  else if c = '+' then some 62
  else if c = '/' then some 63
  else none

/-- The state between two characters: the place in the group of four, the bits that are
not yet part of a byte, the padding read since the last data, and the bytes, last first. -/
structure State where
  place : Nat
  left : Nat
  pads : Nat
  bytes : List UInt8

/-- Take in six bits. -/
def State.push (s : State) (n : Nat) : State :=
  match s.place with
  | 0 => ⟨1, n, 0, s.bytes⟩
  | 1 => ⟨2, n % 16, 0, UInt8.ofNat (s.left * 4 + n / 16) :: s.bytes⟩
  | 2 => ⟨3, n % 4, 0, UInt8.ofNat (s.left * 16 + n / 4) :: s.bytes⟩
  | _ => ⟨0, 0, 0, UInt8.ofNat (s.left * 64 + n) :: s.bytes⟩

def decodeFrom (s : State) : List Char → Except Fault (List UInt8)
  | [] =>
    if s.place = 0 then .ok s.bytes.reverse
    else if s.place = 1 then .error (.leftOver (s.bytes.length / 3 * 4 + 1))
    else .error .padding
  | c :: rest =>
    if c = '=' then
      if 2 ≤ s.place then
        if 4 ≤ s.place + (s.pads + 1) then .ok s.bytes.reverse
        else decodeFrom { s with pads := s.pads + 1 } rest
      else decodeFrom s rest
    else
      match sextet? c with
      | some n => decodeFrom (s.push n) rest
      | none => decodeFrom s rest

def decode (cs : List Char) : Except Fault (List UInt8) := decodeFrom ⟨0, 0, 0, []⟩ cs

end FrontLint.Base64
