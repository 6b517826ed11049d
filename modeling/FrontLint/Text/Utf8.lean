import FrontLint.Text.Quoted

/-!
# UTF-8

Encoding fails on surrogate halves. Decoding reads one byte at a time and splits its input
into characters and malformed parts; a malformed part is as long as some character's bytes
could begin. Strict decoding fails at the first malformed part, lossy decoding puts the
replacement character for each.
-/

namespace FrontLint

abbrev Bytes := List UInt8

namespace Utf8

/-- The continuation byte that holds the six lowest bits of `n`. -/
def tailByte (n : Nat) : UInt8 := UInt8.ofNat (0x80 + n % 64)

def encodeChar (c : Char) : Bytes :=
  let n := c.toNat
  if n < 0x80 then [UInt8.ofNat n]
  else if n < 0x800 then [UInt8.ofNat (0xC0 + n / 64), tailByte n]
  else if n < 0x10000 then [UInt8.ofNat (0xE0 + n / 4096), tailByte (n / 64), tailByte n]
  else
    [UInt8.ofNat (0xF0 + n / 262144), tailByte (n / 4096), tailByte (n / 64), tailByte n]

def encodeChars (cs : List Char) : Bytes := cs.flatMap encodeChar

/-- Where a text cannot be encoded: a run of surrogate halves. -/
structure EncodeFault where
  /-- The halves of the run. -/
  run : Text
  /-- The number of code points before it. -/
  position : Nat
deriving DecidableEq

/-- The first run of surrogate halves of a text, `position` being the number of code
points before it. -/
def firstHalves? (position : Nat) : Text → Option EncodeFault
  | [] => none
  | .char _ :: rest => firstHalves? (position + 1) rest
  | .half h :: rest => some ⟨.half h :: rest.takeWhile (·.char?.isNone), position⟩

def encode (t : Text) : Except EncodeFault Bytes :=
  match firstHalves? 0 t with
  | some fault => .error fault
  | none => .ok (encodeChars t.toChars)

/-- "character 'x' in position p" for a run of one code point, a range for a longer one. -/
def describeRun (run : Text) (position : Nat) : String :=
  match run with
  | [c] => s!"character '{String.ofList (Quoted.numericEscape c.point)}' in position {position}"
  | _ => s!"characters in position {position}-{position + run.length - 1}"

def EncodeFault.message (f : EncodeFault) : String :=
  s!"'utf-8' codec can't encode {describeRun f.run f.position}: surrogates not allowed"

/-- Why bytes are no character. -/
inductive Malformation where
  | startByte
  | continuationByte
  | endOfData
deriving DecidableEq

def Malformation.message : Malformation → String
  | .startByte => "invalid start byte"
  | .continuationByte => "invalid continuation byte"
  | .endOfData => "unexpected end of data"

/-- A character, or malformed bytes: the first of them, their number, and the cause. -/
inductive Piece where
  | char (c : Char)
  | malformed (first : UInt8) (count : Nat) (cause : Malformation)
deriving DecidableEq

/-- The beginning of a character: its first byte, the number of bytes read, how many
remain, the bits so far, and the range in which the next byte has to lie. -/
structure Pending where
  first : UInt8
  count : Nat
  missing : Nat
  bits : Nat
  low : Nat
  high : Nat
deriving DecidableEq

/-- What a byte begins. -/
def begin? (b : UInt8) : Except Piece Pending :=
  let n := b.toNat
  if n < 0x80 then .error (.char (Char.ofNat n))
  else if n < 0xC2 then .error (.malformed b 1 .startByte)
  else if n < 0xE0 then .ok ⟨b, 1, 1, n - 0xC0, 0x80, 0xBF⟩
  else if n < 0xF0 then
    .ok ⟨b, 1, 2, n - 0xE0, if n = 0xE0 then 0xA0 else 0x80, if n = 0xED then 0x9F else 0xBF⟩
  else if n < 0xF5 then
    .ok ⟨b, 1, 3, n - 0xF0, if n = 0xF0 then 0x90 else 0x80, if n = 0xF4 then 0x8F else 0xBF⟩
  else .error (.malformed b 1 .startByte)

/-- The pieces of an input, given the beginning of a character that stands before it. -/
def piecesAfter : Option Pending → Bytes → List Piece
  | none, [] => []
  | some p, [] => [.malformed p.first p.count .endOfData]
  | none, b :: rest =>
    match begin? b with
    | .error piece => piece :: piecesAfter none rest
    | .ok p => piecesAfter (some p) rest
  | some p, b :: rest =>
    if p.low ≤ b.toNat ∧ b.toNat ≤ p.high then
      let bits := p.bits * 64 + (b.toNat - 0x80)
      if p.missing = 1 then .char (Char.ofNat bits) :: piecesAfter none rest
      else piecesAfter (some ⟨p.first, p.count + 1, p.missing - 1, bits, 0x80, 0xBF⟩) rest
    else
      .malformed p.first p.count .continuationByte ::
        match begin? b with
        | .error piece => piece :: piecesAfter none rest
        | .ok p => piecesAfter (some p) rest

def pieces (bytes : Bytes) : List Piece := piecesAfter none bytes

/-- Where bytes are no text. -/
structure DecodeFault where
  first : UInt8
  count : Nat
  cause : Malformation
  /-- The number of bytes before the malformed ones. -/
  position : Nat
deriving DecidableEq

/-- The characters of pieces without a malformed one, `position` being the number of bytes
before them. -/
def charsOfPieces (position : Nat) : List Piece → Except DecodeFault (List Char)
  | [] => .ok []
  | .char c :: rest => do
    return c :: (← charsOfPieces (position + (encodeChar c).length) rest)
  | .malformed first count cause :: _ => .error ⟨first, count, cause, position⟩

def decode (bytes : Bytes) : Except DecodeFault (List Char) := charsOfPieces 0 (pieces bytes)

def decodeLossy (bytes : Bytes) : List Char :=
  (pieces bytes).map fun
    | .char c => c
    | .malformed _ _ _ => '\uFFFD'

def DecodeFault.message (f : DecodeFault) : String :=
  let place :=
    if f.count = 1 then
      s!"byte 0x{String.ofList (hexDigits 2 f.first.toNat)} in position {f.position}"
    else s!"bytes in position {f.position}-{f.position + f.count - 1}"
  s!"'utf-8' codec can't decode {place}: {f.cause.message}"

end Utf8

/-- The characters with every line end, `\r\n` or `\r`, made a line feed. -/
def unifyLineEnds : List Char → List Char
  | [] => []
  | '\r' :: '\n' :: rest => '\n' :: unifyLineEnds rest
  | c :: rest => (if c = '\r' then '\n' else c) :: unifyLineEnds rest

end FrontLint
