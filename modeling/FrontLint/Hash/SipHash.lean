/-!
# SipHash

The hash SipHash-1-3 of a sequence of bytes under a key.
-/

namespace FrontLint

namespace SipHash

/-- The two halves of a key. -/
structure Key where
  first : UInt64
  second : UInt64

structure State where
  v0 : UInt64
  v1 : UInt64
  v2 : UInt64
  v3 : UInt64

def start (key : Key) : State where
  v0 := key.first ^^^ 0x736f6d6570736575
  v1 := key.second ^^^ 0x646f72616e646f6d
  v2 := key.first ^^^ 0x6c7967656e657261
  v3 := key.second ^^^ 0x7465646279746573

def rotateLeft (x n : UInt64) : UInt64 := (x <<< n) ||| (x >>> (64 - n))

def State.round (s : State) : State :=
  let a := s.v0 + s.v1
  let b := rotateLeft s.v1 13 ^^^ a
  let c := s.v2 + s.v3
  let d := rotateLeft s.v3 16 ^^^ c
  let a' := rotateLeft a 32 + d
  let d' := rotateLeft d 21 ^^^ a'
  let c' := c + b
  let b' := rotateLeft b 17 ^^^ c'
  ⟨a', b', rotateLeft c' 32, d'⟩

/-- The number whose bytes these are, the lowest first. -/
def word (bytes : List UInt8) : UInt64 :=
  bytes.foldr (fun b w => w <<< 8 ||| b.toUInt64) 0

def State.absorb (s : State) (w : UInt64) : State :=
  let s := { s with v3 := s.v3 ^^^ w }.round
  { s with v0 := s.v0 ^^^ w }

/-- Absorb the words of `count` bytes, and then the bytes that are left with the count. -/
def absorbAll (count : Nat) : List UInt8 → State → State
  | a :: b :: c :: d :: e :: f :: g :: h :: rest, s =>
    absorbAll count rest (s.absorb (word [a, b, c, d, e, f, g, h]))
  | rest, s => s.absorb (word rest ||| UInt64.ofNat count <<< 56)

def hash (key : Key) (bytes : List UInt8) : UInt64 :=
  let s := absorbAll bytes.length bytes (start key)
  let s := { s with v2 := s.v2 ^^^ 0xff }.round.round.round
  s.v0 ^^^ s.v1 ^^^ s.v2 ^^^ s.v3

end SipHash

end FrontLint
