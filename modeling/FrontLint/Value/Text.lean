import FrontLint.Hash.SipHash
import FrontLint.Hash.Table
import FrontLint.Number.FloatText
import FrontLint.Number.Numeral
import FrontLint.Value.Basic

/-!
# Texts of values

How scalars and sets are written as text. The members of a set stand in the order of a hash
table. The hash of a member is equal for members that are the same: numbers are hashed as
fractions modulo the prime `2 ^ 61 - 1`, all else by its bytes. So the order of a set may differ
from process to process, as the key for bytes does.
-/

namespace FrontLint

/-- What hashes depend on beside what is hashed: the key for bytes, and the hashes of the two
values that are hashed by their place in memory. -/
class HashSeed where
  key : SipHash.Key
  null : UInt64
  nan : UInt64

namespace HashSeed

/-- The seed of zeros. -/
scoped instance zero : HashSeed := ⟨⟨0, 0⟩, 0, 0⟩

end HashSeed

section

variable [HashSeed]

namespace ValueHash

def prime : Nat := Nat.pow 2 61 - 1

/-- The hash of minus one is that of minus two. -/
def ofInt (n : Int) : UInt64 := UInt64.ofInt (if n = -1 then -2 else n)

def signed (negative : Bool) (n : Nat) : UInt64 := ofInt (if negative then -(n : Int) else n)

def ofBytes (bytes : Bytes) : UInt64 :=
  if bytes.isEmpty then 0
  else
    let h := SipHash.hash HashSeed.key bytes
    if h = UInt64.ofInt (-1) then UInt64.ofInt (-2) else h

/-- The lowest `count` bytes of a number, the lowest first. -/
def lowBytes : Nat → Nat → Bytes
  | 0, _ => []
  | count + 1, n => UInt8.ofNat n :: lowBytes count (n / 256)

/-- A text as bytes: one for each code point, or two or four if one of them needs it. -/
def textBytes (t : Text) : Bytes :=
  let greatest := (t.map Code.point).foldl max 0
  let width := if greatest < 0x100 then 1 else if greatest < 0x10000 then 2 else 4
  t.flatMap fun c => lowBytes width c.point

/-- A power of two modulo the prime depends on the exponent modulo 61. -/
def ofFloat : Binary64 → UInt64
  | .nan => HashSeed.nan
  | .infinite negative => signed negative 314159
  | .finite negative m e => signed negative (m * Nat.pow 2 (e % 61).toNat % prime)

def dateBytes (d : Date) : Bytes :=
  (lowBytes 2 d.year).reverse ++ [UInt8.ofNat d.month, UInt8.ofNat d.day]

def momentBytes (m : Moment) : Bytes :=
  dateBytes m.date ++ [m.hour, m.minute, m.second].map UInt8.ofNat ++
    (lowBytes 3 m.microsecond).reverse

/-- The hash of a sequence of three hashes. -/
def ofTriple (a b c : UInt64) : UInt64 :=
  let step (acc lane : UInt64) : UInt64 :=
    SipHash.rotateLeft (acc + lane * 14029467366897019727) 31 * 11400714785074694791
  let seed : UInt64 := 2870177450012600261
  let h := step (step (step seed a) b) c + (3 ^^^ (seed ^^^ 3527539))
  if h = UInt64.ofInt (-1) then 1546275796 else h

/-- A moment of universal time as days, seconds and microseconds. -/
def ofInstant (microseconds : Int) : UInt64 :=
  let seconds := microseconds / 1000000
  ofTriple (ofInt (seconds / 86400 + 1)) (ofInt (seconds % 86400)) (ofInt (microseconds % 1000000))

end ValueHash

def Value.Identity.hash : Value.Identity → UInt64
  | .null => HashSeed.null
  | .whole n => ValueHash.signed (n < 0) (n.natAbs % ValueHash.prime)
  | .float x => ValueHash.ofFloat x
  | .text t => ValueHash.ofBytes (ValueHash.textBytes t)
  | .date d => ValueHash.ofBytes (ValueHash.dateBytes d)
  | .moment m => ValueHash.ofBytes (ValueHash.momentBytes m)
  | .instant microseconds => ValueHash.ofInstant microseconds
  | .bytes content => ValueHash.ofBytes content

def Value.hash (v : Value) : UInt64 := (v.identity?.map Identity.hash).getD 0

namespace Value

/-- A scalar as it stands inside a set. -/
def memberText : Value → Except NumeralFault String
  | .null => .ok "None"
  | .bool b => .ok (if b then "True" else "False")
  | .int n => Numeral.writeInt n
  | .float x => .ok x.shortestText
  | .text t => .ok t.quoted
  | .date d => .ok d.memberText
  | .moment m => .ok m.memberText
  | .bytes content => .ok (quotedBytes content)
  | _ => .ok ""

/-- The text of a value. Lists, mappings and pairs have none. -/
def text? : Value → Except NumeralFault (Option Text)
  | .text t => .ok (some t)
  | .date d => .ok (some d.text)
  | .moment m => .ok (some m.text)
  | .set elements => do
    let members ← (HashTable.order Value.hash elements).mapM memberText
    return some (Text.ofString ("\x7b" ++ ", ".intercalate members ++ "\x7d"))
  | .list _ | .map _ | .pair _ _ | .enclosing _ => .ok none
  | scalar => do return some (Text.ofString (← scalar.memberText))

end Value

end

end FrontLint
