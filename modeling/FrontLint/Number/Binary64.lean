/-!
# Binary floating point

The numbers of the IEEE 754 format binary64, as a sign, a significand and a power of two.
Arithmetic is exact on rationals and rounded once, to the nearest number and from the
middle to the even one.
-/

namespace FrontLint

/-- A binary64 number. A finite one is `significand * 2 ^ exponent`, where the significand
has 53 bits, or fewer at the least exponent. -/
inductive Binary64 where
  | nan
  | infinite (negative : Bool)
  | finite (negative : Bool) (significand : Nat) (exponent : Int)
deriving DecidableEq

namespace Binary64

/-- The least exponent of a significand. -/
def minExponent : Int := -1074

/-- The greatest exponent of a significand. -/
def maxExponent : Int := 971

def zero (negative : Bool) : Binary64 := .finite negative 0 minExponent

/-- Multiply a fraction by `2 ^ (-e)`. -/
def scaleDown (num den : Nat) (e : Int) : Nat × Nat :=
  if e < 0 then (num * Nat.pow 2 e.natAbs, den) else (num, den * Nat.pow 2 e.natAbs)

/-- The whole number next to `num / den`, from the middle the even one. -/
def nearestEven (num den : Nat) : Nat :=
  let q := num / den
  let r := num % den
  if 2 * r < den then q
  else if den < 2 * r then q + 1
  else if q % 2 = 0 then q else q + 1

/-- The exponent at which `num / den` has 53 bits before the point, but not below the
least one. -/
def exponentOf (num den : Nat) : Int :=
  let guess : Int := (Nat.log2 num : Int) - Nat.log2 den - 53
  let (a, b) := scaleDown num den guess
  max minExponent (if a < Nat.pow 2 53 * b then guess else guess + 1)

/-- The number nearest to `num / den`, for a `den` above zero. -/
def ofRatio (negative : Bool) (num den : Nat) : Binary64 :=
  if num = 0 then zero negative
  else
    let e := exponentOf num den
    let (a, b) := scaleDown num den e
    let m := nearestEven a b
    let (m, e) := if m = Nat.pow 2 53 then (Nat.pow 2 52, e + 1) else (m, e)
    if maxExponent < e then .infinite negative else .finite negative m e

/-- The number nearest to `digits * 10 ^ exponent`. A number above `10 ^ 309` is infinite
and one below `10 ^ (-400)` is zero, whatever its digits. -/
def ofDecimal (negative : Bool) (digits : Nat) (exponent : Int) : Binary64 :=
  if digits = 0 then zero negative
  else
    let size : Int := (Nat.toDigits 10 digits).length + exponent
    if 310 < size then .infinite negative
    else if size < -400 then zero negative
    else if 0 ≤ exponent then ofRatio negative (digits * Nat.pow 10 exponent.natAbs) 1
    else ofRatio negative digits (Nat.pow 10 exponent.natAbs)

/-- The number nearest to a whole number, unless that is too large. -/
def ofInt? (n : Int) : Option Binary64 :=
  match ofRatio (n < 0) n.natAbs 1 with
  | .infinite _ => none
  | x => some x

/-- A finite number as a fraction. -/
def fraction (significand : Nat) (exponent : Int) : Nat × Nat :=
  if exponent < 0 then (significand, Nat.pow 2 exponent.natAbs)
  else (significand * Nat.pow 2 exponent.natAbs, 1)

def isZero : Binary64 → Bool
  | .finite _ m _ => m == 0
  | _ => false

def isFinite : Binary64 → Bool
  | .finite _ _ _ => true
  | _ => false

def neg : Binary64 → Binary64
  | .nan => .nan
  | .infinite s => .infinite !s
  | .finite s m e => .finite (!s) m e

def add : Binary64 → Binary64 → Binary64
  | .nan, _ => .nan
  | _, .nan => .nan
  | .infinite s, .infinite t => if s = t then .infinite s else .nan
  | .infinite s, .finite _ _ _ => .infinite s
  | .finite _ _ _, .infinite t => .infinite t
  | .finite s m e, .finite t n f =>
    let low := min e f
    let signed (negative : Bool) (k : Nat) : Int := if negative then -(k : Int) else k
    let sum := signed s (m * Nat.pow 2 (e - low).natAbs) + signed t (n * Nat.pow 2 (f - low).natAbs)
    if sum = 0 then zero (s && t)
    else
      let (a, b) := fraction sum.natAbs low
      ofRatio (sum < 0) a b

def mul : Binary64 → Binary64 → Binary64
  | .nan, _ => .nan
  | _, .nan => .nan
  | .infinite s, .infinite t => .infinite (s != t)
  | .infinite s, .finite t n _ => if n = 0 then .nan else .infinite (s != t)
  | .finite s m _, .infinite t => if m = 0 then .nan else .infinite (s != t)
  | .finite s m e, .finite t n f =>
    let (a, b) := fraction (m * n) (e + f)
    ofRatio (s != t) a b

/-- Order by value; a number that is not one is not comparable. -/
def compare? : Binary64 → Binary64 → Option Ordering
  | .nan, _ => none
  | _, .nan => none
  | .infinite s, .infinite t => some (compare t s)
  | .infinite s, .finite _ _ _ => some (if s then .lt else .gt)
  | .finite _ _ _, .infinite t => some (if t then .gt else .lt)
  | .finite s m e, .finite t n f =>
    let low := min e f
    let signed (negative : Bool) (k : Nat) : Int := if negative then -(k : Int) else k
    some (compare (signed s (m * Nat.pow 2 (e - low).natAbs))
      (signed t (n * Nat.pow 2 (f - low).natAbs)))

/-- The whole number that a number equals, if there is one. -/
def toInt? : Binary64 → Option Int
  | .finite s m e =>
    let (a, b) := fraction m e
    if a % b = 0 then some (if s then -((a / b : Nat) : Int) else (a / b : Nat)) else none
  | _ => none

end Binary64

end FrontLint
