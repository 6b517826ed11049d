import FrontLint.Number.Binary64

/-!
# Decimal text of binary numbers

The shortest text has the fewest significant digits that read back as the same number, and
of those the digits nearest to it. The rounded text has a given number of significant
digits without the zeros at their end. Both are written positionally or with an exponent,
by the size of the number.
-/

namespace FrontLint

namespace FloatText

/-- The exponent of the first decimal digit of `num / den`, both above zero. -/
def leadingExponent (num den : Nat) : Int :=
  if den ≤ num then (Nat.toDigits 10 (num / den)).length - 1
  else
    let places := (Nat.toDigits 10 (den / num)).length
    if den ≤ num * Nat.pow 10 (places - 1) then -(places - 1 : Int) else -(places : Int)

/-- Multiply a fraction by `10 ^ (-e)`. -/
def scaleDown (num den : Nat) (e : Int) : Nat × Nat :=
  if e < 0 then (num * Nat.pow 10 e.natAbs, den) else (num, den * Nat.pow 10 e.natAbs)

/-- Decimal digits without a zero at the end, and the exponent of the first one. -/
structure Digits where
  digits : List Char
  exponent : Int

def dropEndZeros (ds : List Char) : List Char := (ds.reverse.dropWhile (· == '0')).reverse

/-- The digits of `k * 10 ^ grid`, for a `k` above zero. -/
def Digits.ofScaled (k : Nat) (grid : Int) : Digits :=
  let ds := Nat.toDigits 10 k
  ⟨dropEndZeros ds, ds.length - 1 + grid⟩

/-- The interval of the fractions that round to a number, in quarters of its last bit:
below the least significand of an exponent the numbers lie twice as close. The ends
belong to it when the significand is even. -/
def readsBack (significand : Nat) (exponent : Int) (k : Nat) (grid : Int) : Bool :=
  let (a, b) := Binary64.fraction (4 * significand) exponent
  let lowGap := if significand = Nat.pow 2 52 && Binary64.minExponent < exponent then 1 else 2
  let (u, _) := Binary64.fraction 1 exponent
  let scale := Nat.pow 10 grid.natAbs
  let (num, den) := if 0 ≤ grid then (k * scale, 1) else (k, scale)
  let point := 4 * num * b
  let low := (a - lowGap * u) * den
  let high := (a + 2 * u) * den
  if significand % 2 = 0 then low ≤ point && point ≤ high else low < point && point < high

/-- Of the two points of a decimal grid beside a number, the nearer one that reads back. -/
def onGrid? (significand : Nat) (exponent : Int) (grid : Int) : Option Nat :=
  let (num, den) := Binary64.fraction significand exponent
  let (a, b) := scaleDown num den grid
  let below := a / b
  let fits (k : Nat) : Bool := k != 0 && readsBack significand exponent k grid
  let (first, second) :=
    if 2 * (a % b) < b || (2 * (a % b) == b && below % 2 == 0) then (below, below + 1)
    else (below + 1, below)
  if fits first then some first else if fits second then some second else none

/-- The shortest digits of a number above zero. Seventeen always suffice. -/
def shortest (significand : Nat) (exponent : Int) : Digits :=
  let (num, den) := Binary64.fraction significand exponent
  let lead := leadingExponent num den
  let grids := (List.range 17).map fun (n : Nat) => lead - n
  match grids.findSome? fun g => (onGrid? significand exponent g).map fun k => (k, g) with
  | some (k, g) => .ofScaled k g
  | none => .ofScaled 1 lead

/-- The number rounded to `count` significant digits, from the middle to the even one. -/
def rounded (count : Nat) (significand : Nat) (exponent : Int) : Digits :=
  let (num, den) := Binary64.fraction significand exponent
  let grid := leadingExponent num den - (count - 1)
  let (a, b) := scaleDown num den grid
  .ofScaled (Binary64.nearestEven a b) grid

/-- How digits are laid out. -/
structure Layout where
  /-- The least exponent written positionally. -/
  least : Int
  /-- The least exponent above which an exponent is written. -/
  bound : Int
  /-- Whether a whole number keeps a zero after its point. -/
  pointed : Bool

/-- Digits with a point after the first `count`, filled up with zeros. -/
def positional (pointed : Bool) (digits : List Char) (exponent : Int) : List Char :=
  if exponent < 0 then
    '0' :: '.' :: List.replicate (exponent.natAbs - 1) '0' ++ digits
  else
    let count := exponent.natAbs + 1
    let whole := digits.take count ++ List.replicate (count - digits.length) '0'
    match digits.drop count with
    | [] => if pointed then whole ++ ['.', '0'] else whole
    | rest => whole ++ '.' :: rest

/-- Digits with a point after the first and an exponent of at least two digits. -/
def scientific (digits : List Char) (exponent : Int) : List Char :=
  let power := Nat.toDigits 10 exponent.natAbs
  let mantissa :=
    match digits with
    | d :: e :: rest => d :: '.' :: e :: rest
    | ds => ds
  mantissa ++ 'e' :: (if exponent < 0 then '-' else '+') ::
    List.replicate (2 - power.length) '0' ++ power

def Layout.write (layout : Layout) (d : Digits) : List Char :=
  if layout.least ≤ d.exponent && d.exponent < layout.bound then
    positional layout.pointed d.digits d.exponent
  else scientific d.digits d.exponent

def Layout.text (layout : Layout) (digitsOf : Nat → Int → Digits) : Binary64 → String
  | .nan => "nan"
  | .infinite s => if s then "-inf" else "inf"
  | .finite s m e =>
    let body :=
      if m = 0 then positional layout.pointed ['0'] 0 else layout.write (digitsOf m e)
    String.ofList (if s then '-' :: body else body)

/-- The layout of a value: positional from `10 ^ (-4)` to below `10 ^ 16`. -/
def valueLayout : Layout := ⟨-4, 16, true⟩

/-- The layout of a rounded duration: positional from `10 ^ (-4)` to below `10 ^ 6`. -/
def durationLayout : Layout := ⟨-4, 6, false⟩

end FloatText

namespace Binary64

/-- The shortest text that reads back as the number. -/
def shortestText (x : Binary64) : String := FloatText.valueLayout.text FloatText.shortest x

/-- The text of a number rounded to six significant digits. -/
def roundedText (x : Binary64) : String := FloatText.durationLayout.text (FloatText.rounded 6) x

end Binary64

end FrontLint
