import FrontLint.CommandLine.Flag
import FrontLint.Number.Numeral

/-!
# Words of the command line

An argument is a plain word, a flag, perhaps with a text attached to it, or an unknown option.
Behind the first `--` all arguments are plain words.
-/

namespace FrontLint

inductive Word where
  | plain (text : String)
  /-- The argument `--` that ends the options. -/
  | mark
  | flag (flag : Flag) (short : Bool) (attached : Option (List Char))
  | unknown (text : String)
deriving DecidableEq

namespace Word

def isDigit (c : Char) : Bool := (Code.char c).decimalValue?.isSome

/-- Whether a text is a hyphen and a decimal number, perhaps with a line feed behind it. -/
def isNegativeNumber (t : List Char) : Bool :=
  match t with
  | '-' :: body =>
    let body := if body.getLast? = some '\n' then body.dropLast else body
    match body.dropWhile isDigit with
    | [] => !body.isEmpty
    | '.' :: places => !places.isEmpty && places.all isDigit
    | _ => false
  | _ => false

/-- Split at the first equals sign. -/
def splitEquals (t : List Char) : List Char × Option (List Char) :=
  match t.dropWhile (· != '=') with
  | _ :: text => (t.takeWhile (· != '='), some text)
  | [] => (t, none)

/-- The flags that an argument of at least two characters may stand for: each with whether
it is spelled with one hyphen, and the text attached to it. -/
def readings (t : List Char) : List (Flag × Bool × Option (List Char)) :=
  match t with
  | '-' :: '-' :: _ =>
    let (name, text) := splitEquals t
    (Flag.startingWith name).map fun f => (f, false, text)
  | '-' :: c :: rest =>
    match Flag.ofLetter? c with
    | some f => [(f, true, some rest)]
    | none => []
  | _ => []

/-- The flag that is spelled exactly. -/
def spelled? (t : List Char) : Option (Flag × Bool) :=
  match t with
  | ['-', c] => (Flag.ofLetter? c).map fun f => (f, true)
  | t => (Flag.ofLongName? t).map fun f => (f, false)

/-- Read an argument before the first `--`. Several readings are an error; an argument that
is a negative number or holds a space is plain if it is no option. -/
def ofText (text : String) : Except (List Flag) Word :=
  let t := text.toList
  match t with
  | '-' :: _ :: _ =>
    match spelled? t with
    | some (f, short) => .ok (.flag f short none)
    | none =>
      match splitEquals t with
      | (name, some attached) =>
        match spelled? name with
        | some (f, short) => .ok (.flag f short (some attached))
        | none => ofReadings t
      | (_, none) => ofReadings t
  | _ => .ok (.plain text)
where
  ofReadings (t : List Char) : Except (List Flag) Word :=
    match readings t with
    | [(f, short, attached)] => .ok (.flag f short attached)
    | [] =>
      if isNegativeNumber t || t.contains ' ' then .ok (.plain text) else .ok (.unknown text)
    | several => .error (several.map Prod.fst)

end Word

end FrontLint
