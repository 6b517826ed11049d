import FrontLint.CommandLine.Word
import FrontLint.Settings

/-!
# Arguments

What the command line asks for. The first run of plain words are the patterns; plain words
behind a later option have no meaning. Options take effect in order, so a call for help that
stands before a wrong text is answered.
-/

namespace FrontLint

structure Arguments where
  patterns : List String
  filter : Option String
  verbose : Bool
  /-- The limit that is asked for, if one is: a time, or none at all. -/
  timeout : Option (Option Binary64)
  linter : Option String

def Arguments.none : Arguments := ⟨[], .none, false, .none, .none⟩

/-- Why arguments are refused. -/
inductive Refusal where
  | ambiguous (text : String) (flags : List Flag)
  | unrecognized (words : List String)
  | textMissing (flag : Flag)
  | textUnexpected (flag : Flag) (text : List Char)
  | badTimeout (text : String)
deriving DecidableEq

def Refusal.message : Refusal → String
  | .ambiguous text flags =>
      s!"ambiguous option: {text} could match " ++ ", ".intercalate (flags.map Flag.longName)
  | .unrecognized words => "unrecognized arguments: " ++ " ".intercalate words
  | .textMissing flag => s!"argument {flag.title}: expected one argument"
  | .textUnexpected flag text =>
      s!"argument {flag.title}: ignored explicit argument {(Text.ofChars text).quoted}"
  | .badTimeout text =>
      s!"argument {Flag.timeout.title}: invalid parse_timeout value: {quotedString text}"

/-- Why nothing is to be linted. -/
inductive Stop where
  | help
  | version
  | refused (refusal : Refusal)
deriving DecidableEq

namespace Arguments

/-- Read a list of arguments as words. -/
def wordsOf : List String → Except Refusal (List Word)
  | [] => .ok []
  | text :: rest =>
    if text = "--" then .ok (.mark :: rest.map .plain)
    else
      match Word.ofText text with
      | .error flags => .error (.ambiguous text flags)
      | .ok word => (wordsOf rest).map (word :: ·)

/-- The flags in one argument: those without a text, and the last one if a text belongs to
it, with the text if it is attached. Letters behind one hyphen stand together. -/
def flagsIn (f : Flag) (short : Bool) : Option (List Char) →
    Except Refusal (List Flag × Option (Flag × Option (List Char)))
  | .none => .ok (if f.takesText then ([], some (f, .none)) else ([f], .none))
  | some text =>
    if f.takesText then .ok ([], some (f, some text))
    else if !short then .error (.textUnexpected f text)
    else letters f text
where
  letters (f : Flag) : List Char → Except Refusal (List Flag × Option (Flag × Option (List Char)))
    | [] => .error (.textUnexpected f [])
    | c :: rest =>
      match Flag.ofLetter? c with
      | .none => .error (.textUnexpected f (c :: rest))
      | some next =>
        if next.takesText then
          .ok ([f], some (next, if rest.isEmpty then .none else some rest))
        else if rest.isEmpty then .ok ([f, next], .none)
        else (letters next rest).map fun (flags, last) => (f :: flags, last)

/-- Let a flag without a text take effect. -/
def turnOn (a : Arguments) : Flag → Except Stop Arguments
  | .help => .error .help
  | .version => .error .version
  | .verbose => .ok { a with verbose := true }
  | _ => .ok a

/-- Let a flag with a text take effect. -/
def setText (a : Arguments) (f : Flag) (text : String) : Except Stop Arguments :=
  match f with
  | .filter => .ok { a with filter := some text }
  | .linter => .ok { a with linter := some text }
  | .timeout =>
    match Timeout.read (Text.ofString text) with
    | .ok limit => .ok { a with timeout := some limit }
    | .error _ => .error (.refused (.badTimeout text))
  | _ => .ok a

/-- How far the words have been read. -/
structure Reading where
  arguments : Arguments
  /-- Whether patterns have begun, and ended. -/
  begun : Bool
  ended : Bool
  /-- Words without a meaning. -/
  extra : List String

def Reading.start : Reading := ⟨.none, false, false, []⟩

namespace Reading

def addPlain (r : Reading) (text : String) : Reading :=
  if r.ended then { r with extra := r.extra ++ [text] }
  else { r with
    begun := true
    arguments := { r.arguments with patterns := r.arguments.patterns ++ [text] } }

/-- The mark is dropped among the patterns. -/
def addMark (r : Reading) : Reading :=
  if r.ended then { r with extra := r.extra ++ ["--"] } else { r with begun := true }

/-- An option ends the patterns if they have begun. -/
def close (r : Reading) : Reading := { r with ended := r.begun }

def addUnknown (r : Reading) (text : String) : Reading :=
  let r := r.close
  { r with extra := r.extra ++ [text] }

def turnOnAll (r : Reading) (flags : List Flag) : Except Stop Reading := do
  let arguments ← flags.foldlM turnOn r.arguments
  return { r.close with arguments := arguments }

def setText (r : Reading) (f : Flag) (text : String) : Except Stop Reading := do
  let arguments ← r.arguments.setText f text
  return { r with arguments := arguments }

end Reading

/-- Read words in order. A text that is not attached is the next word, if that is plain. -/
def readWords : List Word → Reading → Except Stop Reading
  | [], r => .ok r
  | .plain text :: rest, r => readWords rest (r.addPlain text)
  | .mark :: rest, r => readWords rest r.addMark
  | .unknown text :: rest, r => readWords rest (r.addUnknown text)
  | .flag f short attached :: rest, r =>
    match flagsIn f short attached with
    | .error refusal => .error (.refused refusal)
    | .ok (flags, .none) => do readWords rest (← r.turnOnAll flags)
    | .ok (flags, some (last, some text)) => do
      let r ← r.turnOnAll flags
      readWords rest (← r.setText last (String.ofList text))
    | .ok (flags, some (last, .none)) =>
      match rest with
      | .plain text :: rest => do
        let r ← r.turnOnAll flags
        readWords rest (← r.setText last text)
      | _ => .error (.refused (.textMissing last))

/-- Read the arguments of a call. -/
def read (argv : List String) : Except Stop Arguments := do
  let words ← (wordsOf argv).mapError .refused
  let r ← readWords words .start
  if r.extra.isEmpty then return r.arguments
  else throw (.refused (.unrecognized r.extra))

end Arguments

end FrontLint
