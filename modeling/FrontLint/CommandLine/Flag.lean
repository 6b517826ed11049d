/-!
# Flags

The options of the command line and their spellings. A long spelling may be cut short as
long as it stays the beginning of one spelling only.
-/

namespace FrontLint

inductive Flag where
  | help
  | version
  | filter
  | verbose
  | timeout
  | linter
deriving DecidableEq

namespace Flag

def all : List Flag := [.help, .version, .filter, .verbose, .timeout, .linter]

/-- The letter of a flag that can follow a single hyphen. -/
def letter? : Flag → Option Char
  | .help => some 'h'
  | .filter => some 'f'
  | .verbose => some 'v'
  | _ => none

def longName : Flag → String
  | .help => "--help"
  | .version => "--version"
  | .filter => "--filter"
  | .verbose => "--verbose"
  | .timeout => "--timeout"
  | .linter => "--linter"

/-- Whether a text belongs to the flag. -/
def takesText : Flag → Bool
  | .filter | .timeout | .linter => true
  | .help | .version | .verbose => false

/-- The spellings of a flag with slashes between them. -/
def title (f : Flag) : String :=
  match f.letter? with
  | some c => s!"-{c}/{f.longName}"
  | none => f.longName

def ofLetter? (c : Char) : Option Flag := all.find? fun f => f.letter? = some c

/-- The flags whose long spelling starts with a text. -/
def startingWith (text : List Char) : List Flag :=
  all.filter fun f => text.isPrefixOf f.longName.toList

def ofLongName? (text : List Char) : Option Flag := all.find? fun f => f.longName.toList = text

end Flag

end FrontLint
