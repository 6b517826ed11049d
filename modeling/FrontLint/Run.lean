import FrontLint.Cache
import FrontLint.Files.Selection
import FrontLint.Linter
import FrontLint.Settings

/-!
# Runs

A run makes a cache, projects the selected documents into it one by one, calls the linter
once on the cache if there is a projection, and removes the cache, whatever happened.
-/

namespace FrontLint

variable [HashSeed]

/-- What a run found. -/
structure Report where
  /-- The exit status of the linter, zero if it was not called. -/
  status : Nat
  output : List Char
  processed : Nat
  skipped : Nat
  failed : List (List Char)
  linted : Bool
deriving DecidableEq

def Report.empty : Report := ⟨0, [], 0, 0, [], false⟩

/-- A console for lines of a text: what it puts out for one, or why it refuses it. -/
abbrev Console := List Char → Except String (List Char)

/-- The console that takes every line as it is. -/
def Console.plain : Console := fun line => .ok (line ++ ['\n'])

/-- The line for a document that is processed. -/
def Console.processed (file : List Char) : List Char :=
  "Processed: ".toList ++ file ++ " -> Preserving original line numbers".toList

/-- What a run is to do. -/
structure Request where
  settings : Settings
  patterns : List String
  filter : Option String
  verbose : Bool
  /-- The directory from which patterns are matched and documents are named. -/
  base : Path
  console : Console

namespace Request

/-- The patterns of a request, or else the default one. -/
def patternTexts (r : Request) : List (List Char) :=
  (if r.patterns.isEmpty then [r.settings.defaultPattern] else r.patterns).map String.toList

/-- The console for the documents that are processed, if the run is verbose. -/
def reporting (r : Request) : Option Console := if r.verbose then some r.console else none

end Request

/-- How far a run has come with the documents. -/
structure Progress where
  files : FileTree
  notes : List Note
  /-- What the console has put out. -/
  printed : List (List Char)
  report : Report

namespace Progress

def start (files : FileTree) : Progress := ⟨files, [], [], .empty⟩

def countProcessed (p : Progress) : Progress :=
  { p with report := { p.report with processed := p.report.processed + 1 } }

/-- Print the line for a document, if there is a console. A line that is refused stops the
run. -/
def reportTo (console : Option Console) (p : Progress) (file : List Char) :
    Progress × Option Fault :=
  match console with
  | none => (p, none)
  | some console =>
    match console (Console.processed file) with
    | .ok shown => ({ p with printed := p.printed ++ [shown] }, none)
    | .error reason => (p, some (.console reason))

def countSkipped (p : Progress) (file : List Char) : Progress :=
  { p with
    notes := p.notes ++ [.skipped (String.ofList file)]
    report := { p.report with skipped := p.report.skipped + 1 } }

def countFailed (p : Progress) (file : List Char) (fault : Fault) : Progress :=
  { p with
    notes := p.notes ++ [.notProcessed (String.ofList file) fault.message]
    report := { p.report with failed := p.report.failed ++ [file] } }

/-- Project one document. A fault that is not the document's stops the run. -/
def take (cache : Cache) (console : Option Console) (p : Progress) (file : List Char) :
    Progress × Option Fault :=
  let (projected, files) := cache.process file p.files
  let p := { p with files := files, notes := p.notes ++ projected.notes }
  match projected.result with
  | .ok (some _) => p.countProcessed.reportTo console file
  | .ok none => (p.countSkipped file, none)
  | .error fault => if fault.isOfDocument then (p.countFailed file fault, none) else (p, some fault)

/-- Project documents in order, up to a fault that stops the run. -/
def takeAll (cache : Cache) (console : Option Console) :
    List (List Char) → Progress → Progress × Option Fault
  | [], p => (p, none)
  | file :: rest, p =>
    match take cache console p file with
    | (p, none) => takeAll cache console rest p
    | stopped => stopped

end Progress

/-- A call of the linter: the command, and the files at that time. -/
abbrev LinterCall := Command × FileTree

structure Outcome where
  result : Except Fault Report
  files : FileTree
  notes : List Note
  printed : List (List Char)
  calls : List LinterCall

namespace Run

/-- The fault of a program that could not be started. -/
def startFault (program : String) : FileFault → Fault
  | .refused .missing _ => .linter (.notFound program)
  | .refused .notPermitted _ => .linter (.notRunnable program)
  | fault => .file fault

/-- The exit status and the output of an ended linter. A signal counts as 128 and its number.
Without a limit there is no time to run out of. -/
def statusAndOutput (settings : Settings) : Ending → Except Fault (Nat × Bytes)
  | .refused fault => .error (startFault settings.linter fault)
  | .timedOut =>
    .error (.linter (.timedOut settings.linter (settings.timeout.getD (.zero false))))
  | .interrupted => .error .interrupted
  | .terminated => .error .terminated
  | .exited status output => .ok (status, output)
  | .killed signal output => .ok (128 + signal, output)

/-- The output of a linter as text: bytes that are no text give replacement characters, and
line ends become line feeds. -/
def outputText (output : Bytes) : List Char := unifyLineEnds (Utf8.decodeLossy output)

/-- The report of a run whose linter has ended. -/
def complete (settings : Settings) (cache : Cache) (p : Progress) (ending : Ending) :
    Except Fault Report :=
  match statusAndOutput settings ending with
  | .error fault => .error fault
  | .ok (status, output) =>
    .ok { p.report with
      status := status
      output := Output.relocate p.files cache.root (outputText output)
      linted := true }

/-- Call the linter on the cache. -/
def callLinter (request : Request) (linter : Linter) (cache : Cache) (p : Progress) : Outcome :=
  let command := Command.lint request.settings.linter request.filter cache.root
  { result := complete request.settings cache p (linter command p.files)
    files := p.files
    notes := p.notes ++ [.running command.words]
    printed := p.printed
    calls := [(command, p.files)] }

/-- Project the selected documents and lint what came of it. -/
def inCache (request : Request) (linter : Linter) (cache : Cache) (files : FileTree) : Outcome :=
  let fresh := Progress.start files
  match Selection.ofPatterns files cache.base request.patternTexts with
  | .error fault => ⟨.error (.file fault), files, [], [], []⟩
  | .ok documents =>
    match Progress.takeAll cache request.reporting documents fresh with
    | (p, some fault) => ⟨.error fault, p.files, p.notes, p.printed, []⟩
    | (p, none) =>
      if p.report.processed = 0 then
        let notes := if request.verbose then p.notes ++ [.nothingToLint] else p.notes
        ⟨.ok p.report, p.files, notes, p.printed, []⟩
      else callLinter request linter cache p

/-- Lint the front matter of the selected documents. `name` names the root of the cache. -/
def lint (request : Request) (linter : Linter) (name : FileName) (files : FileTree) : Outcome :=
  let (created, files) := Cache.create request.settings.tempDir request.base name files
  match created.result with
  | .error fault => ⟨.error fault, files, created.notes, [], []⟩
  | .ok cache =>
    let outcome := inCache request linter cache files
    let (notes, files) := cache.remove outcome.files
    { outcome with files := files, notes := created.notes ++ outcome.notes ++ notes }

/-- What is left of a run that is told no base directory where the current one is gone: that is
noticed behind the making of the root, which stays. -/
def stranded (tempDir : Path) (name : FileName) (files : FileTree) : Outcome :=
  let (created, files) := Cache.create tempDir ⟨.slash, files.current⟩ name files
  match created.result with
  | .error fault => ⟨.error fault, files, created.notes, [], []⟩
  | .ok _ => ⟨.error .currentMissing, files, created.notes, [], []⟩

/-- Whether a linter runs and ends with status zero when asked for its version. A path with
a NUL is no program to ask. -/
def isAvailable (program : String) (linter : Linter) (files : FileTree) : Except Fault Bool :=
  match linter (Command.version program) files with
  | .exited status _ => .ok (status == 0)
  | .refused .nulInPath => .error (.file .nulInPath)
  | .interrupted => .error .interrupted
  | .terminated => .error .terminated
  | _ => .ok false

end Run

end FrontLint
