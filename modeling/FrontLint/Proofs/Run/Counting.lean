import FrontLint.Proofs.Run.Coordinates

/-!
# Counted documents

A run counts each of its documents as processed, skipped or failed, and then calls the linter
if some were processed, unless it comes to a document with a fault that is not handled, or to one
for which the console refuses the line. There it stops, and the linter is not called.
-/

namespace FrontLint

/-- The faults of a document that stop a run: a value of the block that is taken apart without
a check, a number that has no text, a text that cannot be encoded, and a NUL in a path. -/
inductive Fault.StopsRun : Fault → Prop where
  | block {fault : Yaml.Fault} (h : fault.isOfBlock = false) : StopsRun (.projection (.block fault))
  | numeral (fault : NumeralFault) : StopsRun (.projection (.numeral fault))
  | encoding (fault : Utf8.EncodeFault) : StopsRun (.encoding fault)
  | nulInPath : StopsRun (.file .nulInPath)

theorem Fault.StopsRun.isOfDocument {fault : Fault} (h : fault.StopsRun) :
    fault.isOfDocument = false := by
  cases h with
  | block h => exact h
  | numeral _ => rfl
  | encoding _ => rfl
  | nulInPath => rfl

theorem Fault.file_cases (fault : FileFault) :
    (Fault.file fault).isOfDocument = true ∨ (Fault.file fault).StopsRun := by
  cases fault with
  | refused _ _ => exact .inl rfl
  | nulInPath => exact .inr .nulInPath

theorem CacheFault.ofFile_cases (blame : FileFault → CacheFault) (fault : FileFault) :
    (CacheFault.ofFile blame fault).isOfDocument = true ∨
      (CacheFault.ofFile blame fault).StopsRun := by
  cases fault with
  | refused _ _ => exact .inl rfl
  | nulInPath => exact .inr .nulInPath

namespace Cache

/-- A cache that cannot be made has the fault of a file operation. -/
theorem exists_ofFile_of_create {directory base : Path} {name : FileName} {t : FileTree}
    {fault : Fault} (h : (create directory base name t).1.result = .error fault) :
    ∃ blame cause, fault = CacheFault.ofFile blame cause := by
  simp only [create] at h
  split at h
  · exact ⟨_, _, (Except.error.inj h).symm⟩
  · split at h
    · exact ⟨_, _, (Except.error.inj h).symm⟩
    · cases h

theorem project_eq_error [HashSeed] {c : Cache} {file : List Char} {t : FileTree} {fault : Fault}
    (h : (c.project file t).result = .error fault) :
    fault.isOfDocument = true ∨ fault.StopsRun := by
  rw [project, Noted.result_bind_eq_error_iff] at h
  rcases h with h | ⟨text, -, h⟩
  · rw [Noted.result_ofExcept, FileTree.readText] at h
    split at h
    · cases h
      exact Fault.file_cases _
    · split at h
      · cases h
        exact .inl rfl
      · cases h
  · rw [Noted.result_mapFault] at h
    obtain ⟨hmissing, houtside⟩ := Projection.ofText?_ne_lineMissing text
    cases hp : (Projection.ofText? text).result with
    | ok p =>
        rw [hp] at h
        cases h
    | error e =>
        rw [hp] at h hmissing houtside
        cases h
        cases e with
        | block e =>
            cases he : e.isOfBlock with
            | true => exact .inl he
            | false => exact .inr (.block he)
        | numeral e => exact .inr (.numeral e)
        | lineMissing => exact absurd rfl hmissing
        | lineOutside => exact absurd rfl houtside

theorem write_eq_error_cases {c : Cache} {source : Path} {p : Projection} {t : FileTree}
    {fault : Fault} (h : (c.write source p t).1 = .error fault) :
    fault.isOfDocument = true ∨ fault.StopsRun := by
  simp only [write] at h
  split at h
  · cases h
    exact CacheFault.ofFile_cases _ _
  · split at h
    · split at h
      · cases h
        exact CacheFault.ofFile_cases _ _
      · cases h
    · split at h
      · cases h
        exact CacheFault.ofFile_cases _ _
      · cases h
        exact .inr (.encoding _)

/-- A document's fault is handled, or it stops the run. -/
theorem process_eq_error [HashSeed] {c : Cache} {file : List Char} {t : FileTree} {fault : Fault}
    (h : (c.process file t).1.result = .error fault) :
    fault.isOfDocument = true ∨ fault.StopsRun := by
  simp only [process] at h
  split at h
  · rename_i hproject
    cases h
    exact project_eq_error hproject
  · cases h
  · rename_i p hproject
    cases hwrite : (c.write (.ofText file) p t).1 with
    | error e =>
        simp only [hwrite] at h
        cases h
        exact write_eq_error_cases hwrite
    | ok target =>
        simp only [hwrite] at h
        cases h

end Cache

section

variable [HashSeed]

namespace Progress

/-- The number of documents that are counted. -/
def counted (p : Progress) : Nat :=
  p.report.processed + p.report.skipped + p.report.failed.length

/-- A run stops at a document that has a fault which is not handled, or for which the console
refuses the line. -/
inductive StopsAt (cache : Cache) (console : Option Console) (p : Progress) (file : List Char) :
    Fault → Prop
  | fault {fault : Fault} (h : (cache.process file p.files).1.result = .error fault)
      (hstops : fault.StopsRun) : StopsAt cache console p file fault
  | refused {target : Path} {printer : Console} {reason : String}
      (h : (cache.process file p.files).1.result = .ok (some target))
      (hconsole : console = some printer)
      (hrefused : printer (Console.processed file) = .error reason) :
      StopsAt cache console p file (.console reason)

variable {cache : Cache} {console : Option Console} {p : Progress} {file : List Char}

/-- A document is counted, or the run stops at it. -/
theorem take_cases (cache : Cache) (console : Option Console) (p : Progress) (file : List Char) :
    (take cache console p file).2 = none ∧
        (take cache console p file).1.counted = p.counted + 1 ∨
      ∃ fault, (take cache console p file).2 = some fault ∧
        p.StopsAt cache console file fault := by
  cases hresult : (cache.process file p.files).1.result with
  | ok found =>
      cases found with
      | some target =>
          rw [take_of_ok_some hresult]
          rcases reportTo_cases console (p.afterProcess cache file).countProcessed file with
            hprinted | ⟨printer, reason, hconsole, hrefused, hstopped⟩
          · refine .inl ⟨hprinted, ?_⟩
            simp only [counted, report_reportTo, countProcessed, afterProcess]
            omega
          · exact .inr ⟨_, hstopped, .refused hresult hconsole hrefused⟩
      | none =>
          left
          rw [take_of_ok_none hresult]
          simp only [counted, countSkipped, afterProcess, true_and]
          omega
  | error fault =>
      rcases Cache.process_eq_error hresult with h | h
      · left
        rw [take_of_isOfDocument hresult h]
        simp [counted, countFailed, afterProcess, Nat.add_assoc]
      · right
        rw [take_of_not_isOfDocument hresult h.isOfDocument]
        exact ⟨fault, rfl, .fault hresult h⟩

/-- All documents are counted, or the run stops at one of them after the documents in front of
it were counted. -/
theorem takeAll_cases (cache : Cache) (console : Option Console) (documents : List (List Char))
    (p : Progress) :
    (takeAll cache console documents p).2 = none ∧
        (takeAll cache console documents p).1.counted = p.counted + documents.length ∨
      ∃ front file back fault, documents = front ++ file :: back ∧
        (takeAll cache console front p).2 = none ∧
        (takeAll cache console front p).1.StopsAt cache console file fault ∧
        (takeAll cache console documents p).2 = some fault := by
  induction documents generalizing p with
  | nil => exact .inl ⟨rfl, rfl⟩
  | cons file rest ih =>
      rcases take_cases cache console p file with ⟨hnone, hcounted⟩ | ⟨fault, hsome, hstops⟩
      · rw [takeAll_cons_of_none hnone]
        rcases ih (take cache console p file).1 with
          ⟨hrest, hall⟩ | ⟨front, stop, back, fault, hsplit, hfront, hstops, hrest⟩
        · refine .inl ⟨hrest, ?_⟩
          rw [hall, hcounted, List.length_cons]
          omega
        · refine .inr ⟨file :: front, stop, back, fault, by rw [hsplit, List.cons_append], ?_⟩
          rw [takeAll_cons_of_none hnone]
          exact ⟨hfront, hstops, hrest⟩
      · refine .inr ⟨[], file, rest, fault, rfl, rfl, hstops, ?_⟩
        rw [takeAll_cons_of_some hsome, hsome]

end Progress

end

namespace Run

variable (linter : Linter) {request : Request} {name : FileName} {before : FileTree}
  {cache : Cache} {documents : List (List Char)}

/-- The fault of a run that ends before its linter is none of the linter and no signal. -/
theorem Fails.cases [HashSeed] {fault : Fault} (h : Fails request name before fault) :
    (∃ cause, fault = .file cause ∨ ∃ blame, fault = CacheFault.ofFile blame cause) ∨
      fault.StopsRun ∨ ∃ reason, fault = .console reason := by
  cases h with
  | creation h =>
      obtain ⟨blame, cause, rfl⟩ := Cache.exists_ofFile_of_create h
      exact .inl ⟨cause, .inr ⟨blame, rfl⟩⟩
  | selection hcreated h => exact .inl ⟨_, .inl rfl⟩
  | document hcreated hselected h =>
      rcases Progress.takeAll_cases _ request.reporting _
          (.start (Run.creation request name before).2)
        with ⟨hnone, -⟩ | ⟨_, _, _, other, -, -, hstops, hsome⟩
      · rw [hnone] at h
        cases h
      · rw [hsome] at h
        obtain rfl := Option.some.inj h
        cases hstops with
        | fault _ hstops => exact .inr (.inl hstops)
        | refused => exact .inr (.inr ⟨_, rfl⟩)

/-- A run counts all its documents and calls the linter if some of them were processed, or it
stops at one of them, with a fault that is not handled or since the console refuses its line, and
does not call the linter. -/
theorem lint_counts [HashSeed] (hcreated : (creation request name before).1.result = .ok cache)
    (hselected : Selection.ofPatterns (creation request name before).2 cache.base
      request.patternTexts = .ok documents) :
    (∃ p, Progress.takeAll cache request.reporting documents
        (.start (creation request name before).2) = (p, none) ∧
      p.counted = documents.length ∧
      (p.report.processed = 0 → (lint request linter name before).result = .ok p.report ∧
        (lint request linter name before).calls = []) ∧
      (0 < p.report.processed →
        (lint request linter name before).result =
            (callLinter request linter cache p).result ∧
          (lint request linter name before).calls =
            (callLinter request linter cache p).calls)) ∨
    ∃ front file back fault, documents = front ++ file :: back ∧
      (Progress.takeAll cache request.reporting front
        (.start (creation request name before).2)).1.StopsAt cache request.reporting file fault ∧
      (lint request linter name before).result = .error fault ∧
      (lint request linter name before).calls = [] := by
  obtain ⟨hresult, hcalls, -⟩ := lint_of_created linter hcreated
  rw [hresult, hcalls]
  rcases Progress.takeAll_cases cache request.reporting documents
      (.start (creation request name before).2) with
    ⟨hnone, hall⟩ | ⟨front, file, back, fault, hsplit, -, hstops, hsome⟩
  · obtain ⟨hskipped, hcalled⟩ := inCache_of_takeAll_eq_none linter hselected
      (Prod.ext rfl hnone)
    refine .inl ⟨_, Prod.ext rfl hnone, ?_, hskipped, ?_⟩
    · simpa [Progress.counted, Progress.start, Report.empty] using hall
    · intro hpos
      rw [hcalled hpos]
      exact ⟨rfl, rfl⟩
  · exact .inr ⟨front, file, back, fault, hsplit, hstops,
      inCache_of_takeAll_eq_some linter hselected hsome⟩

/-- A tree with a document `a` that has a title and a document `k` with a truth value that is
none. -/
def truthTree : FileTree :=
  ⟨[([['w']], .directory),
    ([['w'], ['a']], .file (Utf8.encodeChars
      ['-', '-', '-', '\n', 't', 'i', 't', 'l', 'e', ':', ' ', 'b', '\n', '-', '-', '-'])),
    ([['w'], ['k']], .file (Utf8.encodeChars
      ['-', '-', '-', '\n', 't', ':', ' ', '!', '!', 'b', 'o', 'o', 'l', ' ', 'm', '\n',
        '-', '-', '-']))], []⟩

def truthRequest : Request :=
  ⟨⟨"vale", none, ⟨.slash, [['c']]⟩, "a"⟩, ["a", "k"], none, false, ⟨.slash, [['w']]⟩,
    .plain⟩

def truthCache : Cache := ⟨⟨.slash, [['c'], ['x']]⟩, ⟨.slash, [['w']]⟩⟩

open HashSeed

/-- The run stops at `k`, and no linter is called for `a`. -/
theorem lint_counts_truth :
    ∃ fault, fault.StopsRun ∧
      (lint truthRequest (Linter.printing 0) ['x'] truthTree).result = .error fault ∧
      (lint truthRequest (Linter.printing 0) ['x'] truthTree).calls = [] := by
  have hcreated : (creation truthRequest ['x'] truthTree).1.result = .ok truthCache :=
    Noted.eq_ok_of_toOption (by decide +kernel)
  have hselected : Selection.ofPatterns (creation truthRequest ['x'] truthTree).2 truthCache.base
      truthRequest.patternTexts = .ok [['a'], ['k']] := Noted.eq_ok_of_toOption (by decide +kernel)
  have hstopped : (Progress.takeAll truthCache truthRequest.reporting [['a'], ['k']]
      (.start (creation truthRequest ['x'] truthTree).2)).2 ≠ none := by decide +kernel
  rcases lint_counts (Linter.printing 0) hcreated hselected with
    ⟨p, hall, -, -⟩ | ⟨front, file, back, fault, -, hstops, hresult, hcalls⟩
  · exact absurd (congrArg Prod.snd hall) hstopped
  · cases hstops with
    | fault _ hstops => exact ⟨fault, hstops, hresult, hcalls⟩
    | refused _ hconsole _ => cases hconsole

end Run

end FrontLint
