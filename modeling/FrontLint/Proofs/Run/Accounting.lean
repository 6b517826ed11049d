import FrontLint.Proofs.Run.Stages

/-!
# The account of a run

A run that gives a report has processed its documents in turn, each on the files that those
before it left. The report counts them by what came of each, and the linter was called once, on
the files after the last of them, if there was a projection.

## Implementation notes

What comes of the documents is read off without the counting: `processInTurn` knows only the
cache. The report is then compared with that list.
-/

namespace FrontLint

/-- What comes of a document: its place in the cache, nothing, or a fault. -/
abbrev Cache.Found := Except Fault (Option Path)

namespace Cache

section

variable [HashSeed]

/-- What comes of documents one after another, each processed on the files that those before it
left, and the files after the last one. -/
def processInTurn (c : Cache) : List (List Char) → FileTree → List Found × FileTree
  | [], t => ([], t)
  | file :: rest, t =>
    let (found, t) := c.process file t
    let (others, last) := processInTurn c rest t
    (found.result :: others, last)

@[simp] def Found.isProcessed : Found → Bool
  | .ok (some _) => true
  | _ => false

@[simp] def Found.isSkipped : Found → Bool
  | .ok none => true
  | _ => false

@[simp] def Found.isFailed : Found → Bool
  | .error _ => true
  | _ => false

@[simp] theorem processInTurn_cons (c : Cache) (file : List Char) (rest : List (List Char))
    (t : FileTree) :
    c.processInTurn (file :: rest) t =
      ((c.process file t).1.result :: (c.processInTurn rest (c.process file t).2).1,
        (c.processInTurn rest (c.process file t).2).2) := rfl

theorem length_processInTurn (c : Cache) (documents : List (List Char)) (t : FileTree) :
    (c.processInTurn documents t).1.length = documents.length := by
  induction documents generalizing t with
  | nil => rfl
  | cons file rest ih => rw [processInTurn_cons, List.length_cons, ih, List.length_cons]

end

/-- The documents with a fault, in order. -/
def failures (documents : List (List Char)) (found : List Found) : List (List Char) :=
  ((documents.zip found).filter fun d => d.2.isFailed).map Prod.fst

@[simp] theorem failures_nil : failures [] [] = [] := rfl

theorem failures_cons (file : List Char) (rest : List (List Char)) (first : Found)
    (found : List Found) :
    failures (file :: rest) (first :: found) =
      if first.isFailed then file :: failures rest found else failures rest found := by
  rw [failures, List.zip_cons_cons, List.filter_cons]
  split <;> rfl

theorem failures_sublist (documents : List (List Char)) (found : List Found) :
    (failures documents found).Sublist documents := by
  induction documents generalizing found with
  | nil => exact List.nil_sublist _
  | cons file rest ih =>
      cases found with
      | nil => exact List.nil_sublist _
      | cons first found =>
          rw [failures_cons]
          split
          · exact (ih found).cons_cons file
          · exact (ih found).cons file

/-- Each document is processed, skipped or failed. -/
theorem countP_add_length_failures {documents : List (List Char)} {found : List Found}
    (h : found.length = documents.length) :
    found.countP Found.isProcessed + found.countP Found.isSkipped +
      (failures documents found).length = documents.length := by
  induction documents generalizing found with
  | nil =>
      obtain rfl := List.length_eq_zero_iff.1 h
      rfl
  | cons file rest ih =>
      cases found with
      | nil => cases h
      | cons first found =>
          have hrest := ih (Nat.succ.inj h)
          rw [failures_cons, List.countP_cons, List.countP_cons, List.length_cons]
          cases first with
          | error fault =>
              simp only [Found.isProcessed, Found.isSkipped, Found.isFailed, Bool.false_eq_true,
                if_false, if_true, List.length_cons]
              omega
          | ok target =>
              cases target <;>
              · simp only [Found.isProcessed, Found.isSkipped, Found.isFailed, Bool.false_eq_true,
                  if_false, if_true]
                omega

end Cache

namespace Report

/-- A report with more documents, counted by what came of each. -/
def countAll (r : Report) (documents : List (List Char)) (found : List Cache.Found) : Report :=
  { r with
    processed := r.processed + found.countP Cache.Found.isProcessed
    skipped := r.skipped + found.countP Cache.Found.isSkipped
    failed := r.failed ++ Cache.failures documents found }

@[simp] theorem countAll_nil (r : Report) : r.countAll [] [] = r := by
  simp [countAll]

theorem countAll_cons (r : Report) (file : List Char) (rest : List (List Char))
    (first : Cache.Found) (found : List Cache.Found) :
    (r.countAll [file] [first]).countAll rest found =
      r.countAll (file :: rest) (first :: found) := by
  have hfailed : r.failed ++ Cache.failures [file] [first] ++ Cache.failures rest found =
      r.failed ++ Cache.failures (file :: rest) (first :: found) := by
    rw [Cache.failures_cons, Cache.failures_cons, List.append_assoc]
    split <;> rfl
  have hcount : ∀ (n : Nat) (counts : Cache.Found → Bool),
      n + [first].countP counts + found.countP counts = n + (first :: found).countP counts := by
    intro n counts
    rw [List.countP_cons, List.countP_cons, List.countP_nil]
    omega
  simp only [countAll, hfailed, hcount]

/-- A report counts documents by what came of each of them. -/
structure Counts (r : Report) (documents : List (List Char)) (found : List Cache.Found) :
    Prop where
  /-- Only a fault of one document is counted. -/
  isOfDocument : ∀ fault, .error fault ∈ found → fault.isOfDocument = true
  processed : r.processed = found.countP Cache.Found.isProcessed
  skipped : r.skipped = found.countP Cache.Found.isSkipped
  failed : r.failed = Cache.failures documents found
  failed_sublist : r.failed.Sublist documents
  total : r.processed + r.skipped + r.failed.length = documents.length

/-- The linter was called once if a document was processed, and otherwise not. What it ended
with is in the report. -/
structure Forwards (r : Report) (linter : Linter) (command : Command) (root : Path)
    (files : FileTree) (calls : List LinterCall) : Prop where
  calls_of_pos : 0 < r.processed → calls = [(command, files)]
  calls_of_zero : r.processed = 0 → calls = []
  linted_iff : r.linted = true ↔ calls ≠ []
  unlinted : r.linted = false → r.status = 0 ∧ r.output = []
  linted : r.linted = true → ∃ output, (linter command files).EndsWith r.status output ∧
    r.output = Output.relocate files root (Run.outputText output)

theorem counts_countAll_empty {documents : List (List Char)} {found : List Cache.Found}
    (hlength : found.length = documents.length)
    (h : ∀ fault, .error fault ∈ found → fault.isOfDocument = true) :
    (Report.empty.countAll documents found).Counts documents found := by
  have hprocessed : (Report.empty.countAll documents found).processed =
      found.countP Cache.Found.isProcessed := Nat.zero_add _
  have hskipped : (Report.empty.countAll documents found).skipped =
      found.countP Cache.Found.isSkipped := Nat.zero_add _
  constructor
  case isOfDocument => exact h
  case processed => exact hprocessed
  case skipped => exact hskipped
  case failed => rfl
  case failed_sublist => exact Cache.failures_sublist documents found
  case total =>
    rw [hprocessed, hskipped]
    exact Cache.countP_add_length_failures hlength

end Report

namespace Progress

variable [HashSeed] {cache : Cache} {console : Option Console} {p q : Progress} {file : List Char}

/-- A document after which a run goes on is counted by what came of it. -/
theorem report_take (h : take cache console p file = (q, none)) :
    (∀ fault, (cache.process file p.files).1.result = .error fault → fault.isOfDocument = true) ∧
      q.report = p.report.countAll [file] [(cache.process file p.files).1.result] := by
  cases hresult : (cache.process file p.files).1.result with
  | ok found =>
      refine ⟨fun fault hfault => (by cases hfault), ?_⟩
      cases found with
      | some target =>
          rw [take_of_ok_some hresult] at h
          have hreport := congrArg (fun taken => taken.1.report) h
          simp only [report_reportTo] at hreport
          rw [← hreport]
          simp [afterProcess, countProcessed, Report.countAll, Cache.failures_cons]
      | none =>
          rw [take_of_ok_none hresult] at h
          cases h
          simp [afterProcess, countSkipped, Report.countAll, Cache.failures_cons]
  | error fault =>
      cases hdoc : fault.isOfDocument with
      | true =>
          rw [take_of_isOfDocument hresult hdoc] at h
          cases h
          refine ⟨fun other hother => Except.error.inj hother ▸ hdoc, ?_⟩
          simp [afterProcess, countFailed, Report.countAll, Cache.failures_cons]
      | false =>
          rw [take_of_not_isOfDocument hresult hdoc] at h
          cases h

/-- Documents that were all taken were processed in turn, and are counted by what came of
them. -/
theorem report_takeAll {documents : List (List Char)}
    (h : takeAll cache console documents p = (q, none)) :
    q.files = (cache.processInTurn documents p.files).2 ∧
      (∀ fault, .error fault ∈ (cache.processInTurn documents p.files).1 →
        fault.isOfDocument = true) ∧
      q.report = p.report.countAll documents (cache.processInTurn documents p.files).1 := by
  induction documents generalizing p with
  | nil =>
      cases h
      exact ⟨rfl, fun fault hfault => absurd hfault List.not_mem_nil,
        (Report.countAll_nil _).symm⟩
  | cons file rest ih =>
      obtain ⟨m, hm, hrest⟩ := takeAll_cons_eq_none_iff.1 h
      have hfiles : m.files = (cache.process file p.files).2 := by
        rw [← @files_take cache console _ p file, hm]
      obtain ⟨hfirst, hfound⟩ := report_take hm
      obtain ⟨hlast, hothers, hreport⟩ := ih hrest
      rw [hfiles] at hlast hothers hreport
      rw [Cache.processInTurn_cons]
      refine ⟨hlast, fun fault hfault => ?_, ?_⟩
      · rcases List.mem_cons.1 hfault with hfault | hfault
        · exact hfirst fault hfault.symm
        · exact hothers fault hfault
      · rw [hreport, hfound, Report.countAll_cons]

/-- Before the linter there is no status and no output. -/
theorem unlinted_of_takeAll {documents : List (List Char)} {files : FileTree}
    (h : takeAll cache console documents (.start files) = (p, none)) :
    p.report.linted = false ∧ p.report.status = 0 ∧ p.report.output = [] := by
  rw [(report_takeAll h).2.2]
  exact ⟨rfl, rfl, rfl⟩

end Progress

namespace Run

variable {request : Request} {linter : Linter} {name : FileName} {before : FileTree}
  {report : Report}

/-- A report accounts for its run: the documents were processed in turn and are counted by what
came of each, and the linter was called once on what they left if one was processed. -/
theorem lint_accounts [HashSeed] (h : (lint request linter name before).result = .ok report) :
    ∃ cache documents,
      (creation request name before).1.result = .ok cache ∧
      Selection.ofPatterns (creation request name before).2 cache.base request.patternTexts =
        .ok documents ∧
      report.Counts documents
        (cache.processInTurn documents (creation request name before).2).1 ∧
      report.Forwards linter (.lint request.settings.linter request.filter cache.root) cache.root
        (cache.processInTurn documents (creation request name before).2).2
        (lint request linter name before).calls := by
  obtain ⟨cache, p, hprepares⟩ := exists_prepares_of_result h
  obtain ⟨documents, hselected, htake⟩ := hprepares.exists_taken
  obtain ⟨hskipped, hcalled⟩ := lint_of_prepares linter hprepares
  obtain ⟨hfiles, hhandled, hreport⟩ := Progress.report_takeAll htake
  simp only [Progress.start] at hfiles hhandled hreport
  have hcounts : p.report.Counts documents
      (cache.processInTurn documents (creation request name before).2).1 := by
    rw [hreport]
    exact Report.counts_countAll_empty (Cache.length_processInTurn _ _ _) hhandled
  have hplain := Progress.unlinted_of_takeAll htake
  refine ⟨cache, documents, hprepares.created, hselected, ?_⟩
  rw [← hfiles]
  rcases Nat.eq_zero_or_pos p.report.processed with hzero | hpos
  · obtain ⟨hresult, hcalls⟩ := hskipped hzero
    rw [hresult] at h
    obtain rfl := Except.ok.inj h
    refine ⟨hcounts, ?_⟩
    rw [hcalls]
    constructor
    case calls_of_pos => exact fun hpos => absurd hzero (Nat.pos_iff_ne_zero.1 hpos)
    case calls_of_zero => exact fun _ => rfl
    case linted_iff => simp [hplain.1]
    case unlinted => exact fun _ => hplain.2
    case linted =>
      intro hlinted
      rw [hplain.1] at hlinted
      cases hlinted
  · obtain ⟨hresult, hcalls⟩ := hcalled hpos
    rw [hresult] at h
    obtain ⟨status, output, hends, rfl⟩ := complete_eq_ok_iff.1 h
    refine ⟨⟨hcounts.isOfDocument, hcounts.processed, hcounts.skipped, hcounts.failed,
      hcounts.failed_sublist, hcounts.total⟩, ?_⟩
    rw [hcalls]
    constructor
    case calls_of_pos => exact fun _ => rfl
    case calls_of_zero => exact fun hzero => absurd hzero (Nat.pos_iff_ne_zero.1 hpos)
    case linted_iff => simp
    case unlinted =>
      intro hlinted
      cases hlinted
    case linted => exact fun _ => ⟨output, hends, rfl⟩

/-- A tree with a document `a` that has a title, a file `b` of one byte that is no text, and an
empty file `c`. -/
def mixedTree : FileTree :=
  ⟨[([['w']], .directory),
    ([['w'], ['a']], .file (Utf8.encodeChars
      ['-', '-', '-', '\n', 't', 'i', 't', 'l', 'e', ':', ' ', 'b', '\n', '-', '-', '-'])),
    ([['w'], ['b']], .file [0xFF]), ([['w'], ['c']], .file [])], []⟩

def mixedRequest : Request :=
  ⟨⟨"vale", none, ⟨.slash, [['t']]⟩, "*"⟩, ["a", "b", "c"], none, false, ⟨.slash, [['w']]⟩, .plain⟩

/-- A linter that names `a` below the root of the cache and dies of signal 9. -/
def dyingLinter : Linter := fun _ _ =>
  .killed 9 (Utf8.encodeChars ['/', 't', '/', 'x', '/', 'a', '\n'])

def mixedReport : Report := ⟨137, ['a', '\n'], 1, 1, [['b']], true⟩

open HashSeed

theorem lint_accounts_mixed :
    (lint mixedRequest dyingLinter ['x'] mixedTree).result = .ok mixedReport ∧
      ∃ cache documents,
        (creation mixedRequest ['x'] mixedTree).1.result = .ok cache ∧
        Selection.ofPatterns (creation mixedRequest ['x'] mixedTree).2 cache.base
          mixedRequest.patternTexts = .ok documents ∧
        mixedReport.Counts documents
          (cache.processInTurn documents (creation mixedRequest ['x'] mixedTree).2).1 ∧
        mixedReport.Forwards dyingLinter (.lint "vale" none cache.root) cache.root
          (cache.processInTurn documents (creation mixedRequest ['x'] mixedTree).2).2
          (lint mixedRequest dyingLinter ['x'] mixedTree).calls := by
  have hresult : (lint mixedRequest dyingLinter ['x'] mixedTree).result = .ok mixedReport :=
    Noted.eq_ok_of_toOption (by decide +kernel)
  exact ⟨hresult, lint_accounts hresult⟩

end Run

end FrontLint
