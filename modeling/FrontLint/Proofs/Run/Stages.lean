import FrontLint.Proofs.Run.Take

/-!
# Stages of a run

Before a run comes to its linter it has made its cache, has found its documents and has taken
them all. If one of these fails it ends with that fault. What it has printed by then does not
depend on the linter.
-/

namespace FrontLint

/-- The status and the output with which a program ends. A signal counts as 128 and its
number. -/
inductive Ending.EndsWith : Ending → Nat → Bytes → Prop
  | exited {status : Nat} {output : Bytes} : EndsWith (.exited status output) status output
  | killed {signal : Nat} {output : Bytes} : EndsWith (.killed signal output) (128 + signal) output

theorem Ending.EndsWith.exited_or_killed {ending : Ending} {status : Nat} {output : Bytes}
    (h : ending.EndsWith status output) : ending = .exited status output ∨
      ∃ signal, ending = .killed signal output ∧ status = 128 + signal := by
  cases h with
  | exited => exact .inl rfl
  | killed => exact .inr ⟨_, rfl, rfl⟩

namespace Progress

variable {cache : Cache} {p : Progress}

/-- Without a console a run prints no documents. -/
theorem printed_take_of_no_console [HashSeed] (cache : Cache) (p : Progress) (file : List Char) :
    (take cache none p file).1.printed = p.printed := by
  rw [take]
  simp only
  split
  · rfl
  · rfl
  · split <;> rfl

theorem printed_takeAll_of_no_console [HashSeed] (cache : Cache) (documents : List (List Char))
    (p : Progress) : (takeAll cache none documents p).1.printed = p.printed := by
  induction documents generalizing p with
  | nil => rfl
  | cons file rest ih =>
      cases h : (take cache none p file).2 with
      | none => rw [takeAll_cons_of_none h, ih, printed_take_of_no_console]
      | some fault => rw [takeAll_cons_of_some h, printed_take_of_no_console]

end Progress

namespace Run

/-- The cache that a run makes, and the tree with its empty root. -/
def creation (request : Request) (name : FileName) (before : FileTree) :
    Noted Fault Cache × FileTree :=
  Cache.create request.settings.tempDir request.base name before

variable {request : Request} {linter : Linter} {name : FileName} {before : FileTree}
  {cache : Cache} {documents : List (List Char)} {p : Progress} {fault : Fault} {report : Report}

section

variable [HashSeed]

/-- A run that has counted all its documents calls the linter if some were processed. -/
theorem inCache_of_takeAll_eq_none (linter : Linter) {files : FileTree} {p : Progress}
    (hselected : Selection.ofPatterns files cache.base request.patternTexts = .ok documents)
    (htake : Progress.takeAll cache request.reporting documents (.start files) = (p, none)) :
    (p.report.processed = 0 → (inCache request linter cache files).result = .ok p.report ∧
      (inCache request linter cache files).calls = []) ∧
    (0 < p.report.processed →
      inCache request linter cache files = callLinter request linter cache p) := by
  constructor
  · intro hzero
    simp only [inCache, hselected, htake, hzero, if_true, and_self]
  · intro hpos
    have hsome : ¬ p.report.processed = 0 := by omega
    simp only [inCache, hselected, htake, hsome, if_false]

theorem inCache_of_takeAll_eq_some (linter : Linter) {files : FileTree} {fault : Fault}
    (hselected : Selection.ofPatterns files cache.base request.patternTexts = .ok documents)
    (htake : (Progress.takeAll cache request.reporting documents (.start files)).2 = some fault) :
    (inCache request linter cache files).result = .error fault ∧
      (inCache request linter cache files).calls = [] := by
  cases hrun : Progress.takeAll cache request.reporting documents (.start files) with
  | mk p stopped =>
      rw [hrun] at htake
      cases htake
      simp only [inCache, hselected, hrun, and_self]

/-- A run ends as the run in its cache does, and removes the cache behind it. -/
theorem lint_of_created (linter : Linter)
    (h : (creation request name before).1.result = .ok cache) :
    (lint request linter name before).result =
        (inCache request linter cache (creation request name before).2).result ∧
      (lint request linter name before).calls =
        (inCache request linter cache (creation request name before).2).calls ∧
      (lint request linter name before).printed =
        (inCache request linter cache (creation request name before).2).printed ∧
      (lint request linter name before).files =
        (cache.remove (inCache request linter cache (creation request name before).2).files).2 := by
  rw [creation] at h ⊢
  simp only [lint, h, and_self]

/-- A run has made a cache and has taken all its documents. -/
structure Prepares (request : Request) (name : FileName) (before : FileTree) (cache : Cache)
    (p : Progress) : Prop where
  created : (creation request name before).1.result = .ok cache
  exists_taken : ∃ documents, Selection.ofPatterns (creation request name before).2 cache.base
      request.patternTexts = .ok documents ∧
    Progress.takeAll cache request.reporting documents (.start (creation request name before).2) =
      (p, none)

/-- A run ends before its linter: no cache can be made, a pattern cannot be matched or a match
cannot be asked for, or a fault of a document is not handled. -/
inductive Fails (request : Request) (name : FileName) (before : FileTree) : Fault → Prop
  | creation {fault : Fault} (h : (creation request name before).1.result = .error fault) :
      Fails request name before fault
  | selection {cache : Cache} {fault : FileFault}
      (hcreated : (Run.creation request name before).1.result = .ok cache)
      (h : Selection.ofPatterns (Run.creation request name before).2 cache.base
        request.patternTexts = .error fault) :
      Fails request name before (.file fault)
  | document {cache : Cache} {documents : List (List Char)} {fault : Fault}
      (hcreated : (Run.creation request name before).1.result = .ok cache)
      (hselected : Selection.ofPatterns (Run.creation request name before).2 cache.base
        request.patternTexts = .ok documents)
      (h : (Progress.takeAll cache request.reporting documents
        (.start (Run.creation request name before).2)).2 = some fault) :
      Fails request name before fault

theorem fails_or_prepares (request : Request) (name : FileName) (before : FileTree) :
    (∃ fault, Fails request name before fault) ∨
      ∃ cache p, Prepares request name before cache p := by
  cases hcreated : (creation request name before).1.result with
  | error fault => exact .inl ⟨fault, .creation hcreated⟩
  | ok cache =>
      cases hselected : Selection.ofPatterns (creation request name before).2 cache.base
          request.patternTexts with
      | error fault => exact .inl ⟨.file fault, .selection hcreated hselected⟩
      | ok documents =>
          cases htake : Progress.takeAll cache request.reporting documents
              (.start (creation request name before).2) with
          | mk p stopped =>
              cases stopped with
              | none => exact .inr ⟨cache, p, hcreated, documents, hselected, htake⟩
              | some fault =>
                  exact .inl ⟨fault, .document hcreated hselected (congrArg Prod.snd htake)⟩

theorem lint_of_fails (linter : Linter) (h : Fails request name before fault) :
    (lint request linter name before).result = .error fault ∧
      (lint request linter name before).calls = [] := by
  cases h with
  | creation h =>
      rw [creation] at h
      simp only [lint, h, and_self]
  | selection hcreated h =>
      obtain ⟨hresult, hcalls, -⟩ := lint_of_created linter hcreated
      rw [hresult, hcalls]
      simp only [inCache, h, and_self]
  | document hcreated hselected h =>
      obtain ⟨hresult, hcalls, -⟩ := lint_of_created linter hcreated
      rw [hresult, hcalls]
      exact inCache_of_takeAll_eq_some linter hselected h

/-- After its preparation a run ends without the linter, or with what the linter's ending gives
it. -/
theorem lint_of_prepares (linter : Linter) (h : Prepares request name before cache p) :
    (p.report.processed = 0 → (lint request linter name before).result = .ok p.report ∧
      (lint request linter name before).calls = []) ∧
    (0 < p.report.processed →
      (lint request linter name before).result = complete request.settings cache p
          (linter (.lint request.settings.linter request.filter cache.root) p.files) ∧
        (lint request linter name before).calls =
          [(.lint request.settings.linter request.filter cache.root, p.files)]) := by
  obtain ⟨documents, hselected, htake⟩ := h.exists_taken
  obtain ⟨hresult, hcalls, -⟩ := lint_of_created linter h.created
  obtain ⟨hskipped, hcalled⟩ := inCache_of_takeAll_eq_none linter hselected htake
  rw [hresult, hcalls]
  refine ⟨hskipped, fun hpos => ?_⟩
  rw [hcalled hpos]
  exact ⟨rfl, rfl⟩

/-- A run that gives a report has come through its preparation. -/
theorem exists_prepares_of_result (h : (lint request linter name before).result = .ok report) :
    ∃ cache p, Prepares request name before cache p := by
  rcases fails_or_prepares request name before with ⟨fault, hfails⟩ | hprepares
  · rw [(lint_of_fails linter hfails).1] at h
    cases h
  · exact hprepares

end

theorem complete_eq_ok_iff {settings : Settings} {ending : Ending} :
    complete settings cache p ending = .ok report ↔
      ∃ status output, ending.EndsWith status output ∧
        report = { p.report with
          status := status
          output := Output.relocate p.files cache.root (outputText output)
          linted := true } := by
  constructor
  · intro h
    cases ending with
    | exited status output =>
        cases h
        exact ⟨status, output, .exited, rfl⟩
    | killed signal output =>
        cases h
        exact ⟨128 + signal, output, .killed, rfl⟩
    | refused fault => cases h
    | timedOut => cases h
    | interrupted => cases h
    | terminated => cases h
  · rintro ⟨status, output, hend, rfl⟩
    cases hend with
    | exited => rfl
    | killed => rfl

section

variable [HashSeed] (request : Request) (linter linter' : Linter) (name : FileName)
  (before : FileTree)

theorem printed_inCache_eq (cache : Cache) (files : FileTree) :
    (inCache request linter cache files).printed =
      (inCache request linter' cache files).printed := by
  simp only [inCache]
  split
  · rfl
  · split
    · rfl
    · split <;> rfl

/-- What a run prints does not depend on its linter. -/
theorem printed_lint_eq : (lint request linter name before).printed =
    (lint request linter' name before).printed := by
  simp only [lint]
  split
  · rfl
  · exact printed_inCache_eq request linter linter' _ _

theorem printed_inCache_of_not_verbose (h : request.verbose = false) (cache : Cache)
    (files : FileTree) : (inCache request linter cache files).printed = [] := by
  have hnone : request.reporting = none := by rw [Request.reporting, h]; rfl
  simp only [inCache, h, hnone]
  split
  · rfl
  · rename_i documents _
    have hall := Progress.printed_takeAll_of_no_console cache documents (.start files)
    split
    · rename_i htake
      rw [htake] at hall
      exact hall
    · rename_i htake
      rw [htake] at hall
      split
      · exact hall
      · exact hall

theorem printed_lint_of_not_verbose (h : request.verbose = false) :
    (lint request linter name before).printed = [] := by
  simp only [lint]
  split
  · rfl
  · exact printed_inCache_of_not_verbose request linter h _ _

end

end Run

end FrontLint
